import Mathlib.Data.List.Basic
import Mathlib.Order.Bounds.Basic
import SegmentLog.Proofs.Log.Replay
import SegmentLog.Rebalance

/-!
# Choosing between history and a full copy

The listing is walked from the start on, and the walk stops where an index does not follow. The
decision is exact about the segments up to the one that is written: history is chosen if and only if
all of them are listed, and the first that is not is named otherwise. Of a start behind the segment
that is written nothing is asked, so history is chosen there although it can neither be pinned nor
opened.
-/
namespace SegmentLog

namespace Directory
variable {d : Directory} {v : Volume} {listed : List ℕ}

/-- A listing ascends, though not strictly where two names of a folder stand for one segment. -/
theorem list_ascending (sorted : v.segments.Sorted) (lists : d.list v = .ok listed) :
    listed.Pairwise (· ≤ ·) := by
  unfold Directory.list Place.list at lists
  split at lists
  · cases lists
    exact (List.pairwise_map.mpr sorted).imp Nat.le_of_lt
  · split at lists
    · cases lists
      refine List.Pairwise.imp of_decide_eq_true ?_
      exact List.pairwise_mergeSort (by simpa using fun _ _ _ => Nat.le_trans)
        (by simpa using Nat.le_total) _
    · cases lists

end Directory

namespace Rebalance
variable {listed : List ℕ} {first k : ℕ}

/-- The walk along a listing from `first` on does not pass `k`: it is not listed, or the one before
it is listed twice. -/
def Blocked (listed : List ℕ) (first k : ℕ) : Prop :=
  k ∉ listed ∨ first < k ∧ 1 < listed.count (k - 1)

theorem blocked_iff (once : listed.Nodup) : Blocked listed first k ↔ k ∉ listed := by
  refine or_iff_left fun ⟨_, twice⟩ => ?_
  have := List.nodup_iff_count_le_one.mp once (k - 1)
  omega

theorem blocked_filter (le : first ≤ k) :
    Blocked (listed.filter (first ≤ ·)) first k ↔ Blocked listed first k := by
  refine or_congr ?_ (and_congr_right fun lt => ?_)
  · rw [List.mem_filter, decide_eq_true_eq, and_iff_left le]
  · rw [List.count_filter (by rw [decide_eq_true_eq]; omega)]

/-- With the first index passed, what blocks the rest of the walk is what blocks all of it. -/
theorem blocked_cons (absent : first ∉ listed) (lt : first < k) :
    Blocked (first :: listed) first k ↔ Blocked listed (first + 1) k := by
  refine or_congr ?_ ?_
  · rw [List.mem_cons, not_or, and_iff_right (by omega)]
  · rw [List.count_cons]
    by_cases next : first + 1 = k
    · subst next
      rw [Nat.add_sub_cancel, List.count_eq_zero_of_not_mem absent]
      simp
    · have other : first ≠ k - 1 := by omega
      simp only [beq_eq_false_iff_ne.mpr other]
      refine and_congr (by omega) ?_
      simp

theorem isLeast_firstMissing (ascending : listed.Pairwise (· ≤ ·))
    (above : ∀ k ∈ listed, first ≤ k) (words : ∀ k ∈ listed, k + 1 < UInt64.size) :
    IsLeast {k | first ≤ k ∧ Blocked listed first k} (firstMissing first listed) := by
  induction listed generalizing first with
  | nil => exact ⟨⟨le_rfl, .inl List.not_mem_nil⟩, fun k hk => hk.1⟩
  | cons segment listed ih =>
      obtain ⟨below, ascending⟩ := List.pairwise_cons.mp ascending
      obtain ⟨least, above⟩ := List.forall_mem_cons.mp above
      obtain ⟨word, words⟩ := List.forall_mem_cons.mp words
      unfold firstMissing
      split
      case isFalse ne =>
          have absent : first ∉ segment :: listed := fun mem => by
            rcases List.mem_cons.mp mem with rfl | mem
            · exact ne rfl
            · have := below first mem
              omega
          exact ⟨⟨le_rfl, .inl absent⟩, fun k hk => hk.1⟩
      case isTrue e =>
        subst e
        rw [Directory.indexAfter_of_lt word]
        by_cases again : segment ∈ listed
        · -- The listing has the segment once more, and the walk stops there.
          obtain ⟨later, rest⟩ : ∃ later, listed = segment :: later := by
            obtain _ | ⟨next, later⟩ := listed
            · cases again
            · have le := below next List.mem_cons_self
              rcases List.mem_cons.mp again with rfl | mem
              · exact ⟨later, rfl⟩
              · have := (List.pairwise_cons.mp ascending).1 segment mem
                exact ⟨later, by rw [show next = segment by omega]⟩
          subst rest
          have stops : firstMissing (segment + 1) (segment :: later) = segment + 1 := by
            simp [firstMissing]
          rw [stops]
          refine ⟨⟨by omega, .inr ⟨by omega, ?_⟩⟩, ?_⟩
          · simp
          · rintro k ⟨le, blocked⟩
            by_contra lt
            obtain rfl : k = segment := by omega
            rcases blocked with absent | ⟨lt, _⟩
            · exact absent List.mem_cons_self
            · exact lt_irrefl _ lt
        · have above (k : ℕ) (mem : k ∈ listed) : segment + 1 ≤ k :=
            Nat.lt_of_le_of_ne (below k mem) fun e => again (e ▸ mem)
          obtain ⟨⟨le, blocked⟩, least⟩ := ih ascending above words
          refine ⟨⟨by omega, (blocked_cons again (by omega)).mpr blocked⟩, ?_⟩
          rintro k ⟨le, blocked⟩
          rcases Nat.lt_or_eq_of_le le with lt | rfl
          · exact least ⟨lt, (blocked_cons again lt).mp blocked⟩
          · rcases blocked with absent | ⟨lt, _⟩
            · exact absurd List.mem_cons_self absent
            · exact absurd lt (lt_irrefl _)

/-- The first segment from `first` on that the walk does not pass. -/
theorem isLeast_missing (ascending : listed.Pairwise (· ≤ ·))
    (words : ∀ k ∈ listed, k + 1 < UInt64.size) (first : ℕ) :
    IsLeast {k | first ≤ k ∧ Blocked listed first k}
      (firstMissing first (listed.filter (first ≤ ·))) := by
  have same : {k | first ≤ k ∧ Blocked listed first k} =
      {k | first ≤ k ∧ Blocked (listed.filter (first ≤ ·)) first k} :=
    Set.ext fun k => and_congr_right fun le => (blocked_filter le).symm
  rw [same]
  refine isLeast_firstMissing (ascending.filter _) (fun k hk => ?_) fun k hk => ?_
  · exact of_decide_eq_true (List.mem_filter.mp hk).2
  · exact words k (List.mem_filter.mp hk).1

variable {maxGaps : ℕ} {c : Counter} {log : Log} {v : Volume} {start : Pointer}

/-- The decision by cases, in the order they are looked into. -/
theorem decide_of_listed (lists : log.segments v = .ok listed) :
    decide maxGaps c log v (some start) = .ok (
      let missing := firstMissing start.segment (listed.filter (start.segment ≤ ·))
      if maxGaps < c.gapCount then .full (.tooManyGaps c.gapCount maxGaps)
      else if missing ≤ log.active.segment then .full (.segmentMissing missing)
      else .historical start) := by
  dsimp only
  unfold decide
  dsimp only
  split_ifs with gaps there
  · rfl
  · rw [lists]
    exact (if_pos there).trans rfl
  · rw [lists]
    exact (if_neg there).trans rfl

theorem pin_of_listed (lists : log.segments v = .ok listed) (there : k ∈ listed) :
    Log.pin k (v, log) = .ok () (Log.book (v, log) (log.ledger.pin k)) := by
  unfold Log.pin
  rw [run_bind_of_ok (LogM.read_of_ok (f := fun v log => log.segments v) lists),
    List.contains_iff_mem.mpr there]
  rfl

theorem pin_of_not_listed (lists : log.segments v = .ok listed) (absent : k ∉ listed) :
    Log.pin k (v, log) = .error (.segmentMissing k) (v, log) := by
  have unlisted : listed.contains k = false := by
    rw [← Bool.not_eq_true, List.contains_iff_mem]
    exact absent
  unfold Log.pin
  rw [run_bind_of_ok (LogM.read_of_ok (f := fun v log => log.segments v) lists), unlisted]
  rfl

/-- The decision on a start is exact, whatever is listed, as long as the last index of all is not,
after which the walk would begin anew. It fails only if nothing can be listed.
History is chosen if and only if the gaps are within the budget and nothing blocks the walk up to
the segment that is written; otherwise too many gaps are told, and only then the first segment that
blocks. Where no segment is listed twice, those are the segments that are not listed. History from a
start up to the segment that is written can be pinned. -/
theorem decide_exact (sorted : v.segments.Sorted) (lists : log.segments v = .ok listed)
    (words : ∀ k ∈ listed, k + 1 < UInt64.size) (maxGaps : ℕ) (c : Counter) (start : Pointer) :
    let missing := {k | start.segment ≤ k ∧ Blocked listed start.segment k}
    ∃ decision, decide maxGaps c log v (some start) = .ok decision ∧
      (decision = .historical start ↔
        c.gapCount ≤ maxGaps ∧ ∀ k ∈ missing, log.active.segment < k) ∧
      (decision = .full (.tooManyGaps c.gapCount maxGaps) ↔ maxGaps < c.gapCount) ∧
      (∀ k, decision = .full (.segmentMissing k) ↔
        c.gapCount ≤ maxGaps ∧ k ≤ log.active.segment ∧ IsLeast missing k) ∧
      (decision = .historical start ∨ decision = .full (.tooManyGaps c.gapCount maxGaps) ∨
        ∃ k, decision = .full (.segmentMissing k)) ∧
      (listed.Nodup → missing = {k | start.segment ≤ k ∧ k ∉ listed}) ∧
      (decision = .historical start → start.segment ≤ log.active.segment →
        start.segment ∈ listed ∧ Log.pin start.segment (v, log) =
          .ok () (Log.book (v, log) (log.ledger.pin start.segment))) := by
  intro missing
  have least : IsLeast missing _ :=
    isLeast_missing (Directory.list_ascending sorted lists) words start.segment
  have once (nodup : listed.Nodup) : missing = {k | start.segment ≤ k ∧ k ∉ listed} :=
    Set.ext fun k => and_congr_right fun _ => blocked_iff nodup
  have pinned (free : ∀ k ∈ missing, log.active.segment < k)
      (le : start.segment ≤ log.active.segment) : start.segment ∈ listed := by
    by_contra absent
    have := free start.segment ⟨le_rfl, .inl absent⟩
    omega
  refine ⟨_, decide_of_listed lists, ?_⟩
  generalize firstMissing start.segment (listed.filter (start.segment ≤ ·)) = first at least ⊢
  have free : (∀ k ∈ missing, log.active.segment < k) ↔ ¬first ≤ log.active.segment :=
    ⟨fun h => Nat.not_le.mpr (h first least.1),
      fun h k hk => (Nat.not_le.mp h).trans_le (least.2 hk)⟩
  dsimp only
  split_ifs with gaps there
  · have few : ¬c.gapCount ≤ maxGaps := Nat.not_le.mpr gaps
    refine ⟨?_, ?_, fun k => ?_, .inr (.inl rfl), once, ?_⟩
    · simp [few]
    · simp [gaps]
    · simp [few]
    · rintro ⟨⟩
  · have few : c.gapCount ≤ maxGaps := Nat.not_lt.mp gaps
    have named (k : ℕ) : first = k ↔ k ≤ log.active.segment ∧ IsLeast missing k :=
      ⟨fun e => e ▸ ⟨there, least⟩, fun h => least.unique h.2⟩
    refine ⟨?_, ?_, fun k => ?_, .inr (.inr ⟨first, rfl⟩), once, ?_⟩
    · simp [free, there]
    · simp [gaps]
    · simp [few, named]
    · rintro ⟨⟩
  · have few : c.gapCount ≤ maxGaps := Nat.not_lt.mp gaps
    refine ⟨?_, ?_, fun k => ?_, .inl rfl, once, fun _ le => ?_⟩
    · exact iff_of_true rfl ⟨few, free.mpr there⟩
    · simp [gaps]
    · refine iff_of_false (by rintro ⟨⟩) fun h => there ?_
      rw [least.unique h.2.2]
      exact h.2.1
    · have mem := pinned (free.mpr there) le
      exact ⟨mem, pin_of_listed lists mem⟩

/-- Segment 2 of five is gone. History from segment 1 is refused for it; from segment 3 on there is
history, and it can be pinned. -/
theorem decide_exact_hole :
    let v : Volume := { segments := [(0, 0), (1, 1), (3, 2), (4, 3)] }
    let log : Log := ⟨⟨.memory, none⟩, {}, .checked, ⟨4, ⟨3, .memory false, []⟩, 15⟩, {}⟩
    log.segments v = .ok [0, 1, 3, 4] ∧
      decide 0 {} log v (some ⟨1, 15, 0⟩) = .ok (.full (.segmentMissing 2)) ∧
      IsLeast {k | 1 ≤ k ∧ k ∉ [0, 1, 3, 4]} 2 ∧
      decide 0 {} log v (some ⟨3, 15, 0⟩) = .ok (.historical ⟨3, 15, 0⟩) ∧
      Log.pin 3 (v, log) = .ok () (Log.book (v, log) (log.ledger.pin 3)) := by
  intro v log
  have sorted : v.segments.Sorted := by simp [Table.Sorted, v]
  have lists : log.segments v = .ok [0, 1, 3, 4] := rfl
  have words : ∀ k ∈ [0, 1, 3, 4], k + 1 < UInt64.size := by decide
  obtain ⟨d, decided, -, -, missing, -, once, -⟩ := decide_exact sorted lists words 0 {} ⟨1, 15, 0⟩
  obtain ⟨d', decided', -, -, -, -, -, pinned⟩ := decide_exact sorted lists words 0 {} ⟨3, 15, 0⟩
  obtain rfl : Decision.full (.segmentMissing 2) = d := Except.ok.inj decided
  obtain rfl : Decision.historical ⟨3, 15, 0⟩ = d' := Except.ok.inj decided'
  have least := ((missing 2).mp rfl).2.2
  rw [once (by decide)] at least
  exact ⟨lists, decided, least, decided', (pinned rfl (by decide)).2⟩

/-- A log with one segment promises history from segment 5, which is not there and cannot be
pinned. -/
theorem decide_beyond :
    ∃ v log, Log.openIn ⟨.memory, none⟩ {} {} = .ok log v ∧
      log.segments v = .ok [0] ∧ log.active.segment = 0 ∧
      decide 0 {} log v (some ⟨5, 15, 0⟩) = .ok (.historical ⟨5, 15, 0⟩) ∧
      Log.pin 5 (v, log) = .error (.segmentMissing 5) (v, log) :=
  ⟨_, _, rfl, rfl, rfl, rfl, rfl⟩

end Rebalance

end SegmentLog
