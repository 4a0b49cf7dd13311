import Mathlib.Data.List.TakeWhile
import SegmentLog.Proofs.Session.Drain

/-!
# Sessions that stop at a pointer

A session with a pointer to stop at gives what the same session gives without it, as long as that
stands in front of the pointer, and then it is done (`drain_stoppingAt`). The pointer need not be
that of a record. It also bounds the segments that the session covers: those up to its own segment,
so the last one of them may not be the newest (`coverage_inReach`).
-/
namespace SegmentLog.Session

/-- The same session with another pointer to stop at. -/
def stoppingAt (s : Session) (stop : Option Pointer) : Session := { s with stop }

/-- The record stands in front of the pointer to stop at, if there is one. -/
def InFront (stop : Option Pointer) (item : Pointer × Record) : Prop :=
  ∀ e ∈ stop, item.1.address < e.address

instance (stop : Option Pointer) : DecidablePred (InFront stop) := fun _ =>
  inferInstanceAs (Decidable (∀ _ ∈ stop, _))

/-- The segment is not behind the pointer to stop at, if there is one. -/
def InReach (stop : Option Pointer) (segment : ℕ) : Prop := ∀ e ∈ stop, segment ≤ e.segment

instance (stop : Option Pointer) : DecidablePred (InReach stop) := fun _ =>
  inferInstanceAs (Decidable (∀ _ ∈ stop, _))

/-! ## One record -/

variable {v : Volume} {s s' : Session} {reader : Reader} {ahead : List ℕ} {p : Pointer}
  {record : Record}

theorem any_compare_iff (stop : Option Pointer) (p : Pointer) (record : Record) :
    (stop.any fun e => p.compare e ≠ .lt) = true ↔ ¬InFront stop (p, record) := by
  cases stop with
  | none => simp [InFront]
  | some e => simp [InFront, Pointer.compare_eq_lt]

/-- What becomes of an answer of a session if it is to stop at a pointer. -/
def curtail (stop : Option Pointer) (s : Session) :
    Except Ending (Pointer × Record) × Session → Except Ending (Pointer × Record) × Session
  | (.ok item, s') =>
    if InFront stop item then (.ok item, s'.stoppingAt stop)
    else (.error .finish, (s.stoppingAt stop).close)
  | (.error ending, s') => (.error ending, s'.stoppingAt stop)

theorem give_stoppingAt (endless : s.stop = none) (stop : Option Pointer) :
    (s.stoppingAt stop).give reader ahead p record =
      curtail stop s (s.give reader ahead p record) := by
  have given : s.give reader ahead p record =
      (.ok (p, record), { s with reader := some reader, ahead, last := some p }) := by
    simp only [give, endless, Option.any_none, Bool.false_eq_true, if_false]
  rw [given, curtail, give, stoppingAt]
  by_cases front : InFront stop (p, record)
  · rw [if_pos front, if_neg (by rwa [any_compare_iff, not_not])]
    rfl
  · rw [if_neg front, if_pos (by rwa [any_compare_iff])]

theorem readOn_stoppingAt (endless : s.stop = none) (stop : Option Pointer) :
    (s.stoppingAt stop).readOn v reader ahead = curtail stop s (s.readOn v reader ahead) := by
  induction ahead generalizing reader with
  | nil =>
      unfold readOn
      split
      · rfl
      · exact give_stoppingAt endless stop
      · rfl
      · rfl
  | cons segment ahead ih =>
      unfold readOn
      split
      · rfl
      · exact give_stoppingAt endless stop
      · rfl
      · dsimp only [stoppingAt]
        cases s.directory.openReader v s.bufferSize segment 0 with
        | error error => rfl
        | ok next => exact ih

theorem next_stoppingAt (endless : s.stop = none) (stop : Option Pointer) :
    (s.stoppingAt stop).next v = curtail stop s (s.next v) := by
  have same : (s.stoppingAt stop).reader = s.reader := rfl
  rw [next, next, same]
  cases s.reader with
  | none => rfl
  | some reader => exact readOn_stoppingAt endless stop

/-! ## All records -/

theorem drain_stoppingAt (endless : s.stop = none) (stop : Option Pointer) :
    ((s.stoppingAt stop).drain v).items = (s.drain v).items.takeWhile (InFront stop) ∧
      ((s.stoppingAt stop).drain v).ending =
        if ∀ item ∈ (s.drain v).items, InFront stop item then (s.drain v).ending
        else some .finish := by
  fun_induction drain v s with
  | case1 s item s' given ih =>
      have next := next_stoppingAt (v := v) endless stop
      have after : s'.stop = s.stop := by
        obtain ⟨r, r', more, -, rfl⟩ := next_eq_ok given
        rfl
      obtain ⟨items, ending⟩ := ih (after.trans endless)
      rw [given, curtail] at next
      by_cases front : InFront stop item
      · rw [if_pos front] at next
        simp only [drain_of_next_ok next, Reading.cons, items, ending, List.forall_mem_cons, front,
          List.takeWhile_cons, decide_true, if_true, true_and, and_self]
      · rw [if_neg front] at next
        rw [drain_of_next_error next, Reading.cons]
        simp [front]
  | case2 s ending s' given =>
      have next := next_stoppingAt (v := v) endless stop
      rw [given, curtail] at next
      rw [drain_of_next_error next]
      simp

/-- Asking once more than there are bytes is enough to come to the end. -/
theorem take_remaining (v : Volume) (s : Session) : s.take v (s.remaining v + 1) = s.drain v := by
  have enough (count : ℕ) (s : Session) (lt : s.remaining v < count) :
      s.take v count = s.drain v := by
    induction count generalizing s with
    | zero => exact absurd lt (Nat.not_lt_zero _)
    | succ count ih =>
        unfold take
        split
        · rename_i item s' given
          have less := remaining_lt_of_next given
          rw [drain_of_next_ok given, ih s' (by omega)]
        · rename_i ending s' given
          rw [drain_of_next_error given]
  exact enough _ s (Nat.lt_succ_self _)

/-! ## The segments up to the pointer -/

theorem coverage_inReach (stop : Option Pointer) (expected : ℕ) (listed : List ℕ) :
    coverage stop expected listed = coverage none expected (listed.takeWhile (InReach stop)) := by
  induction listed generalizing expected with
  | nil => rfl
  | cons segment listed ih =>
      have beyond : (stop.any fun e => e.segment < segment) = true ↔ ¬InReach stop segment := by
        cases stop with
        | none => simp [InReach]
        | some e => simp [InReach]
      rw [coverage]
      by_cases reach : InReach stop segment
      · rw [if_neg (by rwa [beyond, not_not]), List.takeWhile_cons, if_pos (decide_eq_true reach),
          coverage, ih]
        rfl
      · rw [if_pos (by rwa [beyond]), List.takeWhile_cons, if_neg (by rwa [decide_eq_true_eq])]
        rfl

/-- The first segment is read even if the pointer is in front of it. What is read behind it are the
segments that follow it up to the pointer. -/
theorem tail_takeWhile_inReach (stop : Option Pointer) {first : ℕ} {newer : List ℕ}
    (ascending : (first :: newer).Pairwise (· < ·)) :
    ((first :: newer).takeWhile (InReach stop)).tail = newer.takeWhile (InReach stop) := by
  rw [List.takeWhile_cons]
  by_cases reach : InReach stop first
  · rw [if_pos (decide_eq_true reach), List.tail_cons]
  · rw [if_neg (by rwa [decide_eq_true_eq]), List.tail_nil]
    cases newer with
    | nil => rfl
    | cons segment newer =>
        have lt := (List.pairwise_cons.mp ascending).1 segment List.mem_cons_self
        have : ¬InReach stop segment :=
          fun there => reach fun e he => Nat.le_trans (Nat.le_of_lt lt) (there e he)
        rw [List.takeWhile_cons, if_neg (by rwa [decide_eq_true_eq])]

theorem coverage_eq_ok (stop : Option Pointer) {first : ℕ} {newer segments : List ℕ}
    (ascending : (first :: newer).Pairwise (· < ·)) :
    coverage stop first (first :: newer) = .ok segments ↔
      newer.takeWhile (InReach stop) =
          List.range' (first + 1) (newer.takeWhile (InReach stop)).length ∧
        segments = (first :: newer).takeWhile (InReach stop) := by
  rw [coverage_inReach, coverage_none_eq_ok, ← tail_takeWhile_inReach stop ascending,
    List.takeWhile_cons]
  by_cases reach : InReach stop first
  · rw [if_pos (decide_eq_true reach), List.length_cons, List.range'_succ, List.cons.injEq,
      List.tail_cons, and_iff_right rfl]
  · rw [if_neg (by rwa [decide_eq_true_eq])]
    simp

end SegmentLog.Session
