import Mathlib.Order.Bounds.Basic
import SegmentLog.Proofs.Counter.Core
import SegmentLog.Proofs.Counter.Verdict
import SegmentLog.Proofs.Success

/-!
# Counters as sets of numbers

A counter that starts empty is, after any calls, the canonical form of one set of completed
numbers. The set is computed beside the counter: `Call.Admitted` says from the numbers complete so
far whether a call is to succeed, and `Call.outcome` what is complete when it has. Main statement:
`run_canonical`.

Calls are bounded as words are: what is handed out does not wrap, no restored gap has the last
number of all, and a counter with gaps is not moved to it.
-/
namespace SegmentLog.Counter

/-- A run of `C` that no neighbouring number prolongs. -/
structure MaximalRun (C : Set ℕ) (r : Run) : Prop where
  full : r.start < r.stop
  within : Set.Ico r.start r.stop ⊆ C
  before : ∀ n, n + 1 = r.start → n ∉ C
  after : r.stop ∉ C

/-- The counter is what the set `C` of completed numbers makes it, `reserved` apart. -/
structure Canonical (c : Counter) (C : Set ℕ) : Prop where
  positive : ∀ n ∈ C, 1 ≤ n
  applied : IsGreatest {N | Set.Icc 1 N ⊆ C} c.applied
  mem_gaps : ∀ r, r ∈ c.gaps ↔ c.applied < r.start ∧ MaximalRun C r
  ascending : c.gaps.Pairwise (·.stop < ·.start)
  apart : ∀ r ∈ c.gaps, c.applied + 1 < r.start
  reserved : ∀ n ∈ C, n ≤ c.reserved
  isCompleted : ∀ n, c.isCompleted n = true ↔ n ∈ C

theorem Ordered.applied_succ_notMem {c : Counter} (h : c.Ordered) :
    c.applied + 1 ∉ c.completed := by
  intro hn
  rcases (mem_completed.mp hn).2 with hle | hc
  · omega
  · obtain ⟨r, hr, hle, -⟩ := Runs.contains_iff.mp hc
    have := h.above r hr
    omega

theorem icc_subset_completed {c : Counter} : Set.Icc 1 c.applied ⊆ c.completed := by
  intro n hn
  exact mem_completed.mpr ⟨Nat.one_le_iff_ne_zero.mp hn.1, Or.inl hn.2⟩

/-- A number that two gaps leave out is in neither of them. -/
theorem notMem_of_separated {rs : Runs} (h : rs.Separated) {r : Run} (hr : r ∈ rs) :
    rs.contains r.stop = false ∧ ∀ n, n + 1 = r.start → rs.contains n = false := by
  have far : ∀ s ∈ rs, s ≠ r → s.stop < r.start ∨ r.stop < s.start := by
    intro s hs hne
    by_contra hc
    rcases List.mem_iff_getElem.mp hr with ⟨i, hi, rfl⟩
    rcases List.mem_iff_getElem.mp hs with ⟨j, hj, rfl⟩
    have order := List.pairwise_iff_getElem.mp h.2
    rcases Nat.lt_trichotomy i j with hij | rfl | hij
    · exact hc (Or.inr (order i j hi hj hij))
    · exact hne rfl
    · exact hc (Or.inl (order j i hj hi hij))
  have full := h.1 r hr
  refine ⟨?_, fun n hn => ?_⟩ <;>
  · rw [← Bool.not_eq_true, Runs.contains_iff]
    rintro ⟨s, hs, hle, hlt⟩
    by_cases e : s = r
    · subst e
      omega
    · rcases far s hs e with hf | hf <;> omega

theorem Sound.gap_maximal {c : Counter} (h : c.Sound) {r : Run} (hr : r ∈ c.gaps) :
    MaximalRun c.completed r := by
  have above := h.above r hr
  have full := h.separated.1 r hr
  obtain ⟨after, before⟩ := notMem_of_separated h.separated hr
  refine ⟨full, ?_, ?_, ?_⟩
  · intro n hn
    simp only [Set.mem_Ico] at hn
    exact mem_completed.mpr ⟨by omega, Or.inr (Runs.contains_iff.mpr ⟨r, hr, hn⟩)⟩
  · intro n hn
    rw [mem_completed, before n hn]
    simp only [Bool.false_eq_true, or_false]
    omega
  · rw [mem_completed, after]
    simp only [Bool.false_eq_true, or_false]
    omega

/-- Two maximal runs with a number in common are one. -/
theorem MaximalRun.eq_of_mem {C : Set ℕ} {r s : Run} (hr : MaximalRun C r) (hs : MaximalRun C s)
    {n : ℕ} (hnr : n ∈ Set.Ico r.start r.stop) (hns : n ∈ Set.Ico s.start s.stop) : r = s := by
  have side {r s : Run} (hr : MaximalRun C r) (hs : MaximalRun C s)
      (hnr : n ∈ Set.Ico r.start r.stop) (hns : n ∈ Set.Ico s.start s.stop) :
      s.start ≤ r.start ∧ r.stop ≤ s.stop := by
    simp only [Set.mem_Ico] at hnr hns
    constructor
    · by_contra hc
      exact hs.before (s.start - 1) (by omega) (hr.within ⟨by omega, by omega⟩)
    · by_contra hc
      exact hs.after (hr.within ⟨by omega, by omega⟩)
  obtain ⟨h₁, h₂⟩ := side hr hs hnr hns
  obtain ⟨h₃, h₄⟩ := side hs hr hns hnr
  cases r
  cases s
  simp only [Run.mk.injEq]
  dsimp only at h₁ h₂ h₃ h₄
  omega

/-- A counter is the canonical form of its own completed numbers. -/
theorem Sound.canonical {c : Counter} (h : c.Sound) : c.Canonical c.completed where
  positive n hn := Nat.pos_of_ne_zero (mem_completed.mp hn).1
  applied := by
    refine ⟨icc_subset_completed, ?_⟩
    intro N hN
    by_contra hc
    exact h.ordered.applied_succ_notMem (hN ⟨by omega, by omega⟩)
  mem_gaps r := by
    constructor
    · intro hr
      have := h.above r hr
      exact ⟨by omega, h.gap_maximal hr⟩
    · rintro ⟨above, maximal⟩
      have first := maximal.within ⟨le_rfl, maximal.full⟩
      rcases (mem_completed.mp first).2 with hle | hc
      · omega
      · obtain ⟨s, hs, hmem⟩ := Runs.contains_iff.mp hc
        have := maximal.eq_of_mem (h.gap_maximal hs) ⟨le_rfl, maximal.full⟩ hmem
        exact this ▸ hs
  ascending := h.separated.2
  apart := h.above
  reserved _ := h.le_reserved
  isCompleted _ := Iff.rfl

/-- The canonical form of a set is one. -/
theorem Canonical.unique {c c' : Counter} {C : Set ℕ} (h : c.Canonical C) (h' : c'.Canonical C) :
    c.applied = c'.applied ∧ c.gaps = c'.gaps := by
  have applied : c.applied = c'.applied := h.applied.unique h'.applied
  have full {c : Counter} (h : c.Canonical C) : ∀ r ∈ c.gaps, r.start < r.stop :=
    fun r hr => ((h.mem_gaps r).mp hr).2.full
  have nodup {c : Counter} (h : c.Canonical C) : c.gaps.Nodup := by
    rw [List.nodup_iff_pairwise_ne]
    refine h.ascending.imp_of_mem fun {r s} hr _ lt same => ?_
    have := full h r hr
    subst same
    omega
  refine ⟨applied, List.Perm.eq_of_pairwise ?_ h.ascending h'.ascending ?_⟩
  · intro r s hr hs lt gt
    have := full h r hr
    have := full h' s hs
    omega
  · apply (List.perm_ext_iff_of_nodup (nodup h) (nodup h')).mpr
    intro r
    rw [h.mem_gaps, h'.mem_gaps, applied]

/-! ## Runs of calls -/

/-- The calls that change a counter. -/
inductive Call
  | reserve (len : ℕ)
  | complete (start len : ℕ)
  | next (len : ℕ)
  | restore (s : Snapshot)
  | moveTo (value : ℕ)
  | finalize
  | reset
deriving DecidableEq, Repr

namespace Call

/-- The counter after a call; one that fails leaves what it is said to leave. -/
def perform (c : Counter) : Call → Counter
  | reserve len => (c.reserve len).2
  | complete start len => (c.complete start len).toOption.elim c (·.1)
  | next len => (c.next len).2.1
  | restore s => (c.restore s).toOption.getD c
  | moveTo value => (c.moveTo value).toOption.elim c (·.1)
  | finalize => c.finalize.2.1
  | reset => c.reset

def succeeds (c : Counter) : Call → Bool
  | complete start len => (c.complete start len).isOk
  | next len => (c.next len).1.isOk
  | restore s => (c.restore s).isOk
  | moveTo value => (c.moveTo value).isOk
  | reserve _ | finalize | reset => true

/-- What a call has to meet to succeed where the numbers in `C` are complete. -/
def Admitted (c : Counter) (C : Set ℕ) : Call → Prop
  | complete start len => (c.verdict C start len).accepts
  | next len => (c.verdict C ((c.reserved + 1) % limit) len).accepts
  | restore s => s.InOrder
  | moveTo value => c.applied ≤ value
  | reserve _ | finalize | reset => True

/-- What is complete after a call that succeeds. -/
def outcome (c : Counter) (C : Set ℕ) : Call → Set ℕ
  | reserve _ => C
  | complete start len => C ∪ Set.Ico start (start + len)
  | next len => C ∪ Set.Ico ((c.reserved + 1) % limit) ((c.reserved + 1) % limit + len)
  | restore s => s.covered
  | moveTo value => C ∪ Set.Icc 1 value
  | finalize => {n | 1 ≤ n ∧ ∃ m ∈ C, n ≤ m}
  | reset => ∅

open Classical in
/-- What is complete after a call. One that fails completes nothing. -/
noncomputable def effect (c : Counter) (C : Set ℕ) (call : Call) : Set ℕ :=
  if call.Admitted c C then call.outcome c C else C

/-- No number that the call takes over or compares with is beyond the words. -/
def InWords (c : Counter) : Call → Prop
  | restore s => s.Bounded
  | moveTo value => c.HasNext value
  | reserve _ | complete .. | next _ | finalize | reset => True

instance (c : Counter) : (call : Call) → Decidable (call.InWords c)
  | restore s => inferInstanceAs (Decidable s.Bounded)
  | moveTo value => inferInstanceAs (Decidable (c.HasNext value))
  | reserve _ | complete .. | next _ | finalize | reset => inferInstanceAs (Decidable True)

end Call

/-- What is handed out with the call does not wrap. -/
def Unwrapped (c : Counter) : Call → Prop
  | .reserve len | .next len => c.reserved + len < limit
  | .complete .. | .restore _ | .moveTo _ | .finalize | .reset => True

instance (c : Counter) : (call : Call) → Decidable (c.Unwrapped call)
  | .reserve _ | .next _ => inferInstanceAs (Decidable (_ < _))
  | .complete .. | .restore _ | .moveTo _ | .finalize | .reset => inferInstanceAs (Decidable True)

variable {c : Counter}

/-- The numbers are handed out whether or not they can be completed. -/
theorem next_eq (c : Counter) (len : ℕ) :
    (c.next len).1 = (((c.reserve len).2.complete (c.reserve len).1 len).map
        fun _ => (c.reserve len).1) ∧
      (c.next len).2.1 = Call.perform (c.reserve len).2 (.complete (c.reserve len).1 len) := by
  simp only [next, Call.perform]
  cases (c.reserve len).2.complete (c.reserve len).1 len with
  | error fault => exact ⟨rfl, rfl⟩
  | ok result => exact ⟨rfl, rfl⟩

theorem isOk_restore (c : Counter) (s : Snapshot) :
    (c.restore s).isOk = true ↔ s.InOrder := by
  rw [Snapshot.InOrder, ← Snapshot.validateGaps_eq_ok]
  unfold restore Snapshot.validate
  cases Snapshot.validateGaps s.applied s.gaps with
  | error fault => simp [Except.isOk, Except.toBool, bind, Except.bind]
  | ok valid => simp [Except.isOk, Except.toBool, bind, Except.bind, pure, Except.pure]

theorem isOk_moveTo (c : Counter) (value : ℕ) :
    (c.moveTo value).isOk = true ↔ c.applied ≤ value := by
  unfold moveTo
  split_ifs with backwards here
  · simpa [Except.isOk, Except.toBool] using backwards
  · simpa [Except.isOk, Except.toBool] using here.ge
  · simpa [Except.isOk, Except.toBool] using backwards

/-- A counter goes by what is complete when it lets a call succeed. -/
theorem Ordered.succeeds_iff (h : c.Ordered) (call : Call) :
    call.succeeds c = true ↔ call.Admitted c c.completed := by
  cases call with
  | complete start len =>
      rw [Call.succeeds, Call.Admitted, ← h.verdict_complete, Verdict.accepts_of]
  | next len =>
      have reserved : (c.reserve len).2.Ordered := ⟨h.separated, h.above⟩
      have decided := reserved.verdict_complete (c.reserve len).1 len
      rw [Call.succeeds, (c.next_eq len).1, isOk_map, ← Verdict.accepts_of, decided]
      rfl
  | restore s => exact isOk_restore c s
  | moveTo value => exact isOk_moveTo c value
  | reserve _ | finalize | reset => exact iff_of_true rfl trivial

theorem Ordered.effect_of_succeeds (h : c.Ordered) {call : Call} (ok : call.succeeds c = true) :
    call.effect c c.completed = call.outcome c c.completed :=
  if_pos ((h.succeeds_iff call).mp ok)

theorem Ordered.effect_of_fails (h : c.Ordered) {call : Call} (fails : call.succeeds c = false) :
    call.effect c c.completed = c.completed :=
  if_neg fun admitted => by
    rw [← h.succeeds_iff, fails] at admitted
    cases admitted

/-! ## What each call leaves -/

theorem Call.perform_of_fails {call : Call} (fails : call.succeeds c = false) :
    (call.perform c).gaps = c.gaps ∧ (call.perform c).applied = c.applied := by
  cases call with
  | complete start len =>
      obtain ⟨fault, answer⟩ := exists_of_not_isOk fails
      rw [perform, answer]
      exact ⟨rfl, rfl⟩
  | next len =>
      obtain ⟨answer, left⟩ := c.next_eq len
      rw [succeeds, answer, isOk_map] at fails
      obtain ⟨fault, refused⟩ := exists_of_not_isOk fails
      rw [perform, left, perform, refused]
      exact ⟨rfl, rfl⟩
  | restore s =>
      obtain ⟨fault, answer⟩ := exists_of_not_isOk fails
      rw [perform, answer]
      exact ⟨rfl, rfl⟩
  | moveTo value =>
      obtain ⟨fault, answer⟩ := exists_of_not_isOk fails
      rw [perform, answer]
      exact ⟨rfl, rfl⟩
  | reserve _ | finalize | reset => cases fails

theorem Ordered.perform_of_succeeds (h : c.Ordered) {call : Call} (words : call.InWords c)
    (ok : call.succeeds c = true) :
    (call.perform c).Ordered ∧ (call.perform c).completed = call.outcome c c.completed := by
  cases call with
  | reserve len => exact ⟨⟨h.separated, h.above⟩, rfl⟩
  | complete start len =>
      obtain ⟨result, answer⟩ := exists_of_isOk ok
      rw [Call.perform, answer]
      exact h.complete_spec answer
  | next len =>
      have reserved : (c.reserve len).2.Ordered := ⟨h.separated, h.above⟩
      obtain ⟨answer, left⟩ := c.next_eq len
      rw [Call.succeeds, answer, isOk_map] at ok
      obtain ⟨result, completes⟩ := exists_of_isOk ok
      rw [Call.perform, left, Call.perform, completes]
      exact reserved.complete_spec completes
  | restore s =>
      obtain ⟨result, answer⟩ := exists_of_isOk ok
      rw [Call.perform, answer]
      obtain ⟨sound, completed, -⟩ := restore_spec answer
      exact ⟨sound.ordered, completed⟩
  | moveTo value =>
      obtain ⟨result, answer⟩ := exists_of_isOk ok
      rw [Call.perform, answer]
      exact h.moveTo_spec words answer
  | finalize => exact h.finalize_spec
  | reset =>
      refine ⟨(sound_empty c.config).ordered, ?_⟩
      ext n
      simp [Call.perform, Call.outcome, Counter.reset, mem_completed]

/-- No call takes the gaps out of order, and each completes what it is said to. -/
theorem Ordered.perform (h : c.Ordered) {call : Call} (words : call.InWords c) :
    (call.perform c).Ordered ∧ (call.perform c).completed = call.effect c c.completed := by
  cases ok : call.succeeds c with
  | true =>
      rw [h.effect_of_succeeds ok]
      exact h.perform_of_succeeds words ok
  | false =>
      obtain ⟨gaps, applied⟩ := Call.perform_of_fails ok
      rw [h.effect_of_fails ok]
      refine ⟨⟨gaps ▸ h.separated, gaps ▸ applied ▸ h.above⟩, ?_⟩
      ext n
      rw [mem_completed, mem_completed, gaps, applied]

/-- While nothing wraps, all that is complete stays at or below the highest number handed out. -/
theorem Sound.perform (h : c.Sound) {call : Call} (words : call.InWords c)
    (fine : c.Unwrapped call) : (call.perform c).Sound := by
  cases call with
  | reserve len => exact (reserve_spec h fine).1
  | complete start len =>
      simp only [Call.perform]
      cases ok : c.complete start len with
      | error fault => exact h
      | ok result => exact (complete_spec h ok).1
  | next len => exact (next_spec h fine).1
  | restore s =>
      simp only [Call.perform]
      cases ok : c.restore s with
      | error fault => exact h
      | ok c' => exact (restore_spec ok).1
  | moveTo value =>
      simp only [Call.perform]
      cases ok : c.moveTo value with
      | error fault => exact h
      | ok result => exact (moveTo_spec h words ok).1
  | finalize => exact (finalize_spec h).1
  | reset => exact sound_empty _

/-- No number of the call is beyond the words. -/
def Call.Fits (c : Counter) (call : Call) : Prop := call.InWords c ∧ c.Unwrapped call

instance Call.decidableFits (c : Counter) (call : Call) : Decidable (call.Fits c) :=
  inferInstanceAs (Decidable (_ ∧ _))

/-! ## Runs -/

/-- A counter and its completed numbers after some calls. -/
noncomputable def run : List Call → Counter × Set ℕ → Counter × Set ℕ
  | [], state => state
  | call :: calls, (c, C) => run calls (call.perform c, call.effect c C)

/-- Each of the calls fits when its turn comes. -/
def Fits : List Call → Counter → Prop
  | [], _ => True
  | call :: calls, c => call.Fits c ∧ Fits calls (call.perform c)

instance : (calls : List Call) → (c : Counter) → Decidable (Fits calls c)
  | [], _ => inferInstanceAs (Decidable True)
  | call :: calls, c =>
    have := instDecidableFits calls (call.perform c)
    inferInstanceAs (Decidable (call.Fits c ∧ Fits calls (call.perform c)))

theorem run_sound {calls : List Call} (h : c.Sound) (fits : Fits calls c) :
    (run calls (c, c.completed)).1.Sound ∧
      (run calls (c, c.completed)).1.completed = (run calls (c, c.completed)).2 := by
  induction calls generalizing c with
  | nil => exact ⟨h, rfl⟩
  | cons call calls ih =>
      have completed := (h.ordered.perform fits.1.1).2
      simp only [run, ← completed]
      exact ih (h.perform fits.1.1 fits.1.2) fits.2

/-- After any calls a counter is the canonical form of the numbers that the calls completed, and it
goes by these numbers when it lets a call succeed. -/
theorem run_canonical (config : Config) (calls : List Call) (fits : Fits calls { config }) :
    let (c, C) := run calls ({ config }, ∅)
    c.Canonical C ∧ ∀ call : Call, call.succeeds c = true ↔ call.Admitted c C := by
  have none_completed : (∅ : Set ℕ) = Counter.completed { config } := by
    ext n
    simp [mem_completed]
  obtain ⟨sound, completed⟩ := run_sound (sound_empty config) fits
  rw [none_completed]
  simp only [← completed]
  exact ⟨sound.canonical, sound.ordered.succeeds_iff⟩

/-- Two blocks complete out of order, the second call of `next` finds a hole below its block, and
a snapshot whose gaps touch replaces everything. Moves back to 4 and completions that overlap a gap
or straddle `applied` are refused. -/
theorem run_canonical_out_of_order :
    let calls := [.reserve 6, .complete 5 2, .complete 6 2, .complete 1 2, .next 3, .moveTo 3,
      .finalize, .moveTo 4, .reset, .next 1, .restore ⟨3, [⟨4, 1⟩, ⟨8, 2⟩, ⟨10, 1⟩]⟩, .complete 6 1,
      .complete 4 2]
    let c : Counter := { applied := 4, gaps := [⟨6, 7⟩, ⟨8, 11⟩], reserved := 10, initial := 4 }
    let C := Set.Icc 1 4 ∪ Set.Ico 6 7 ∪ Set.Ico 8 11
    Fits calls {} ∧ run calls ({}, ∅) = (c, C) ∧ c.Canonical C ∧
      ∀ call : Call, call.succeeds c = true ↔ call.Admitted c C := by
  intro calls c C
  have fits : Fits calls {} := by decide
  have counter : (run calls ({}, ∅)).1 = c := by decide
  have canonical := run_canonical {} calls fits
  dsimp only at canonical
  rw [counter] at canonical
  have numbers : (run calls ({}, ∅)).2 = C := by
    ext n
    rw [← canonical.1.isCompleted n]
    simp only [isCompleted, c, C]
    simp [Runs.contains, Run.contains]
    omega
  rw [numbers] at canonical
  exact ⟨fits, Prod.ext counter numbers, canonical⟩

end SegmentLog.Counter
