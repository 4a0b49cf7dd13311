import SegmentLog.Proofs.Counter.Snapshot

/-!
# What becomes of a completion

The answer to a completion follows from the numbers that are complete, from `applied` and from
how many gaps there are: `verdict` says how, without the gaps themselves, and
`Ordered.verdict_complete` that `complete` goes by it.
-/
namespace SegmentLog.Counter

/-- What a completion can come to. -/
inductive Verdict
  | protocolError
  /-- All of it was at or below `applied`. -/
  | covered
  | tooManyGaps
  | recorded
deriving DecidableEq, Repr

namespace Verdict

/-- The completion succeeds. -/
def accepts : Verdict → Bool
  | covered | recorded => true
  | protocolError | tooManyGaps => false

/-- The verdict that an answer gives. -/
def of : Except CounterFault (Counter × Option Event) → Verdict
  | .ok (_, none) => covered
  | .ok (_, some _) => recorded
  | .error (.tooManyGaps ..) => tooManyGaps
  | .error _ => protocolError

theorem accepts_of (answer : Except CounterFault (Counter × Option Event)) :
    (of answer).accepts = answer.isOk := by
  cases answer with
  | error fault => cases fault <;> rfl
  | ok result =>
      obtain ⟨c, event⟩ := result
      cases event <;> rfl

end Verdict

open Classical in
/-- The verdict on `len` numbers from `start` on where the numbers in `C` are complete. -/
noncomputable def verdict (c : Counter) (C : Set ℕ) (start len : ℕ) : Verdict :=
  if len = 0 ∨ start = 0 ∨ limit ≤ start + len then .protocolError
  else if ∀ n ∈ Set.Ico start (start + len), n ≤ c.applied then .covered
  else if ∃ n ∈ Set.Ico start (start + len), n ∈ C then .protocolError
  else if start - 1 ∉ C ∧ start + len ∉ C ∧ start ≠ c.applied + 1 ∧ c.config.maxGaps ≤ c.gapCount
    then .tooManyGaps
  else .recorded

variable {c : Counter} {C : Set ℕ} {start len : ℕ}

/-! ## The tests that look at the gaps -/

/-- Above `applied` only the gaps can have a number of the block. -/
theorem Ordered.apart_iff (h : c.Ordered) (above : c.applied < start) (full : 0 < len) :
    c.gaps.filter (Run.overlaps ⟨start, start + len⟩) = [] ↔
      ¬∃ n ∈ Set.Ico start (start + len), n ∈ c.completed := by
  rw [List.filter_eq_nil_iff]
  constructor
  · rintro apart ⟨n, hn, complete⟩
    simp only [Set.mem_Ico] at hn
    rcases (mem_completed.mp complete).2 with le | inside
    · omega
    · obtain ⟨r, hr, le, lt⟩ := Runs.contains_iff.mp inside
      apply apart r hr
      simp only [Run.overlaps, decide_eq_true_eq]
      omega
  · intro fresh r hr overlap
    have nonempty := h.separated.1 r hr
    simp only [Run.overlaps, decide_eq_true_eq] at overlap
    refine fresh ⟨max start r.start, ⟨by omega, by omega⟩, h.mem_completed_of_gap hr ⟨?_, ?_⟩⟩ <;>
      omega

/-- A new block touches a gap exactly if the number before it or after it is complete. -/
theorem Ordered.touches_iff (h : c.Ordered) (above : c.applied + 1 < start) (full : 0 < len)
    (fresh : ¬∃ n ∈ Set.Ico start (start + len), n ∈ c.completed) :
    c.gaps.any (Run.touches ⟨start, start + len⟩) = true ↔
      start - 1 ∈ c.completed ∨ start + len ∈ c.completed := by
  simp only [List.any_eq_true, Run.touches, Bool.decide_or, Bool.or_eq_true, decide_eq_true_eq]
  constructor
  · rintro ⟨r, hr, after | before⟩
    · have nonempty := h.separated.1 r hr
      exact Or.inr (h.mem_completed_of_gap hr ⟨by omega, by omega⟩)
    · have nonempty := h.separated.1 r hr
      exact Or.inl (h.mem_completed_of_gap hr ⟨by omega, by omega⟩)
  · intro known
    -- a gap with a number next to the block ends there, since it has none of the block's
    have gap {n : ℕ} (hn : n ∈ c.completed) (higher : c.applied < n) :
        ∃ r ∈ c.gaps, r.start ≤ n ∧ n < r.stop ∧ (r.stop ≤ start ∨ start + len ≤ r.start) := by
      obtain ⟨r, hr, le, lt⟩ :=
        Runs.contains_iff.mp ((mem_completed.mp hn).2.resolve_left (by omega))
      refine ⟨r, hr, le, lt, ?_⟩
      by_contra meets
      apply fresh
      exact ⟨max start r.start, ⟨by omega, by omega⟩,
        h.mem_completed_of_gap hr ⟨by omega, by omega⟩⟩
    rcases known with known | known
    · obtain ⟨r, hr, le, lt, apart⟩ := gap known (by omega)
      exact ⟨r, hr, by omega⟩
    · obtain ⟨r, hr, le, lt, apart⟩ := gap known (by omega)
      exact ⟨r, hr, by omega⟩

open Classical in
/-- The answer to a block of which no number is complete. -/
theorem Ordered.of_keepGap (h : c.Ordered) (above : c.applied + 1 < start) (full : 0 < len)
    (fresh : ¬∃ n ∈ Set.Ico start (start + len), n ∈ c.completed) :
    Verdict.of ((c.keepGap ⟨start, start + len⟩).map fun (c, event) => (c, some event)) =
      if start - 1 ∉ c.completed ∧ start + len ∉ c.completed ∧ start ≠ c.applied + 1 ∧
        c.config.maxGaps ≤ c.gapCount then .tooManyGaps else .recorded := by
  unfold keepGap
  have touches := h.touches_iff above full fresh
  by_cases room : c.gaps.any (Run.touches ⟨start, start + len⟩) = true ∨
      c.gapCount < c.config.maxGaps
  · rw [if_pos room, if_neg]
    · rfl
    · rintro ⟨before, after, -, many⟩
      rw [touches] at room
      rcases room with (known | known) | few
      · exact before known
      · exact after known
      · omega
  · rw [if_neg room, if_pos]
    · rfl
    · simp only [touches, not_or] at room
      exact ⟨room.1.1, room.1.2, by omega, by omega⟩

/-- The tests of `complete` come to the verdict. -/
theorem Ordered.verdict_complete (h : c.Ordered) (start len : ℕ) :
    Verdict.of (c.complete start len) = c.verdict c.completed start len := by
  unfold verdict complete
  dsimp only
  by_cases malformed : len = 0 ∨ start = 0 ∨ limit ≤ start + len
  · rw [if_pos malformed]
    split_ifs <;> first | rfl | omega
  obtain ⟨full, positive, small⟩ : len ≠ 0 ∧ start ≠ 0 ∧ ¬limit ≤ start + len := by
    simpa only [not_or] using malformed
  rw [if_neg full, if_neg positive, if_neg small, if_neg malformed]
  have known : (∀ n ∈ Set.Ico start (start + len), n ≤ c.applied) ↔
      start + len ≤ c.applied + 1 := by
    constructor
    · intro all
      have := all (start + len - 1) ⟨by omega, by omega⟩
      omega
    · rintro le n ⟨-, lt⟩
      omega
  by_cases covered : start + len ≤ c.applied + 1
  · rw [if_pos covered, if_pos (known.mpr covered)]
    rfl
  rw [if_neg covered, if_neg (known.not.mpr covered)]
  by_cases straddles : start ≤ c.applied
  · have meets : ∃ n ∈ Set.Ico start (start + len), n ∈ c.completed :=
      ⟨start, ⟨le_rfl, by omega⟩, mem_completed.mpr ⟨positive, Or.inl straddles⟩⟩
    rw [if_pos straddles, if_pos meets]
    rfl
  rw [if_neg straddles]
  have apart := @Ordered.apart_iff c start len h (by omega) (by omega)
  cases found : (c.gaps.filter (Run.overlaps ⟨start, start + len⟩)).getLast? with
  | some gap =>
      have meets : ∃ n ∈ Set.Ico start (start + len), n ∈ c.completed := by
        by_contra fresh
        rw [apart.mpr fresh] at found
        cases found
      rw [if_pos meets]
      rfl
  | none =>
      have fresh := apart.mp (List.getLast?_eq_none_iff.mp found)
      rw [if_neg fresh]
      by_cases next : start = c.applied + 1
      · rw [if_pos next, if_neg (by tauto)]
        rfl
      · simp only [if_neg next]
        exact h.of_keepGap (by omega) (by omega) fresh

end SegmentLog.Counter
