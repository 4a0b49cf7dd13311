import SegmentLog.Proofs.Counter.Reached

/-!
# Completions are decided by the complete numbers, and done at once or not at all

A counter that calls reach gives the `verdict` on every completion, and whatever is refused or known
already leaves it alone. Main statement: `Reached.lawful`.

Two facts need more than that the counter was reached. Only while what is handed out does not wrap
is a block of `next` new, and `next_straddles_after_wrap` has a block of 10 numbers that is not;
and only a restored counter can have more gaps than its configuration allows.
-/
namespace SegmentLog.Counter

variable {c : Counter} {C : Set ℕ} {start len : ℕ}

/-! ## Calls that change nothing -/

/-- What is refused or was covered changes nothing, and nobody is told. -/
theorem perform_of_not_recorded (c : Counter)
    (h : Verdict.of (c.complete start len) ≠ .recorded) :
    Call.perform c (.complete start len) = c ∧
      (c.complete start len).toOption.bind (·.2) = none := by
  simp only [Call.perform]
  cases ok : c.complete start len with
  | error fault => exact ⟨rfl, rfl⟩
  | ok result =>
      obtain ⟨c', event⟩ := result
      rw [ok] at h
      cases event with
      | some event => exact absurd rfl h
      | none =>
          obtain ⟨-, ⟨-, rfl, -⟩ | ⟨-, ⟨-, told, -⟩ | ⟨-, e, told, -⟩⟩⟩ := complete_cases ok
          · exact ⟨rfl, rfl⟩
          · cases told
          · cases told

/-- A call of `next` that fails has handed out its numbers, and that is all. -/
theorem next_error {fault : CounterFault} (h : (c.next len).1 = .error fault) :
    (c.next len).2 = ((c.reserve len).2, none) ∧
      (c.reserve len).2.complete (c.reserve len).1 len = .error fault := by
  simp only [next] at h ⊢
  cases ok : (c.reserve len).2.complete (c.reserve len).1 len with
  | ok result =>
      rw [ok] at h
      cases h
  | error fault' =>
      rw [ok] at h
      cases h
      exact ⟨rfl, rfl⟩

/-- What a counter `c` of which `C` is complete does with any call. -/
structure Lawful (c : Counter) (C : Set ℕ) : Prop where
  /-- A completion has the answer that the complete numbers ask for. -/
  decides : ∀ start len, Verdict.of (c.complete start len) = c.verdict C start len
  /-- One that is refused or was covered changes nothing and is not told. -/
  unchanged : ∀ start len, c.verdict C start len ≠ .recorded →
    Call.perform c (.complete start len) = c ∧ (c.complete start len).toOption.bind (·.2) = none
  restore_unchanged : ∀ s fault, c.restore s = .error fault → Call.perform c (.restore s) = c
  moveTo_unchanged : ∀ value fault, c.moveTo value = .error fault →
    Call.perform c (.moveTo value) = c
  /-- After `next` has failed, its numbers are handed out and all else is as it was. -/
  next_unchanged : ∀ len fault, (c.next len).1 = .error fault →
    (c.next len).2 = ({ c with reserved := (c.reserved + len) % limit }, none)

theorem Ordered.keeps_law (h : c.Ordered) : c.Lawful c.completed where
  decides := h.verdict_complete
  unchanged start len verdict := by
    rw [← h.verdict_complete start len] at verdict
    exact perform_of_not_recorded c verdict
  restore_unchanged s fault failed := by simp only [Call.perform, failed]; rfl
  moveTo_unchanged value fault failed := by simp only [Call.perform, failed]; rfl
  next_unchanged len fault failed := (next_error failed).1

/-! ## Failures of `next` -/

theorem Sound.next_fault (h : c.Sound) {fault : CounterFault} (full : 1 ≤ len)
    (small : c.reserved + len + 1 < limit) (failed : (c.next len).1 = .error fault) :
    fault = .tooManyGaps c.config.maxGaps (c.reserved + 1) := by
  have first : (c.reserve len).1 = c.reserved + 1 := Nat.mod_eq_of_lt (by omega)
  have fits : c.reserved + len < limit := by omega
  obtain ⟨sound, completed⟩ := reserve_spec h fits
  obtain ⟨-, refused⟩ := next_error failed
  rw [first] at refused
  have fresh : ∀ n, c.reserved + 1 ≤ n → n < c.reserved + 1 + len →
      n ∉ (c.reserve len).2.completed := by
    intro n le _ known
    rw [completed] at known
    have := h.le_reserved known
    omega
  rcases sound.complete_of_fresh_block (by omega) (by omega) (by omega) fresh with
    ⟨c', event, ok⟩ | ⟨many, -⟩
  · rw [ok] at refused
    cases refused
  · rw [many] at refused
    cases refused
    rfl

/-- The first 5 numbers are complete and the numbers handed out have wrapped down to 2. -/
def wrapped : Counter := (Call.reserve (limit - 3)).perform ((Call.complete 1 5).perform {})

/-- A block of 10 numbers that starts below `applied` is refused as straddling it, although
numbers enough are left above it. -/
theorem next_straddles_after_wrap :
    Reached (fun _ _ => True) {} wrapped (Set.Ico 1 6) ∧ wrapped.reserved + 10 + 1 < limit ∧
      (wrapped.next 10).1 = .error (.straddles 3 10 5) := by
  refine ⟨?_, by decide, by decide⟩
  have reached : Reached (fun _ _ => True) {} wrapped (∅ ∪ Set.Ico 1 6) :=
    (Reached.empty.succeed (.complete 1 5) trivial trivial (by decide)).succeed
      (.reserve (limit - 3)) trivial trivial rfl
  rwa [Set.empty_union] at reached

/-! ## How many gaps there are -/

theorem length_absorb_le (level : ℕ) (rs : Runs) : (rs.absorb level).2.length ≤ rs.length := by
  induction rs generalizing level with
  | nil => exact le_rfl
  | cons r rs ih =>
      unfold Runs.absorb
      split
      · exact (ih _).trans (Nat.le_succ _)
      · exact le_rfl

theorem gapCount_jump (c : Counter) (level : ℕ) : (c.jump level).1.gapCount ≤ c.gapCount := by
  unfold jump
  split
  · exact le_rfl
  · exact length_absorb_le _ _

/-- A completion makes a gap more only where there may be one more. -/
theorem Ordered.gapCount_complete (h : c.Ordered) {c' : Counter} {event : Option Event}
    (few : c.gapCount ≤ c.config.maxGaps) (ok : c.complete start len = .ok (c', event)) :
    c'.gapCount ≤ c.config.maxGaps := by
  obtain ⟨bounds, ⟨-, rfl, -⟩ | ⟨-, ⟨-, -, rfl⟩ | ⟨later, e, -, kept⟩⟩⟩ := complete_cases ok
  · exact few
  · exact (length_absorb_le _ _).trans few
  · unfold keepGap at kept
    split at kept
    · rename_i room
      cases kept
      rcases room with touching | room
      · exact (Runs.length_add_le_of_touches (by dsimp only; omega) h.separated touching).trans few
      · exact (Runs.length_add_le _ _).trans room
    · cases kept

theorem Ordered.gapCount_perform (h : c.Ordered) {call : Call} (other : ∀ s, call ≠ .restore s)
    (few : c.gapCount ≤ c.config.maxGaps) : (call.perform c).gapCount ≤ c.config.maxGaps := by
  have complete {c : Counter} (h : c.Ordered) (few : c.gapCount ≤ c.config.maxGaps)
      (start len : ℕ) : (Call.perform c (.complete start len)).gapCount ≤ c.config.maxGaps := by
    simp only [Call.perform]
    cases ok : c.complete start len with
    | error fault => exact few
    | ok result => exact h.gapCount_complete few ok
  cases call with
  | reserve len => exact few
  | complete start len => exact complete h few start len
  | next len =>
      have reserved : (c.reserve len).2.Ordered := ⟨h.separated, h.above⟩
      have := complete reserved few (c.reserve len).1 len
      rwa [← (c.next_eq len).2] at this
  | restore s => exact absurd rfl (other s)
  | moveTo value =>
      simp only [Call.perform, moveTo]
      split_ifs
      · exact few
      · exact few
      · exact (c.gapCount_jump value).trans few
  | finalize | reset => exact Nat.zero_le _

variable {allowed : Counter → Call → Prop} {config : Config}

theorem Reached.gapCount_le (h : Reached allowed config c C)
    (other : ∀ d s, ¬allowed d (.restore s)) : c.gapCount ≤ config.maxGaps := by
  induction h with
  | empty => exact Nat.zero_le _
  | @call c C call before words fine few =>
      obtain ⟨ordered, -, same⟩ := before.spec
      rw [← same] at few ⊢
      refine ordered.gapCount_perform (fun s restored => other c s ?_) few
      exact restored ▸ fine
  | setInitial value _ few => exact few

/-- A completion is decided by the numbers complete so far, and what it does is done at once or
not at all. While what is handed out does not wrap, `next` is refused for its gaps alone; and
without restores there are never more gaps than allowed. -/
theorem Reached.lawful (h : Reached allowed config c C) :
    c.Lawful C ∧
      ((∀ d call, allowed d call → d.Unwrapped call) → ∀ len fault, 1 ≤ len →
        c.reserved + len + 1 < limit → (c.next len).1 = .error fault →
          fault = .tooManyGaps config.maxGaps (c.reserved + 1)) ∧
      ((∀ d s, ¬allowed d (.restore s)) → c.gapCount ≤ config.maxGaps) := by
  obtain ⟨ordered, completed, same⟩ := h.spec
  refine ⟨completed ▸ ordered.keeps_law, ?_, h.gapCount_le⟩
  intro unwrapped len fault full small failed
  rw [← same]
  exact (h.mono unwrapped).sound.next_fault full small failed

/-- Calls that neither wrap nor restore. -/
def Plain (c : Counter) (call : Call) : Prop := c.Unwrapped call ∧ ∀ s, call ≠ .restore s

/-- With 5 and 6 complete above what is missing, and one gap allowed, the numbers 7 to 9 are
recorded, 8 and 9 would be a gap too many, and 6 to 8 are refused. -/
theorem lawful_one_gap :
    let c := (Call.complete 5 2).perform ((Call.reserve 9).perform { config := { maxGaps := 1 } })
    Reached Plain { maxGaps := 1 } c (Set.Ico 5 7) ∧ c.Lawful (Set.Ico 5 7) ∧
      Verdict.of (c.complete 7 3) = .recorded ∧ Verdict.of (c.complete 8 2) = .tooManyGaps ∧
      Verdict.of (c.complete 6 3) = .protocolError ∧
      (c.next 3).1 = .error (.tooManyGaps 1 (c.reserved + 1)) ∧ c.gapCount ≤ 1 := by
  intro c
  have reached : Reached Plain { maxGaps := 1 } c (∅ ∪ Set.Ico 5 7) :=
    (Reached.empty.succeed (.reserve 9) trivial ⟨by decide, by simp⟩ rfl).succeed
      (.complete 5 2) trivial ⟨trivial, by simp⟩ (by decide)
  rw [Set.empty_union] at reached
  obtain ⟨lawful, refused, few⟩ := Reached.lawful reached
  have next : (c.next 3).1 = .error (.tooManyGaps 1 10) := by decide
  have known := refused (fun d call fine => fine.1) 3 _ (by decide) (by decide) next
  exact ⟨reached, lawful, by decide, by decide, by decide, next.trans (known ▸ rfl),
    few fun d s fine => fine.2 s rfl⟩

end SegmentLog.Counter
