import SegmentLog.Proofs.Counter.Canonical

/-!
# The counters that calls reach

What was handed out counts for a call of `next` alone, by the number it starts from. So a counter
stays the form of its completed numbers whatever is handed out, also when the numbers wrap:
`Reached.spec`.
-/
namespace SegmentLog.Counter

variable {c d : Counter} {C : Set ℕ}

/-- Counters with their gaps in order have one core if they have the same numbers complete. -/
theorem Ordered.core_eq (h : c.Ordered) (h' : d.Ordered) (config : d.config = c.config)
    (completed : d.completed = c.completed) : d.core = c.core := by
  obtain ⟨e, sound, same⟩ := h.exists_sound
  obtain ⟨e', sound', same'⟩ := h'.exists_sound
  have forms : e'.Canonical e.completed := by
    rw [completed_of_core same, ← completed, ← completed_of_core same']
    exact sound'.canonical
  obtain ⟨applied, gaps⟩ := forms.unique sound.canonical
  have fields : e'.config = e.config := by
    have left := congrArg Counter.config same
    have left' := congrArg Counter.config same'
    exact left'.trans (config.trans left.symm)
  calc
    d.core = e'.core := same'.symm
    _ = e.core := by simp only [core, applied, gaps, fields]
    _ = c.core := same

theorem config_perform (c : Counter) (call : Call) : (call.perform c).config = c.config := by
  have complete (c : Counter) (start len : ℕ) :
      (Call.perform c (.complete start len)).config = c.config := by
    simp only [Call.perform]
    cases ok : c.complete start len with
    | error fault => rfl
    | ok result => exact config_of_complete ok
  cases call with
  | complete start len => exact complete c start len
  | next len => exact congrArg config (c.next_eq len).2 |>.trans (complete _ _ _)
  | restore s =>
      simp only [Call.perform]
      cases ok : c.restore s with
      | error fault => rfl
      | ok c' =>
          obtain ⟨-, level, gaps, -, rfl⟩ := restore_cases ok
          rfl
  | moveTo value =>
      simp only [Call.perform, moveTo, jump]
      split_ifs <;> rfl
  | reserve _ | finalize | reset => rfl

/-! ## Reached counters -/

/-- A counter that starts empty reaches `c` by calls that are `allowed`, and these complete the
numbers in `C`. No number that a call takes over or compares with is beyond the words; those that
are handed out may wrap. -/
inductive Reached (allowed : Counter → Call → Prop) (config : Config) : Counter → Set ℕ → Prop
  | empty : Reached allowed config { config } ∅
  | call {c : Counter} {C : Set ℕ} (call : Call) (before : Reached allowed config c C)
      (words : call.InWords c) (fine : allowed c call) :
      Reached allowed config (call.perform c) (call.effect c C)
  | setInitial {c : Counter} {C : Set ℕ} (value : ℕ) (before : Reached allowed config c C) :
      Reached allowed config (c.setInitial value) C

variable {allowed : Counter → Call → Prop} {config : Config}

/-- A counter is the form of the numbers that were completed, whatever the calls were. -/
theorem Reached.spec (h : Reached allowed config c C) :
    c.Ordered ∧ c.completed = C ∧ c.config = config := by
  induction h with
  | empty =>
      refine ⟨(sound_empty config).ordered, ?_, rfl⟩
      ext n
      simp [mem_completed]
  | call call _ words _ ih =>
      obtain ⟨ordered, completed, same⟩ := ih
      obtain ⟨ordered', completed'⟩ := ordered.perform words
      exact ⟨ordered', by rw [completed', completed], by rw [config_perform, same]⟩
  | setInitial value _ ih => exact ⟨⟨ih.1.separated, ih.1.above⟩, ih.2.1, ih.2.2⟩

/-- What is complete after a call that succeeds. -/
theorem Reached.succeed (h : Reached allowed config c C) (call : Call) (words : call.InWords c)
    (fine : allowed c call) (ok : call.succeeds c = true) :
    Reached allowed config (call.perform c) (call.outcome c C) := by
  obtain ⟨ordered, rfl, -⟩ := h.spec
  exact ordered.effect_of_succeeds ok ▸ .call call h words fine

/-- An empty counter can be moved to any number. -/
theorem Reached.moved (value : ℕ) (word : value < limit)
    (fine : allowed { config } (.moveTo value)) :
    Reached allowed config ((Call.moveTo value).perform { config }) (Set.Icc 1 value) := by
  have words : HasNext { config } value := by
    rcases Nat.lt_or_eq_of_le word with small | last
    · exact Or.inl small
    · exact Or.inr ⟨last, rfl⟩
  have ok : (Counter.moveTo { config } value).isOk = true :=
    (isOk_moveTo _ value).mpr (Nat.zero_le _)
  have moved := Reached.empty.succeed (.moveTo value) words fine ok
  rwa [Call.outcome, Set.empty_union] at moved

/-- No call completes a number that is not a word. -/
theorem Call.outcome_lt {call : Call} (words : call.InWords c) (ok : call.succeeds c = true)
    (small : ∀ n ∈ C, n < limit) : ∀ n ∈ call.outcome c C, n < limit := by
  have block (d : Counter) (start len : ℕ) (ok : (d.complete start len).isOk = true) :
      ∀ n ∈ C ∪ Set.Ico start (start + len), n < limit := by
    obtain ⟨result, answer⟩ := exists_of_isOk ok
    exact fun n hn => hn.elim (small n) (lt_of_complete answer n)
  cases call with
  | reserve len => exact small
  | complete start len => exact block c start len ok
  | next len =>
      rw [succeeds, (c.next_eq len).1, isOk_map] at ok
      exact block (c.reserve len).2 (c.reserve len).1 len ok
  | restore s =>
      rintro n ⟨-, le | ⟨g, hg, -, lt⟩⟩
      · exact le.trans_lt s.applied.toNat_lt
      · exact lt.trans (words g hg)
  | moveTo value =>
      have word : value < limit := words.elim Nat.lt_of_succ_lt fun last => last.1 ▸ Nat.lt_succ_self _
      exact fun n hn => hn.elim (small n) fun upTo => upTo.2.trans_lt word
  | finalize =>
      rintro n ⟨-, m, hm, le⟩
      exact le.trans_lt (small m hm)
  | reset => exact fun n hn => absurd hn (Set.notMem_empty n)

theorem Reached.inWords (h : Reached allowed config c C) : c.InWords := by
  obtain ⟨ordered, completed, -⟩ := h.spec
  refine ordered.inWords (completed ▸ ?_)
  clear ordered completed
  induction h with
  | empty => exact fun n hn => absurd hn (Set.notMem_empty n)
  | call call before words _ small =>
      obtain ⟨ordered, rfl, -⟩ := before.spec
      cases ok : call.succeeds _ with
      | true =>
          rw [ordered.effect_of_succeeds ok]
          exact call.outcome_lt words ok small
      | false =>
          rw [ordered.effect_of_fails ok]
          exact small
  | setInitial value _ small => exact small

theorem Reached.mono {allowed' : Counter → Call → Prop} (h : Reached allowed config c C)
    (le : ∀ d call, allowed d call → allowed' d call) : Reached allowed' config c C := by
  induction h with
  | empty => exact .empty
  | call call _ words fine ih => exact .call call ih words (le _ _ fine)
  | setInitial value _ ih => exact .setInitial value ih

theorem Reached.sound (h : Reached Unwrapped config c C) : c.Sound := by
  induction h with
  | empty => exact sound_empty config
  | call call _ words fine sound => exact sound.perform words fine
  | setInitial value _ sound =>
      exact ⟨sound.separated, sound.above, sound.applied_le, sound.stop_le⟩

end SegmentLog.Counter
