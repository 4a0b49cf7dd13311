import SegmentLog.Proofs.Counter.Snapshot

/-!
# What the answers of a counter depend on

What a counter does with a completion depends on its configuration, on `applied` and on its gaps;
`core` keeps just that. So a counter whose gaps are in order does what a sound one does, whatever it
has handed out: `Ordered.complete_spec`, `Ordered.moveTo_spec`, `Ordered.finalize_spec`.
-/
namespace SegmentLog.Counter

/-- A counter without what it handed out and where it started. -/
def core (c : Counter) : Counter := { c with reserved := 0, initial := 0 }

/-- The answer of a call without what the counter handed out and where it started. -/
def coreAnswer {α : Type} (answer : Except CounterFault (Counter × α)) :
    Except CounterFault (Counter × α) :=
  answer.map fun (c, a) => (c.core, a)

variable {c d : Counter}

theorem Ordered.of_core (h : c.Ordered) (same : d.core = c.core) : d.Ordered := by
  simp only [core, mk.injEq] at same
  obtain ⟨-, applied, gaps, -⟩ := same
  exact ⟨gaps ▸ h.separated, applied ▸ gaps ▸ h.above⟩

theorem completed_of_core (same : d.core = c.core) : d.completed = c.completed := by
  calc
    d.completed = d.core.completed := rfl
    _ = c.core.completed := by rw [same]
    _ = c.completed := rfl

/-- With enough handed out a counter whose gaps are in order is sound. -/
theorem Ordered.exists_sound (h : c.Ordered) : ∃ d : Counter, d.Sound ∧ d.core = c.core := by
  refine ⟨{ c with reserved := c.gaps.highest c.applied }, ⟨h.separated, h.above, ?_, ?_⟩, rfl⟩
  · exact Runs.le_highest h.separated h.above (Or.inl le_rfl)
  · intro r hr
    have full := h.separated.1 r hr
    have last : r.stop - 1 ≤ c.gaps.highest c.applied := by
      apply Runs.le_highest h.separated h.above
      exact Or.inr (Runs.contains_iff.mpr ⟨r, hr, by omega, by omega⟩)
    dsimp only
    omega

/-! ## Each call on the core -/

theorem coreAnswer_ite {α : Type} {p : Prop} [Decidable p]
    (yes no : Except CounterFault (Counter × α)) :
    coreAnswer (if p then yes else no) = if p then coreAnswer yes else coreAnswer no :=
  apply_ite coreAnswer p yes no

theorem keepGap_core (c : Counter) (block : Run) :
    coreAnswer (c.core.keepGap block) = coreAnswer (c.keepGap block) := by
  simp only [keepGap, coreAnswer_ite]
  rfl

theorem coreAnswer_map {α β : Type} (f : α → β) (answer : Except CounterFault (Counter × α)) :
    coreAnswer (answer.map fun (c, a) => (c, f a)) =
      (coreAnswer answer).map fun (c, a) => (c, f a) := by
  cases answer <;> rfl

theorem complete_core (c : Counter) (start len : ℕ) :
    coreAnswer (c.core.complete start len) = coreAnswer (c.complete start len) := by
  cases found : (c.gaps.filter (Run.overlaps ⟨start, start + len⟩)).getLast? with
  | some gap =>
      have found' : (c.core.gaps.filter (Run.overlaps ⟨start, start + len⟩)).getLast? =
        some gap := found
      simp only [complete, found, found', coreAnswer_ite]
      rfl
  | none =>
      have found' : (c.core.gaps.filter (Run.overlaps ⟨start, start + len⟩)).getLast? =
        none := found
      simp only [complete, found, found', coreAnswer_ite, coreAnswer_map, keepGap_core]
      rfl

theorem moveTo_core (c : Counter) (value : ℕ) :
    coreAnswer (c.core.moveTo value) = coreAnswer (c.moveTo value) := by
  have jump : (c.core.jump value).1.core = (c.jump value).1.core ∧
      (c.core.jump value).2 = (c.jump value).2 := by
    unfold Counter.jump
    split
    · exact ⟨rfl, rfl⟩
    · exact ⟨rfl, rfl⟩
  simp only [moveTo, coreAnswer_ite]
  refine if_congr Iff.rfl rfl (if_congr Iff.rfl rfl ?_)
  change Except.ok ((c.core.jump value).1.core, some (c.core.jump value).2) =
    Except.ok ((c.jump value).1.core, some (c.jump value).2)
  rw [jump.1, jump.2]

theorem coreAnswer_ok {α : Type} {answer answer' : Except CounterFault (Counter × α)} {a : α}
    (same : coreAnswer answer' = coreAnswer answer) (ok : answer = .ok (c, a)) :
    ∃ d, answer' = .ok (d, a) ∧ d.core = c.core := by
  rw [ok] at same
  cases answer' with
  | error fault => cases same
  | ok result =>
      simp only [coreAnswer, Except.map, Except.ok.injEq, Prod.mk.injEq] at same
      obtain ⟨cores, rfl⟩ := same
      exact ⟨result.1, rfl, cores⟩

/-- Counters with one core give one answer to a completion. -/
theorem complete_of_core (same : d.core = c.core) (start len : ℕ) :
    coreAnswer (d.complete start len) = coreAnswer (c.complete start len) := by
  rw [← complete_core d, same, complete_core]

theorem moveTo_of_core (same : d.core = c.core) (value : ℕ) :
    coreAnswer (d.moveTo value) = coreAnswer (c.moveTo value) := by
  rw [← moveTo_core d, same, moveTo_core]

/-! ## What each call leaves -/

theorem Ordered.complete_spec {c' : Counter} {start len : ℕ} {event : Option Event}
    (h : c.Ordered) (ok : c.complete start len = .ok (c', event)) :
    c'.Ordered ∧ c'.completed = c.completed ∪ Set.Ico start (start + len) := by
  obtain ⟨d, sound, same⟩ := h.exists_sound
  obtain ⟨d', ok', same'⟩ := coreAnswer_ok (complete_of_core same start len) ok
  obtain ⟨sound', completed, -⟩ := Counter.complete_spec sound ok'
  refine ⟨sound'.ordered.of_core same'.symm, ?_⟩
  rw [← completed_of_core same', completed, completed_of_core same]

theorem Ordered.moveTo_spec {c' : Counter} {value : ℕ} {event : Option Event}
    (h : c.Ordered) (next : c.HasNext value) (ok : c.moveTo value = .ok (c', event)) :
    c'.Ordered ∧ c'.completed = c.completed ∪ Set.Icc 1 value := by
  obtain ⟨d, sound, same⟩ := h.exists_sound
  obtain ⟨d', ok', same'⟩ := coreAnswer_ok (moveTo_of_core same value) ok
  have gaps : d.core.gaps = c.core.gaps := congrArg Counter.gaps same
  have next' : d.HasNext value := next.imp_right fun last => ⟨last.1, gaps.trans last.2⟩
  obtain ⟨sound', completed⟩ := Counter.moveTo_spec sound next' ok'
  refine ⟨sound'.ordered.of_core same'.symm, ?_⟩
  rw [← completed_of_core same', completed, completed_of_core same]

theorem finalize_of_core (same : d.core = c.core) :
    d.finalize.2.1.core = c.finalize.2.1.core := by
  simp only [core, mk.injEq] at same
  obtain ⟨config, applied, gaps, -⟩ := same
  simp only [finalize, core, config, applied, gaps]

theorem Ordered.finalize_spec (h : c.Ordered) :
    c.finalize.2.1.Ordered ∧
      c.finalize.2.1.completed = {n | 1 ≤ n ∧ ∃ m ∈ c.completed, n ≤ m} := by
  obtain ⟨d, sound, same⟩ := h.exists_sound
  obtain ⟨sound', completed⟩ := Counter.finalize_spec sound
  have same' := finalize_of_core same
  refine ⟨sound'.ordered.of_core same'.symm, ?_⟩
  rw [← completed_of_core same', completed, completed_of_core same]

end SegmentLog.Counter
