import SegmentLog.Store.Volume

/-!
# What a success says

A computation that succeeds did so in each of its steps. These lemmas take one apart, so that the
steps need not be looked into again. One that fails still leaves a state: `final` is the state that
is left either way.
-/
namespace SegmentLog
variable {ε ε' σ α β : Type}

theorem bind_eq_ok {x : Except ε α} {f : α → Except ε β} {b : β} :
    x >>= f = .ok b ↔ ∃ a, x = .ok a ∧ f a = .ok b := by
  cases x with
  | error fault => simp [bind, Except.bind]
  | ok a => simp [bind, Except.bind]

theorem map_eq_ok {x : Except ε α} {f : α → β} {b : β} :
    x.map f = .ok b ↔ ∃ a, x = .ok a ∧ f a = b := by
  cases x with
  | error fault => simp [Except.map]
  | ok a => simp [Except.map]

theorem mapError_eq_ok {x : Except ε α} {f : ε → ε'} {a : α} :
    x.mapError f = .ok a ↔ x = .ok a := by
  cases x with
  | error fault =>
      change Except.error (f fault) = .ok a ↔ _
      simp
  | ok b =>
      change Except.ok b = .ok a ↔ _
      simp

theorem isOk_map {x : Except ε α} {f : α → β} : (x.map f).isOk = x.isOk := by
  cases x with
  | error fault => rfl
  | ok a => rfl

theorem exists_of_isOk {x : Except ε α} (ok : x.isOk = true) : ∃ a, x = .ok a := by
  cases x with
  | error fault => cases ok
  | ok a => exact ⟨a, rfl⟩

theorem exists_of_not_isOk {x : Except ε α} (failed : x.isOk = false) :
    ∃ fault, x = .error fault := by
  cases x with
  | error fault => exact ⟨fault, rfl⟩
  | ok a => cases failed

/-! ## Work on a state

The state that a step leaves is where the next one starts. -/

section
variable {x : EStateM ε σ α} {f : α → EStateM ε σ β} {s s' : σ}

theorem run_bind_of_ok {a : α} (h : x s = .ok a s') : (x >>= f) s = f a s' := by
  change EStateM.bind x f s = _
  rw [EStateM.bind, h]

theorem run_bind_of_error {e : ε} (h : x s = .error e s') : (x >>= f) s = .error e s' := by
  change EStateM.bind x f s = _
  rw [EStateM.bind, h]

theorem run_bind_eq_ok {b : β} :
    (x >>= f) s = .ok b s' ↔ ∃ a s₁, x s = .ok a s₁ ∧ f a s₁ = .ok b s' := by
  cases h : x s with
  | error fault s₁ => simp [run_bind_of_error h]
  | ok a s₁ =>
    rw [run_bind_of_ok h]
    constructor
    · intro hb
      exact ⟨a, s₁, rfl, hb⟩
    · rintro ⟨_, _, ⟨⟩, hb⟩
      exact hb

end

theorem run_get_bind (f : σ → EStateM ε σ β) (s : σ) : (get >>= f) s = f s s := rfl

theorem VolumeM.ofExcept_eq_ok {wrap : ε → Error} {x : Except ε α} {a : α} {v v' : Volume} :
    VolumeM.ofExcept wrap x v = .ok a v' ↔ x = .ok a ∧ v' = v := by
  cases x with
  | error fault =>
      constructor
      · intro h
        cases h
      · rintro ⟨⟨⟩, -⟩
  | ok b =>
      constructor
      · intro h
        cases h
        exact ⟨rfl, rfl⟩
      · rintro ⟨⟨⟩, rfl⟩
        rfl

theorem VolumeM.attempt_eq_ok {wrap : ε → Error} {f : Volume → Except ε α × Volume} {a : α}
    {v v' : Volume} : VolumeM.attempt wrap f v = .ok a v' ↔ f v = (.ok a, v') := by
  unfold attempt
  split
  · rename_i same
    rw [same]
    simp
  · rename_i same
    rw [same]
    simp

/-- What a computation gives and the state after it, if it succeeds. -/
def outcome (x : EStateM ε σ α) (s : σ) : Option (α × σ) :=
  match x s with
  | .ok a s => some (a, s)
  | .error _ _ => none

theorem outcome_eq_some {x : EStateM ε σ α} {s s' : σ} {a : α} :
    outcome x s = some (a, s') ↔ x s = .ok a s' := by
  unfold outcome
  cases x s <;> simp

/-- The state after a computation, whether it succeeded or not. -/
def final (x : EStateM ε σ α) (s : σ) : σ :=
  match x s with
  | .ok _ s => s
  | .error _ s => s

section
variable {x : EStateM ε σ α} {s s' : σ}

theorem final_of_ok {a : α} (h : x s = .ok a s') : final x s = s' := by rw [final, h]

theorem final_of_error {e : ε} (h : x s = .error e s') : final x s = s' := by rw [final, h]

theorem final_bind_of_ok {a : α} {f : α → EStateM ε σ β} (h : x s = .ok a s') :
    final (x >>= f) s = final (f a) s' := by
  rw [final, run_bind_of_ok h, final]

theorem final_bind_pure (x : EStateM ε σ α) (f : α → β) (s : σ) :
    final (x >>= fun a => pure (f a)) s = final x s := by
  cases h : x s with
  | ok a s' =>
    have done : (x >>= fun a => pure (f a)) s = .ok (f a) s' := run_bind_of_ok h
    rw [final_of_ok h, final_of_ok done]
  | error e s' =>
    have failed : (x >>= fun a => pure (f a)) s = .error e s' := run_bind_of_error h
    rw [final_of_error h, final_of_error failed]

end

end SegmentLog
