import SegmentLog.Proofs.Client.Run
import SegmentLog.Proofs.Log.Growth

/-!
# How the segments of a client grow

As long as no crashes are simulated, whatever a client is told to do to its log, and whether that
succeeds or not, the segments in its directory only grow: `Sited.run`. What they hold does not
matter, and neither does what is reserved in the newest one while a log has it open.
-/
namespace SegmentLog.Client

/-- The volume with the segments as far as they are written. -/
def unpadded (c : Client) : Volume := c.log.elim c.volume (·.unpadded c.volume)

/-- The client's directory keeps these contents at a place without a fuse, and if a log is open it
writes the newest of them. -/
structure Sited (place : Place) (removed : ℕ) (ids : List ContentId) (c : Client) : Prop where
  sits : c.place = some place
  fused : c.fused = none
  keeps : place.Keeps c.volume removed ids
  log : ∀ log, c.log = some log → ∃ older, ids = older ++ [log.active.store.content] ∧
    Log.Heads place removed older (c.volume, log)

/-- Calls that start at most so many segments have got the client from one state to another. -/
structure Grows (place : Place) (removed started : ℕ) (ids ids' : List ContentId)
    (c c' : Client) : Prop where
  sited : Sited place removed ids' c'
  few : ids'.length ≤ ids.length + started
  grown : Segment.Grown (c.unpadded.image removed ids) (c'.unpadded.image removed ids')

variable {place : Place} {removed started started' : ℕ} {ids ids' ids'' : List ContentId}
  {c c' c'' : Client}

theorem unpadded_of_log {log : Log} (hl : c.log = some log) :
    c.unpadded = log.unpadded c.volume := by
  rw [unpadded, hl]
  rfl

theorem unpadded_of_none (hl : c.log = none) : c.unpadded = c.volume := by
  rw [unpadded, hl]
  rfl

theorem Sited.keeps_unpadded (h : Sited place removed ids c) :
    place.Keeps c.unpadded removed ids := by
  cases hl : c.log with
  | none => exact unpadded_of_none hl ▸ h.keeps
  | some log =>
      rw [unpadded_of_log hl]
      exact h.keeps.setBytes ..

/-- What is reserved in the newest segment stands behind what is written there. -/
theorem Sited.grown_volume (h : Sited place removed ids c) :
    Segment.Grown (c.unpadded.image removed ids) (c.volume.image removed ids) := by
  cases hl : c.log with
  | none =>
      rw [unpadded_of_none hl]
      exact Segment.grown_refl _
  | some log =>
      obtain ⟨older, rfl, heads⟩ := h.log log hl
      rw [unpadded_of_log hl, Log.unpadded, h.keeps.image_setBytes,
        Volume.image_concat h.keeps.removed_le_older]
      exact Segment.grown_append _ (.written (List.take_prefix ..))

theorem Sited.grows_self (h : Sited place removed ids c) (started : ℕ) :
    Grows place removed started ids ids c c :=
  ⟨h, Nat.le_add_right _ _, Segment.grown_refl _⟩

theorem Grows.trans (h : Grows place removed started ids ids' c c')
    (h' : Grows place removed started' ids' ids'' c' c'') :
    Grows place removed (started + started') ids ids'' c c'' := by
  have := h.few
  have := h'.few
  exact ⟨h'.sited, by omega, h.grown.trans h'.grown⟩

/-! ## Calls -/

theorem Sited.onLog {α : Type} {x : LogM α} (h : Sited place removed ids c)
    (grows : ∀ log older, Log.Heads place removed older (c.volume, log) →
      older.length + 1 = ids.length →
      ∃ older', Log.Grows place removed 1 older older' (c.volume, log) (final x (c.volume, log))) :
    ∃ ids', Grows place removed 1 ids ids' c (final (Client.onLog x) c) := by
  cases hl : c.log with
  | none =>
      rw [final_of_error (onLog_of_none hl)]
      exact ⟨ids, h.grows_self 1⟩
  | some log =>
      obtain ⟨older, rfl, heads⟩ := h.log log hl
      obtain ⟨older', heads', few, grown⟩ :=
        grows log older heads (by rw [List.length_append, List.length_singleton])
      have worked : final (Client.onLog x) c = { c with
          volume := (final x (c.volume, log)).1, log := some (final x (c.volume, log)).2 } := by
        cases hx : x (c.volume, log) with
        | ok a s => rw [final_of_ok (onLog_of_ok hl hx), final_of_ok hx]
        | error e s => rw [final_of_error (onLog_of_error hl hx), final_of_error hx]
      rw [worked]
      refine ⟨_, ⟨h.sits, h.fused, heads'.keeps, ?_⟩, by simpa using few, ?_⟩
      · rintro _ ⟨⟩
        exact ⟨older', rfl, heads'⟩
      · rw [unpadded_of_log hl]
        exact grown

theorem Sited.closed (h : Sited place removed ids c) (volume : c'.volume = c.volume)
    (place' : c'.place = c.place) (fused : c'.fused = c.fused) (log : c'.log = none) :
    Grows place removed 0 ids ids c c' := by
  refine ⟨⟨place'.trans h.sits, fused.trans h.fused, volume ▸ h.keeps, by simp [log]⟩, le_rfl, ?_⟩
  rw [unpadded_of_none log, volume]
  exact h.grown_volume

theorem Sited.openLog (h : Sited place removed ids c) (room : Place.Room (ids.length + 1))
    (config : Log.Config) :
    ∃ ids', Grows place removed 1 ids ids' c (final (Client.openLog config) c) := by
  have getDirectory : getDirectory c = .ok { place } c :=
    need_of_some (by rw [h.fused, h.sits]; rfl)
  obtain ⟨c₁, closed, volume, place', fused, log⟩ := closeLog_run c
  have closing := h.closed volume place' fused log
  unfold Client.openLog
  rw [final_bind_of_ok getDirectory, final_bind_of_ok closed]
  rcases Log.openIn_grows closing.sited.keeps room config with
    ⟨v', log', opened, heads, grown⟩ | ⟨fault, refused⟩
  · rw [final_bind_of_ok (run_lift_of_ok opened)]
    have grows : Grows place removed 1 ids (ids ++ [log'.active.store.content]) c₁
        { c₁ with volume := v', log := some log' } := by
      refine ⟨⟨closing.sited.sits, closing.sited.fused, heads.keeps, ?_⟩, by simp, ?_⟩
      · rintro _ ⟨⟩
        exact ⟨ids, rfl, heads⟩
      · rw [unpadded_of_none log]
        exact grown
    exact ⟨_, closing.trans grows⟩
  · rw [final_of_error (run_bind_of_error (run_lift_of_error refused))]
    exact ⟨ids, closing.trans (closing.sited.grows_self 1)⟩

/-- Whatever a client is told to do, its segments only grow. -/
theorem Sited.perform (h : Sited place removed ids c) (room : Place.Room (ids.length + 1))
    {a : Action} (calm : a ≠ .simulate) :
    ∃ ids', Grows place removed 1 ids ids' c (final a.call c) := by
  have no_fuse : getFuse c = .error .absent c := need_of_none (by rw [h.fused]; rfl)
  cases a with
  | simulate => exact absurd rfl calm
  | openLog config =>
      simp only [Action.call, final_bind_pure]
      exact h.openLog room config
  | closeLog =>
      obtain ⟨c', closed, volume, place', fused, log⟩ := closeLog_run c
      have closing := h.closed volume place' fused log
      refine ⟨ids, ?_⟩
      rw [show final Action.closeLog.call c = c' from final_of_ok closed]
      exact ⟨closing.sited, Nat.le_succ _, closing.grown⟩
  | append record =>
      simp only [Action.call, final_bind_pure]
      exact h.onLog fun log older heads length =>
        Log.append_grows heads (by rwa [← length] at room) record
  | flush =>
      refine h.onLog fun log older heads _ => ?_
      obtain ⟨s', flushed, grows⟩ := Log.flush_grows heads
      rw [final_of_ok flushed]
      exact ⟨older, grows.heads, Nat.le_succ _, grows.grown⟩
  | rotate =>
      simp only [Action.call, final_bind_pure]
      refine h.onLog fun log older heads length => ?_
      obtain ⟨k, s', rotated, grows⟩ := Log.rotate_grows heads (by rwa [← length] at room)
      rw [final_of_ok rotated]
      exact ⟨_, grows⟩
  | arm len =>
      refine ⟨ids, ?_⟩
      rw [show final (Action.arm len).call c = c from final_of_error (run_bind_of_error no_fuse)]
      exact h.grows_self 1
  | failSync fail =>
      refine ⟨ids, ?_⟩
      rw [show final (Action.failSync fail).call c = c from
        final_of_error (run_bind_of_error no_fuse)]
      exact h.grows_self 1

/-- Whatever else a client is told to do, its segments only grow. -/
theorem Sited.run {actions : List Action} (h : Sited place removed ids c)
    (room : Place.Room (ids.length + actions.length)) (calm : .simulate ∉ actions)
    (history : List Attempt) :
    ∃ ids', Grows place removed actions.length ids ids' c (Client.run actions (c, history)).1 := by
  induction actions generalizing ids c history with
  | nil => exact ⟨ids, h.grows_self 0⟩
  | cons a actions ih =>
      obtain ⟨other, calm⟩ := not_or.mp (mt List.mem_cons.mpr calm)
      rw [List.length_cons] at room ⊢
      obtain ⟨ids₁, first⟩ := h.perform (room.mono (by omega)) (Ne.symm other)
      have few := first.few
      obtain ⟨ids', later⟩ := ih first.sited (room.mono (by omega)) calm _
      exact ⟨ids', Nat.add_comm actions.length 1 ▸ first.trans later⟩

end SegmentLog.Client
