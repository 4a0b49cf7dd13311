import SegmentLog.Proofs.Log.Bare
import SegmentLog.Proofs.Session.Grown

/-!
# How the segments of a log grow

Whatever the segments hold that a log was opened on, and whether its calls succeed or not, they only
grow as long as no fuse is put before them: `Grows`. What is reserved behind the head of the log is
not counted among their bytes. It is overwritten, and it is there for good once a newer segment follows.
-/
namespace SegmentLog

theorem Bytes.take_overwrite {bs : Bytes} {offset : ℕ} (within : offset ≤ bs.length)
    (data : Bytes) :
    (bs.overwrite offset data).take (offset + data.length) = bs.take offset ++ data := by
  rw [overwrite, resize, Nat.sub_eq_zero_of_le within, List.replicate_zero, List.append_nil]
  exact List.take_left' (by rw [List.length_append, List.length_take_of_le within])

/-- The volume with the segments as far as the log has written them. -/
def Log.unpadded (log : Log) (v : Volume) : Volume :=
  v.setBytes log.active.store.content
    ((v.bytes log.active.store.content).take log.active.position)

namespace Log

/-- The log writes the newest of its segments. -/
structure Heads (place : Place) (removed : ℕ) (older : List ContentId) (s : Volume × Log) :
    Prop where
  directory : s.2.directory = { place }
  keeps : place.Keeps s.1 removed (older ++ [s.2.active.store.content])
  segment : s.2.active.segment = older.length
  bare : s.2.active.store.Bare
  within : s.2.active.position ≤ (s.1.bytes s.2.active.store.content).length

/-- The segments as far as they are written. -/
def written (removed : ℕ) (older : List ContentId) (s : Volume × Log) : List (ℕ × Bytes) :=
  (s.2.unpadded s.1).image removed (older ++ [s.2.active.store.content])

/-- A call that starts at most so many segments has got the log from one state to another. -/
structure Grows (place : Place) (removed started : ℕ) (older older' : List ContentId)
    (s s' : Volume × Log) : Prop where
  heads : Heads place removed older' s'
  few : older'.length ≤ older.length + started
  grown : Segment.Grown (written removed older s) (written removed older' s')

variable {place : Place} {removed started started' : ℕ} {ids older older' older'' : List ContentId}
  {v : Volume} {s s' s'' : Volume × Log} {frame : Bytes} {record : Record}

theorem Heads.written_eq (h : Heads place removed older s) : written removed older s =
    s.1.image removed older ++
      [(older.length, (s.1.bytes s.2.active.store.content).take s.2.active.position)] :=
  h.keeps.image_setBytes _

theorem Heads.grows_self (h : Heads place removed older s) :
    Grows place removed 0 older older s s :=
  ⟨h, Nat.le_refl _, Segment.grown_refl _⟩

theorem Grows.trans (h : Grows place removed started older older' s s')
    (h' : Grows place removed started' older' older'' s' s'') :
    Grows place removed (started + started') older older'' s s'' := by
  have := h.few
  have := h'.few
  exact ⟨h'.heads, by omega, h.grown.trans h'.grown⟩

/-! ## Calls -/

theorem flush_grows (h : Heads place removed older s) :
    ∃ s', flush s = .ok () s' ∧ Grows place removed 0 older older s s' :=
  ⟨_, flush_bare h.bare s.1, ⟨h.directory, h.keeps, h.segment, h.bare, h.within⟩, Nat.le_refl _,
    Segment.grown_refl _⟩

/-- What is written behind the head is behind what was written before. -/
theorem put_grows (h : Heads place removed older s) (some_bytes : frame ≠ []) :
    Grows place removed 0 older older s (final (put frame) s) := by
  by_cases beyond : Pointer.maxOffset < s.2.active.position + frame.length
  · obtain ⟨e, refused⟩ := put_bare_beyond beyond s.1
    rw [final_of_error refused]
    exact h.grows_self
  obtain ⟨store, done, content, bare⟩ := put_bare h.bare s.1 some_bytes (Nat.le_of_not_lt beyond)
  rw [final_of_ok done]
  have known := h.keeps.known _ (List.mem_append_right _ List.mem_cons_self)
  have heads : Heads place removed older
      (s.1.setBytes s.2.active.store.content
        ((s.1.bytes s.2.active.store.content).overwrite s.2.active.position frame),
      { s.2 with
        active := ⟨s.2.active.segment, store, s.2.active.position + frame.length⟩
        ledger := s.2.ledger.count (·.appended frame.length) }) := by
    refine ⟨h.directory, ?_, h.segment, bare, ?_⟩
    · dsimp only
      rw [content]
      exact h.keeps.setBytes ..
    · dsimp only
      rw [content, Volume.bytes_setBytes known, Bytes.length_overwrite]
      exact Nat.le_max_right _ _
  refine ⟨heads, Nat.le_refl _, ?_⟩
  rw [h.written_eq, heads.written_eq]
  dsimp only
  rw [content, Volume.bytes_setBytes known, Bytes.take_overwrite h.within,
    Volume.image_congr fun id mem => Volume.bytes_setBytes_of_ne (h.keeps.other mem) _]
  exact Segment.grown_append _ (.written (List.prefix_append _ _))

/-! ## Starting a segment -/

section
variable {active : Active} {format : Format} {n : ℕ} {v' : Volume} {log : Log}

theorem Started.heads (h : Started place removed ids format n v v' active)
    (directory : log.directory = { place }) (on : log.active = active) :
    Heads place removed ids (v', log) := by
  subst on
  refine ⟨directory, h.keeps, h.segment, h.bare, ?_⟩
  dsimp only
  rw [h.bytes, h.position, List.length_append, Header.length_encode]
  exact Nat.le_add_right _ _

/-- Of the segment that was started only the header is written. -/
theorem Started.written_eq (h : Started place removed ids format n v v' active)
    (directory : log.directory = { place }) (on : log.active = active) :
    written removed ids (v', log) =
      v.image removed ids ++ [(ids.length, Header.encode format)] := by
  rw [(h.heads directory on).written_eq]
  subst on
  dsimp only
  rw [h.bytes, h.position, ← Header.length_encode format, List.take_left,
    Volume.image_congr h.others]

end

/-- What was reserved in a segment is there once a newer one is. -/
theorem rotate_grows (h : Heads place removed older s) (room : Place.Room (older.length + 2)) :
    ∃ k s', rotate s = .ok k s' ∧
      Grows place removed 1 older (older ++ [s.2.active.store.content]) s s' := by
  obtain ⟨active, v', rotated, started⟩ := rotate_bare h.keeps
    (by rwa [List.length_append, List.length_singleton]) h.directory h.bare
    (by rw [h.segment, List.length_append, List.length_singleton])
  have afterwards : written removed (older ++ [s.2.active.store.content]) (v', { s.2 with
    active, ledger := (s.2.ledger.count .flushed).count .created }) = _ :=
      started.written_eq h.directory rfl
  refine ⟨_, _, rotated, started.heads h.directory rfl, by rw [List.length_append]; rfl, ?_⟩
  rw [h.written_eq, afterwards, Volume.image_concat h.keeps.removed_le_older, List.append_assoc]
  exact Segment.grown_append _ (.written (List.take_prefix ..))

/-! ## Appending -/

theorem write_grows (h : Heads place removed older s) (room : Place.Room (older.length + 2))
    (record : Record) :
    ∃ older', Grows place removed 1 older older' s (final (write record) s) := by
  rcases write_cases record s with ⟨e, refused, -⟩ | ⟨frame, -, encoded, written⟩
  · rw [final_of_error refused]
    exact ⟨older, h, Nat.le_succ _, Segment.grown_refl _⟩
  have some_bytes : frame ≠ [] := by
    rintro rfl
    exact (Frame.whole_of_encode encoded).starts rfl
  rw [final, written]
  cases s.2.overflows frame.length with
  | false =>
      rw [if_neg Bool.false_ne_true, ← final]
      have grows := put_grows h some_bytes
      exact ⟨older, grows.heads, Nat.le_succ_of_le grows.few, grows.grown⟩
  | true =>
      obtain ⟨k, s', rotated, grows⟩ := rotate_grows h room
      rw [if_pos rfl, ← final, final_bind_of_ok rotated]
      exact ⟨_, grows.trans (put_grows grows.heads some_bytes)⟩

/-- Whether an append succeeds or not, the segments only grow. -/
theorem append_grows (h : Heads place removed older s) (room : Place.Room (older.length + 2))
    (record : Record) :
    ∃ older', Grows place removed 1 older older' s (final (append record) s) := by
  obtain ⟨older', grows⟩ := write_grows h room record
  refine ⟨older', ?_⟩
  cases written : write record s with
  | error e s' =>
      rw [final_of_error written] at grows
      rwa [final_of_error (append_of_error written)]
  | ok p s' =>
      rw [final_of_ok written] at grows
      rw [final, append_of_ok written]
      cases s'.2.config.syncOnWrite with
      | false => exact grows
      | true =>
          obtain ⟨s'', flushed, flushing⟩ := flush_grows grows.heads
          rw [if_pos rfl, ← final, final_bind_of_ok flushed]
          exact grows.trans flushing

/-! ## Opening -/

theorem Sealing.grown {v₁ : Volume} (h : Sealing v ids v₁) (keeps : place.Keeps v removed ids)
    {newer : List (ℕ × Bytes)} (followed : newer ≠ []) :
    Segment.Grown (v.image removed ids) (v₁.image removed ids ++ newer) := by
  cases h with
  | none_there =>
      rw [show v.image removed [] = [] from List.drop_nil]
      exact .empty _
  | newest header sealed_ =>
      rw [keeps.image_setBytes, Volume.image_concat keeps.removed_le_older, List.append_assoc]
      exact Segment.grown_append _ (sealed_.kept header followed)

/-- What comes of opening a log: it has segments that have grown out of those that were there, or
nothing was done. -/
theorem openIn_grows (h : place.Keeps v removed ids) (room : Place.Room (ids.length + 1))
    (c : Config) :
    (∃ v' log, openIn { place } c v = .ok log v' ∧ Heads place removed ids (v', log) ∧
      Segment.Grown (v.image removed ids) (written removed ids (v', log))) ∨
    ∃ fault, openIn { place } c v = .error fault v := by
  refine (openIn_kept h room c).imp_left ?_
  rintro ⟨v₁, v', log, opened, seals, started, directory, -⟩
  refine ⟨v', log, opened, started.heads directory rfl, ?_⟩
  rw [started.written_eq directory rfl]
  exact seals.grown h (List.cons_ne_nil _ _)

end Log
end SegmentLog
