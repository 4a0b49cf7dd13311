import SegmentLog.Proofs.Directory.Shelf
import SegmentLog.Proofs.Log.Bare

/-!
# What an undamaged log does to its shelf

A log `WritesTo` the newest image of a shelf. Flushing leaves the shelf as it is, starting a segment
puts an image behind the others, writing a record puts a frame behind the others, and releasing
removes segments at the front as far as no pin holds them. None of this touches the pins. What an
append comes to is `append_appends`, with or without segments that were released before.
-/
namespace SegmentLog

namespace Log

/-- Where the active segment stands. -/
structure Active.On (active : Active) (older : Shelf) (newest : ContentId × Image) : Prop where
  segment : active.segment = older.length
  content : active.store.content = newest.1
  bare : active.store.Bare
  position : active.position = newest.2.stop

/-- The log writes behind the frames of the newest image. -/
structure WritesTo (log : Log) (place : Place) (older : Shelf) (newest : ContentId × Image) :
    Prop where
  directory : log.directory = { place }
  bounded : log.config.segmentSize ≤ Pointer.maxOffset
  active : log.active.On older newest
  format : log.format = newest.2.format

variable {log : Log} {place : Place} {v : Volume} {removed : ℕ} {shelf older : Shelf}
  {newest : ContentId × Image}

theorem WritesTo.withLedger (h : log.WritesTo place older newest) (ledger : Ledger) :
    WritesTo { log with ledger } place older newest :=
  ⟨h.directory, h.bounded, h.active, h.format⟩

theorem flush_run (h : log.WritesTo place older newest) (v : Volume) :
    flush (v, log) = .ok () (v, { log with ledger := log.ledger.count .flushed }) :=
  flush_bare h.active.bare v

/-! ## Starting a segment -/

/-- The segment that was started has a fresh image. -/
theorem Started.shelves {active : Active} {format : Format} {n : ℕ} {v' : Volume}
    (started : Started place removed (shelf.map (·.1)) format n v v' active)
    (h : place.Shelves v removed shelf) :
    place.Shelves v' removed (shelf ++ [(active.store.content, fresh format n)]) ∧
      active.On shelf (active.store.content, fresh format n) := by
  refine ⟨?_, started.segment.trans (List.length_map _), rfl, started.bare, started.position⟩
  refine Place.Keeps.shelves (by rw [List.map_append]; exact started.keeps)
    (List.forall_mem_append.mpr ⟨fun e he => ?_, List.forall_mem_singleton.mpr ?_⟩)
    (List.forall_mem_append.mpr ⟨h.sound,
      List.forall_mem_singleton.mpr ⟨fresh_sound .., n, rfl⟩⟩)
  · rw [started.others _ (List.mem_map_of_mem he), h.stored e he]
  · rw [bytes_fresh]
    exact started.bytes

/-- A rotation puts a fresh image behind the others. -/
theorem rotate_run (h : log.WritesTo place older newest)
    (shelves : place.Shelves v removed (older ++ [newest]))
    (room : Place.Room (older.length + 2)) :
    ∃ v' log' id n, rotate (v, log) = .ok (older.length + 1) (v', log') ∧
      place.Shelves v' removed (older ++ [newest] ++ [(id, fresh log.format n)]) ∧
      log'.WritesTo place (older ++ [newest]) (id, fresh log.format n) ∧
      log'.format = log.format ∧ log'.ledger.pins = log.ledger.pins := by
  obtain ⟨active, v', rotated, started⟩ := rotate_bare shelves.keeps
    (by rwa [List.length_map, List.length_append, List.length_singleton]) h.directory h.active.bare
    (by rw [h.active.segment, List.length_map, List.length_append, List.length_singleton])
  obtain ⟨shelves', on⟩ := started.shelves shelves
  refine ⟨v', { log with active, ledger := (log.ledger.count .flushed).count .created }, _,
    log.config.reserve Header.size, ?_, shelves', ⟨h.directory, h.bounded, on, rfl⟩, rfl, rfl⟩
  rw [rotated, show active.segment = older.length + 1 by simp [on.segment]]

/-! ## Writing -/

section
variable {id : ContentId} {image : Image} {frame : Bytes}

/-- A frame is put behind the others. -/
theorem put_run {record : Record} (h : log.WritesTo place older (id, image))
    (shelves : place.Shelves v removed (older ++ [(id, image)]))
    (decoded : Frame.decode log.format frame = .ok record)
    (fits : image.stop + frame.length ≤ Pointer.maxOffset) :
    ∃ v' log', put frame (v, log) = .ok ⟨older.length, image.stop, frame.length⟩ (v', log') ∧
      place.Shelves v' removed (older ++ [(id, image.push frame record)]) ∧
      log'.WritesTo place older (id, image.push frame record) ∧
      log'.ledger.pins = log.ledger.pins := by
  obtain ⟨segment, content, bare, position⟩ := h.active
  dsimp only at content position
  have some_bytes : frame ≠ [] := by
    rintro rfl
    exact absurd (Frame.leadSize_le_of_decode decoded) (by decide)
  obtain ⟨sound, n, zeros⟩ := shelves.sound _ (List.mem_append_right _ List.mem_cons_self)
  have stored := shelves.stored _ (List.mem_append_right _ List.mem_cons_self)
  dsimp only at stored zeros
  obtain ⟨store, done, content', bare'⟩ := put_bare bare v some_bytes (position ▸ fits)
  rw [content, position, stored, image.overwrite_stop, ← Image.bytes_push record, segment] at done
  have shelves' := shelves.write
    (Image.sound_push sound (h.format ▸ decoded) fits)
    (show (image.push frame record).Blank from
      ⟨n - frame.length, by rw [Image.push, zeros, List.drop_replicate]⟩)
  refine ⟨_, _, done, shelves', ?_, rfl⟩
  exact ⟨h.directory, h.bounded,
    ⟨rfl, content'.trans content, bare', (Image.stop_push record).symm⟩, h.format⟩

theorem put_refused (h : log.WritesTo place older (id, image))
    (beyond : Pointer.maxOffset < image.stop + frame.length) (v : Volume) :
    ∃ e, put frame (v, log) = .error e (v, log) :=
  put_bare_beyond (h.active.position ▸ beyond) v

end

/-! ## Calls -/

/-- The log is on a shelf from which so many segments were removed. -/
def Stands (place : Place) (removed : ℕ) (s : Volume × Log) (shelf : Shelf) : Prop :=
  ∃ older newest, shelf = older ++ [newest] ∧ s.2.WritesTo place older newest ∧
    place.Shelves s.1 removed shelf

theorem Stands.segments {s : Volume × Log} (h : Stands place removed s shelf) :
    s.2.segments s.1 = .ok (List.range' removed (shelf.length - removed)) := by
  obtain ⟨older, newest, rfl, writes, shelves⟩ := h
  rw [Log.segments, writes.directory]
  exact shelves.list

/-- A call that removes no segment and starts at most so many has got the log from one shelf to
another. -/
structure Passes (place : Place) (removed started : ℕ) (s s' : Volume × Log)
    (shelf shelf' : Shelf) : Prop where
  stands : Stands place removed s' shelf'
  extended : shelf.Extends shelf'
  few : shelf'.length ≤ shelf.length + started
  format : s'.2.format = s.2.format
  pins : s'.2.ledger.pins = s.2.ledger.pins

section
variable {s s' s'' : Volume × Log} {shelf' shelf'' : Shelf} {started started' : ℕ}

theorem Stands.passes_self (h : Stands place removed s shelf) :
    Passes place removed 0 s s shelf shelf :=
  ⟨h, .refl _, Nat.le_refl _, rfl, rfl⟩

theorem Passes.trans (h : Passes place removed started s s' shelf shelf')
    (h' : Passes place removed started' s' s'' shelf' shelf'') :
    Passes place removed (started + started') s s'' shelf shelf'' := by
  have := h.few
  have := h'.few
  exact ⟨h'.stands, h.extended.trans h'.extended, by omega, h'.format.trans h.format,
    h'.pins.trans h.pins⟩

theorem flush_passes (h : Stands place removed s shelf) :
    ∃ s', flush s = .ok () s' ∧ Passes place removed 0 s s' shelf shelf := by
  obtain ⟨older, newest, rfl, writes, shelves⟩ := h
  exact ⟨_, flush_run writes s.1, ⟨older, newest, rfl, writes.withLedger _, shelves⟩, .refl _,
    Nat.le_refl _, rfl, rfl⟩

theorem rotate_passes (h : Stands place removed s shelf) (room : Place.Room (shelf.length + 1)) :
    ∃ k s' shelf', rotate s = .ok k s' ∧ Passes place removed 1 s s' shelf shelf' ∧
      shelf'.items = shelf.items := by
  obtain ⟨older, newest, rfl, writes, shelves⟩ := h
  obtain ⟨v', log', id, n, rotated, shelves', writes', format, pins⟩ := rotate_run writes shelves
    (by rwa [List.length_append, List.length_singleton] at room)
  refine ⟨_, _, _, rotated,
    ⟨⟨_, _, rfl, writes', shelves'⟩, Shelf.extends_concat .., ?_, format, pins⟩, ?_⟩
  · rw [List.length_append]
    rfl
  · rw [Shelf.items_concat]
    exact List.append_nil _

/-- What comes of an append: the record is behind the others, or there is none more. -/
def Appends (x : LogM Pointer) (place : Place) (removed started : ℕ) (s : Volume × Log)
    (shelf : Shelf) (record : Record) : Prop :=
  ∃ s' shelf', Passes place removed started s s' shelf shelf' ∧
    ((∃ p, x s = .ok p s' ∧ shelf'.items = shelf.items ++ [(p, record)]) ∨
      ∃ e, x s = .error e s' ∧ shelf'.items = shelf.items)

theorem put_appends {frame : Bytes} {record : Record} (h : Stands place removed s shelf)
    (decoded : Frame.decode s.2.format frame = .ok record) :
    Appends (put frame) place removed 0 s shelf record := by
  obtain ⟨older, ⟨id, image⟩, rfl, writes, shelves⟩ := h
  by_cases beyond : Pointer.maxOffset < image.stop + frame.length
  · obtain ⟨e, refused⟩ := put_refused writes beyond s.1
    exact ⟨s, _, Stands.passes_self ⟨older, _, rfl, writes, shelves⟩, .inr ⟨e, refused, rfl⟩⟩
  · obtain ⟨v', log', done, shelves', writes', pins⟩ :=
      put_run writes shelves decoded (Nat.le_of_not_lt beyond)
    refine ⟨_, _, ⟨⟨older, _, rfl, writes', shelves'⟩, Shelf.extends_push .., by simp,
      writes'.format.trans writes.format.symm, pins⟩, .inl ⟨_, done, ?_⟩⟩
    rw [Shelf.items_concat, Shelf.items_concat, Image.items_push, List.append_assoc]

theorem rotate_put_appends {frame : Bytes} {record : Record} (h : Stands place removed s shelf)
    (room : Place.Room (shelf.length + 1)) (decoded : Frame.decode s.2.format frame = .ok record) :
    Appends (rotate >>= fun _ => put frame) place removed 1 s shelf record := by
  obtain ⟨k, s₁, shelf₁, rotated, passes, items⟩ := rotate_passes h room
  obtain ⟨s', shelf', passes', outcome⟩ :=
    put_appends passes.stands (passes.format ▸ decoded)
  refine ⟨s', shelf', passes.trans passes', ?_⟩
  rwa [run_bind_of_ok rotated, ← items]

theorem write_appends {record : Record} (h : Stands place removed s shelf)
    (room : Place.Room (shelf.length + 1)) (wf : record.WellFormed) :
    Appends (write record) place removed 1 s shelf record := by
  unfold Appends
  rcases write_cases record s with ⟨e, refused, -⟩ | ⟨frame, -, encoded, written⟩
  · exact ⟨s, shelf, ⟨h, .refl _, Nat.le_succ _, rfl, rfl⟩, .inr ⟨e, refused, rfl⟩⟩
  have decoded := Frame.decode_encode wf encoded
  rw [written]
  cases s.2.overflows frame.length with
  | false =>
      obtain ⟨s', shelf', passes, outcome⟩ := put_appends h decoded
      rw [if_neg Bool.false_ne_true]
      exact ⟨s', shelf', ⟨passes.stands, passes.extended, Nat.le_succ_of_le passes.few,
        passes.format, passes.pins⟩, outcome⟩
  | true =>
      rw [if_pos rfl]
      exact rotate_put_appends h room decoded

/-- An append puts the record behind the others, or it fails and there is none more. -/
theorem append_appends {record : Record} (h : Stands place removed s shelf)
    (room : Place.Room (shelf.length + 1)) (wf : record.WellFormed) :
    Appends (append record) place removed 1 s shelf record := by
  obtain ⟨s₁, shelf₁, passes, outcome⟩ := write_appends h room wf
  unfold Appends
  rcases outcome with ⟨p, written, items⟩ | ⟨e, failed, items⟩
  · rw [append_of_ok written]
    cases s₁.2.config.syncOnWrite with
    | false => exact ⟨s₁, shelf₁, passes, .inl ⟨p, rfl, items⟩⟩
    | true =>
        obtain ⟨s₂, flushed, passes'⟩ := flush_passes passes.stands
        rw [if_pos rfl, run_bind_of_ok flushed]
        exact ⟨s₂, shelf₁, passes.trans passes', .inl ⟨p, rfl, items⟩⟩
  · exact ⟨s₁, shelf₁, passes, .inr ⟨e, append_of_error failed, items⟩⟩

end

/-! ## Releasing -/

/-- A segment that nobody holds is removed, and the pins stay. -/
theorem remove_run {s : Volume × Log} (h : Stands place removed s shelf)
    (lt : removed + 1 < shelf.length) :
    ∃ v', (liftM (s.2.directory.remove removed) : LogM Unit) s = .ok () (v', s.2) ∧
      Stands place (removed + 1) (v', { s.2 with ledger := s.2.ledger.count .removed }) shelf := by
  obtain ⟨older, newest, rfl, writes, shelves⟩ := h
  obtain ⟨v', done, shelves'⟩ := shelves.remove lt
  refine ⟨v', LogM.run_lift_of_ok ?_ s.2, older, newest, rfl, writes.withLedger _, shelves'⟩
  rw [writes.directory]
  exact done

/-- A release up to a limit has got the log from one state to another. -/
structure Releases (place : Place) (removed limit : ℕ) (s s' : Volume × Log) (shelf : Shelf) :
    Prop where
  stands : ∃ removed', Stands place removed' s' shelf ∧ removed ≤ removed' ∧
    removed' ≤ max removed limit
  pins : s'.2.ledger.pins = s.2.ledger.pins

theorem Stands.releases_self {s : Volume × Log} (h : Stands place removed s shelf) (limit : ℕ) :
    Releases place removed limit s s shelf :=
  ⟨⟨removed, h, Nat.le_refl _, Nat.le_max_left _ _⟩, rfl⟩

theorem removeBelow_releases {s : Volume × Log} {limit : ℕ} (h : Stands place removed s shelf)
    (limited : limit < shelf.length) (count : ℕ) :
    Releases place removed limit s (final (removeBelow limit (List.range' removed count)) s)
      shelf := by
  induction count generalizing s removed with
  | zero => exact h.releases_self limit
  | succ count ih =>
      have getLog : LogM.getLog s = .ok s.2 s := rfl
      rw [List.range'_succ, removeBelow]
      by_cases reached : limit ≤ removed
      · rw [if_pos reached]
        exact h.releases_self limit
      rw [if_neg reached, final_bind_of_ok getLog]
      by_cases pinned : s.2.ledger.pins.isPinned removed = true
      · rw [if_pos pinned]
        exact h.releases_self limit
      obtain ⟨v', done, stands⟩ := remove_run h (by omega)
      have counted : LogM.enter (·.count .removed) (v', s.2) =
        .ok () (v', { s.2 with ledger := s.2.ledger.count .removed }) := rfl
      obtain ⟨⟨removed', stands', le, below⟩, pins⟩ := ih stands
      rw [if_neg pinned, final_bind_of_ok done, final_bind_of_ok counted, final_bind_pure]
      exact ⟨⟨removed', stands', by omega, by omega⟩, pins⟩

theorem Stands.releaseLimit_lt {s : Volume × Log} (h : Stands place removed s shelf)
    (segment : ℕ) : s.2.releaseLimit segment < shelf.length := by
  obtain ⟨older, newest, rfl, writes, -⟩ := h
  have := writes.active.segment
  rw [List.length_append, List.length_singleton]
  unfold releaseLimit
  cases s.2.ledger.pins.lowest? with
  | none =>
      dsimp only [Option.elim]
      omega
  | some lowest =>
      dsimp only [Option.elim]
      omega

/-- Only segments that nobody holds are released, and never the newest one. -/
theorem releaseBefore_releases {s : Volume × Log} (h : Stands place removed s shelf)
    (segment : ℕ) :
    Releases place removed (s.2.releaseLimit segment) s (final (releaseBefore segment) s)
      shelf := by
  have listed := LogM.read_of_ok (f := fun v log => log.segments v) h.segments
  unfold releaseBefore
  rw [final_bind_of_ok (show LogM.getLog s = .ok s.2 s from rfl), final_bind_of_ok listed]
  exact removeBelow_releases h (h.releaseLimit_lt segment) _

/-! ## Opening -/

/-- There is nothing to be cut off. -/
theorem Sealing.eq_self {v₁ : Volume} (h : place.Shelves v removed shelf)
    (seals : Sealing v (shelf.map (·.1)) v₁) : v₁ = v := by
  generalize same : shelf.map (·.1) = ids at seals
  cases seals with
  | none_there => rfl
  | @newest _ _ f kept items header sealed_ =>
      obtain ⟨older, rest, rfl, -, last⟩ := List.map_eq_append_iff.mp same
      obtain ⟨⟨id, image⟩, rfl, rfl⟩ := List.map_eq_singleton_iff.mp last
      have mem : (id, image) ∈ older ++ [(id, image)] := List.mem_append_right _ List.mem_cons_self
      have stored : v.bytes id = image.bytes := h.stored _ mem
      obtain ⟨sound, blank⟩ := h.sound _ mem
      dsimp only at header sealed_ ⊢
      rw [stored] at header sealed_
      obtain ⟨stop, run, ⟨-, rfl⟩ | ⟨goes_on, -⟩⟩ := sealed_
      · rw [← stored, Volume.setBytes_self]
      · obtain ⟨fault, why⟩ := run.ends_or_damaged.resolve_left goes_on
        have damaged := Segment.scan_of_damage run why
        cases (Header.decode_eq_ok_iff.mpr header).symm.trans image.header
        rw [Image.scan_blank sound blank] at damaged
        cases damaged

/-- What comes of opening the log behind a shelf: it is on a fresh segment, and nobody holds
anything, or nothing was done. -/
theorem openIn_cases (h : place.Shelves v removed shelf) (room : Place.Room (shelf.length + 1))
    (c : Config) :
    (∃ v' log e, openIn { place } c v = .ok log v' ∧
      Stands place removed (v', log) (shelf ++ [e]) ∧ (shelf ++ [e]).items = shelf.items ∧
      log.ledger.pins = []) ∨
    ∃ fault, openIn { place } c v = .error fault v := by
  refine (openIn_kept h.keeps (by rwa [List.length_map]) c).imp_left ?_
  rintro ⟨v₁, v', log, opened, seals, started, directory, config, -, bounded, pins⟩
  cases Sealing.eq_self h seals
  obtain ⟨shelves, on⟩ := started.shelves h
  refine ⟨v', log, _, opened, ⟨shelf, _, rfl, ⟨directory, config ▸ bounded, on, rfl⟩, shelves⟩,
    ?_, pins⟩
  rw [Shelf.items_concat]
  exact List.append_nil _

end Log
end SegmentLog
