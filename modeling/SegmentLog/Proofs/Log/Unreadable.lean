import SegmentLog.Proofs.Frame.Stored
import SegmentLog.Proofs.Log.Write
import SegmentLog.Proofs.Session.Transcript

/-!
# Writing what cannot be read

A log does not look into the frames that it writes. If reading refuses the frame of a record, the
record is written all the same, and the frame stands behind all others as damage: the pointer to the
record leads to an error, and a session ends in front of it (`append_unreadable`).
-/
namespace SegmentLog

namespace Image
variable {i : Image} {frame : Bytes} {fault : RecordFault}

/-- A frame that reading refuses, behind the frames of an image. -/
theorem read_refused (whole : Frame.Whole i.format frame)
    (refused : Frame.decode i.format frame = .error fault)
    (fits : i.stop + frame.length ≤ Pointer.maxOffset) (segment : ℕ) (rest : Bytes) :
    Segment.read i.format segment (i.withTail (frame ++ rest)).bytes i.stop = .damaged fault := by
  rw [stop_eq] at fits
  rw [bytes_eq, stop_eq]
  refine (Segment.read_whole segment (Header.encode i.format ++ i.frames.bytes) whole fits).trans ?_
  rw [refused]

theorem scan_refused (sound : i.Sound) (whole : Frame.Whole i.format frame)
    (refused : Frame.decode i.format frame = .error fault)
    (fits : i.stop + frame.length ≤ Pointer.maxOffset) (segment : ℕ) (rest : Bytes) :
    Segment.scan i.format segment (i.withTail (frame ++ rest)).bytes Header.size =
      (i.items segment, some (i.stop, fault)) := by
  have header := Header.length_encode i.format
  have why := read_refused whole refused fits segment rest
  rw [bytes_eq, stop_eq] at why
  have found := Segment.scan_damaged segment (Header.encode i.format) sound.readable
    (by rw [header]; exact sound.fits) why
  rwa [header] at found

end Image

theorem Session.Delivers.transcript {d : Directory} {v : Volume} {bufferSize : ℕ}
    {items : List (Pointer × Record)} {ending : Ending}
    (h : Delivers (openRange d v bufferSize none none) v items ending) :
    Session.transcript d v bufferSize = .ok (items, ending.error?) := by
  obtain ⟨s, opened, found, ended⟩ := h
  rw [Session.transcript, opened]
  simp only [Except.map, found, ended]
  rfl

/-- Reading everything ends in front of a frame that reading refuses. -/
theorem Directory.Shows.transcript_refused {d : Directory} {v : Volume} {first : ℕ}
    {older : List Image} {image : Image} {frame rest : Bytes} {fault : RecordFault}
    (shows : d.Shows v (Image.numbered first (older ++ [image.withTail (frame ++ rest)])))
    (before : ∀ i ∈ older, i.Sound ∧ i.Blank) (sound : image.Sound)
    (whole : Frame.Whole image.format frame)
    (refused : Frame.decode image.format frame = .error fault)
    (fits : image.stop + frame.length ≤ Pointer.maxOffset) (bufferSize : ℕ) :
    Session.transcript d v bufferSize = .ok (Image.itemsFrom first (older ++ [image]), none) := by
  have last : Segment.scanAll [(first + older.length, (image.withTail (frame ++ rest)).bytes)] =
      (image.items (first + older.length), .tornTail) := by
    have scanned := Image.scan_refused sound whole refused fits (first + older.length) rest
    rw [Segment.scanAll_of_header (Image.header _)]
    change Segment.chain _ (Segment.scan image.format _ _ _) _ _ = _
    rw [scanned]
    rfl
  have drained := shows.drain bufferSize
  rw [Image.scanAll_concat before, last] at drained
  rw [drained.transcript, Image.itemsFrom_append, Image.itemsFrom, Image.itemsFrom, List.append_nil]
  rfl

/-- Behind the frames that hold these records stands another one, at this pointer. -/
def Volume.HoldsThen (v : Volume) (items : List (Pointer × Record)) (f : Format) (frame : Bytes)
    (p : Pointer) : Prop :=
  ∃ older image rest, v.Holds (older ++ [Image.withTail image (frame ++ rest)]) ∧
    (∀ i ∈ older, i.Sound ∧ i.Blank) ∧ image.Sound ∧ image.format = f ∧
    Image.itemsFrom 0 (older ++ [image]) = items ∧ p = ⟨older.length, image.stop, frame.length⟩ ∧
    image.stop + frame.length ≤ Pointer.maxOffset

namespace Volume
variable {v v' : Volume} {items : List (Pointer × Record)} {f : Format} {frame : Bytes}
  {p : Pointer} {d : Directory} {fault : RecordFault}

theorem HoldsThen.alike (h : v.HoldsThen items f frame p) (alike : v.Alike v') :
    v'.HoldsThen items f frame p := by
  obtain ⟨older, image, rest, holds, facts⟩ := h
  exact ⟨older, image, rest, holds.alike alike, facts⟩

/-- The pointer to a frame that reading refuses leads to an error. -/
theorem HoldsThen.readRecord (h : v.HoldsThen items f frame p) (place : d.place = .memory)
    (whole : Frame.Whole f frame) (refused : Frame.decode f frame = .error fault)
    (bufferSize : ℕ) :
    d.readRecord v bufferSize p = .error (.record p.segment p.offset fault) := by
  obtain ⟨older, image, rest, holds, -, -, rfl, -, rfl, fits⟩ := h
  have there := holds.segment? List.getElem?_concat_length
  apply Directory.readRecord_of_damage (Directory.stores_memory place there) (Image.header _)
  · exact Nat.le_add_right ..
  · exact (image.withTail (frame ++ rest)).stop_le
  · exact Image.read_refused whole refused fits older.length rest

/-- A session ends in front of a frame that reading refuses. -/
theorem HoldsThen.transcript (h : v.HoldsThen items f frame p) (place : d.place = .memory)
    (whole : Frame.Whole f frame) (refused : Frame.decode f frame = .error fault)
    (bufferSize : ℕ) : Session.transcript d v bufferSize = .ok (items, none) := by
  obtain ⟨older, image, rest, holds, before, sound, rfl, rfl, -, fits⟩ := h
  exact (holds.shows place).transcript_refused before sound whole refused fits bufferSize

end Volume

namespace Log
variable {log : Log} {v : Volume} {older : List Image} {image : Image} {frame : Bytes}
  {p : Pointer} {s : Volume × Log} {items : List (Pointer × Record)} {record : Record}

/-- Without a fuse a frame is put behind the others, whatever is in it. -/
theorem put_holdsThen (h : log.Laid v older image) (none_fuse : log.directory.fuse = none)
    (some_bytes : frame ≠ []) (done : put frame (v, log) = .ok p s) :
    s.1.HoldsThen (Image.itemsFrom 0 (older ++ [image])) log.format frame p ∧
      s.2.directory = log.directory := by
  have segment : log.active.segment = older.length := by rw [h.active]
  have position : log.active.position = image.stop := by rw [h.active]
  have store : log.active.store = ⟨older.length, .memory false, log.directory.fuse.toList⟩ := by
    rw [h.active]
  have bytes : v.bytes older.length = image.bytes := h.holds.bytes List.getElem?_concat_length
  unfold put at done
  rw [run_bind_of_ok (show LogM.getLog (v, log) = .ok log (v, log) from rfl)] at done
  dsimp only at done
  rw [segment, position] at done
  split at done
  · cases done
  rename_i fits
  have written := Directory.writeAt_cases h.wired older.length image.stop some_bytes
  rw [← store, bytes, image.overwrite_stop] at written
  rcases written with ⟨v₁, written, alike, -, -⟩ | ⟨v₁, landed, -, -, -, fused, -, -⟩
  · have step : (LogM.onActive fun v s => s.writeAt v image.stop frame) (v, log) =
        .ok () (_, log) := onActive_of_ok written
    rw [run_bind_of_ok step] at done
    cases done
    exact ⟨⟨older, image, _, (h.holds.alike alike).setBytes _, h.older, h.sound, h.format.symm, rfl,
      rfl, Nat.le_of_not_lt fits⟩, rfl⟩
  · rw [none_fuse] at fused
    cases fused

theorem write_holdsThen (h : Shows (v, log) items) (none_fuse : log.directory.fuse = none)
    (done : write record (v, log) = .ok p s) :
    ∃ frame, record.kind ≠ .header ∧ Frame.encode log.format record = .ok frame ∧
      s.1.HoldsThen items log.format frame p ∧ s.2.directory = log.directory := by
  obtain ⟨older, image, laid, rfl⟩ := h
  dsimp only at laid
  rcases write_cases record (v, log) with ⟨e, refused, -⟩ | ⟨frame, kind, encoded, written⟩
  · rw [refused] at done
    cases done
  dsimp only at encoded written
  have some_bytes : frame ≠ [] := by
    rintro rfl
    exact absurd (Frame.whole_of_encode encoded).lead (by decide)
  rw [written] at done
  refine ⟨frame, kind, encoded, ?_⟩
  split at done
  · obtain ⟨k, s₁, rotated, done⟩ := run_bind_eq_ok.mp done
    rcases rotate_cases laid with
      ⟨v₁, log₁, n, rotated', laid₁, follows, -⟩ | ⟨v₁, e, failed, -⟩
    · cases rotated.symm.trans rotated'
      have directory : log₁.directory = log.directory := follows.directory
      have put_ := put_holdsThen laid₁ (directory ▸ none_fuse) some_bytes done
      rw [itemsFrom_fresh, follows.format, directory] at put_
      exact put_
    · rw [failed] at rotated
      cases rotated
  · exact put_holdsThen laid none_fuse some_bytes done

/-- A flush writes no record. -/
theorem flush_alike (done : flush (v, log) = .ok () s) :
    v.Alike s.1 ∧ s.2.directory = log.directory := by
  unfold flush at done
  rw [run_bind_of_ok (show LogM.getLog (v, log) = .ok log (v, log) from rfl)] at done
  obtain ⟨_, s₁, first, done⟩ := run_bind_eq_ok.mp done
  obtain ⟨v₁, flushed, rfl⟩ := LogM.run_lift_eq_ok.mp first
  obtain ⟨_, s₂, second, done⟩ := run_bind_eq_ok.mp done
  obtain ⟨v₂, synced, rfl⟩ := LogM.run_lift_eq_ok.mp second
  cases done
  refine ⟨Volume.Alike.trans ?_ (Store.alike_of_sync (VolumeM.attempt_eq_ok.mp synced)), rfl⟩
  exact Store.alike_of_flush (VolumeM.attempt_eq_ok.mp flushed)

/-- A record that cannot be read is appended like any other, but it is not read back, and a session
gives no more than the records in front of it. -/
theorem append_unreadable (h : Shows (v, log) items) (none_fuse : log.directory.fuse = none)
    (unreadable : ¬record.Readable) (done : append record (v, log) = .ok p s) :
    ∃ fault, ∀ bufferSize,
      s.2.directory.readRecord s.1 bufferSize p = .error (.record p.segment p.offset fault) ∧
        Session.transcript s.2.directory s.1 bufferSize = .ok (items, none) := by
  have memory : log.directory.place = .memory := by
    obtain ⟨older, image, laid, -⟩ := h
    exact laid.place
  unfold append at done
  obtain ⟨p', ⟨v₁, log₁⟩, written, done⟩ := run_bind_eq_ok.mp done
  obtain ⟨frame, kind, encoded, holds, directory⟩ := write_holdsThen h none_fuse written
  have whole := Frame.whole_of_encode encoded
  obtain ⟨fault, refused⟩ := Frame.decode_of_unreadable kind unreadable encoded
  have after : p = p' ∧ v₁.Alike s.1 ∧ s.2.directory = log.directory := by
    rw [run_bind_of_ok (show LogM.getLog (v₁, log₁) = .ok log₁ (v₁, log₁) from rfl)] at done
    split at done
    · obtain ⟨_, s₂, flushed, done⟩ := run_bind_eq_ok.mp done
      cases done
      obtain ⟨alike, same⟩ := flush_alike flushed
      exact ⟨rfl, alike, same.trans directory⟩
    · cases done
      exact ⟨rfl, .refl _, directory⟩
  obtain ⟨rfl, alike, directory⟩ := after
  have holds := holds.alike alike
  rw [directory]
  refine ⟨fault, fun bufferSize => ⟨?_, ?_⟩⟩
  · exact holds.readRecord memory whole refused bufferSize
  · exact holds.transcript memory whole refused bufferSize

end Log
end SegmentLog
