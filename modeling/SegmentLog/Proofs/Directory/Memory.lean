import SegmentLog.Proofs.Reader.Unbuffered

/-!
# Reading segments of a directory

Opening a segment and reading one record of it, said in terms of the bytes that the directory
stores for it. In memory these are the contents that the segment is listed with.
-/
namespace SegmentLog

/-- The bytes of a segment that is kept in memory. -/
def Volume.segment? (v : Volume) (index : ℕ) : Option Bytes := (v.segments.get? index).map v.bytes

namespace Directory
variable {d : Directory} {v : Volume} {index : ℕ} {bs : Bytes}

/-- The directory opens the segment on these bytes. -/
def Stores (d : Directory) (v : Volume) (index : ℕ) (bs : Bytes) : Prop :=
  ∃ store, d.openRead v index = .ok store ∧ Reader.Holds store v bs

theorem stores_memory (hd : d.place = .memory) (h : v.segment? index = some bs) :
    d.Stores v index bs := by
  obtain ⟨content, hc, rfl⟩ := Option.map_eq_some_iff.mp h
  refine ⟨{ content, handle := .memory true }, ?_, rfl, ?_⟩
  · simp only [openRead, hd, Place.openSegment, hc]
  · intro offset len within
    simp only [Store.readAt, Handle.readAt, Handle.size]
    rw [if_neg (by omega), if_neg (by omega)]

theorem openReader_of_error (h : d.Stores v index bs) {fault : HeaderFault}
    (header : Header.decode bs = .error fault) (bufferSize start : ℕ) :
    d.openReader v bufferSize index start = .error (.header index fault) := by
  obtain ⟨store, opened, holds⟩ := h
  simp only [openReader, opened, bind, Except.bind]
  exact Reader.openAt_of_error holds header ..

theorem openReader_of_ok (h : d.Stores v index bs) {f : Format}
    (header : Header.decode bs = .ok f) (start : ℕ) (hs : max start Header.size ≤ bs.length)
    (bufferSize : ℕ) :
    ∃ r, d.openReader v bufferSize index start = .ok r ∧ r.On v bs ∧ r.segment = index ∧
      r.format = f ∧ r.position = max start Header.size := by
  obtain ⟨store, opened, holds⟩ := h
  simp only [openReader, opened, bind, Except.bind]
  exact Reader.openAt_of_ok holds header start hs ..

theorem openReader_of_past (h : d.Stores v index bs) {f : Format}
    (header : Header.decode bs = .ok f) {start : ℕ} (past : bs.length < start)
    (bufferSize : ℕ) :
    d.openReader v bufferSize index start =
      .error (.argument (.startPastEnd start index bs.length)) := by
  obtain ⟨store, opened, holds⟩ := h
  simp only [openReader, opened, bind, Except.bind]
  exact Reader.openAt_of_past holds header past ..

/-- Where a segment opens, the answer is what its bytes hold at the pointer, but never before the
end of the header. -/
theorem readRecord_of_header {p : Pointer} (h : d.Stores v p.segment bs) {f : Format}
    (header : Header.decode bs = .ok f) (within : p.offset ≤ bs.length) (bufferSize : ℕ) :
    d.readRecord v bufferSize p =
      match Segment.read f p.segment bs (max p.offset Header.size) with
      | .record found record =>
        if found.address = p.address then .ok record else .error (.atPointer p .noRecordHere)
      | .damaged fault => .error (.record p.segment (max p.offset Header.size) fault)
      | .finish => .error (.atPointer p .noRecordHere) := by
  obtain ⟨r, opened, on, segment, rfl, position⟩ := openReader_of_ok h header p.offset
    (Nat.max_le.mpr ⟨within, Header.size_le_of_decode header⟩) bufferSize
  obtain ⟨r', next, after⟩ := Reader.next_spec on
  rw [segment] at next after
  rw [← position]
  simp only [readRecord, opened, next, Except.mapError, bind, Except.bind]
  cases there : Segment.read r.format p.segment bs r.position with
  | record found record => rfl
  | finish => rfl
  | damaged fault =>
      rw [there] at after
      dsimp only
      rw [after.segment, segment, (after.stopped (by simp)).1]
      rfl

theorem readRecord_of_error {p : Pointer} (h : d.Stores v p.segment bs) {fault : HeaderFault}
    (header : Header.decode bs = .error fault) (bufferSize : ℕ) :
    d.readRecord v bufferSize p = .error (.header p.segment fault) := by
  rw [readRecord, openReader_of_error h header]
  rfl

theorem readRecord_of_past {p : Pointer} (h : d.Stores v p.segment bs) {f : Format}
    (header : Header.decode bs = .ok f) (past : bs.length < p.offset) (bufferSize : ℕ) :
    d.readRecord v bufferSize p =
      .error (.argument (.startPastEnd p.offset p.segment bs.length)) := by
  rw [readRecord, openReader_of_past h header past]
  rfl

/-- A record that the bytes hold at an offset is read through a pointer to the offset. -/
theorem readRecord_of_read {p found : Pointer} (h : d.Stores v p.segment bs) {f : Format}
    (header : Header.decode bs = .ok f)
    (hp : Header.size ≤ p.offset) {record : Record}
    (at_offset : Segment.read f p.segment bs p.offset = .record found record) (bufferSize : ℕ) :
    d.readRecord v bufferSize p = .ok record := by
  obtain ⟨segment, offset, -, within, -⟩ := Segment.read_eq_record at_offset
  rw [readRecord_of_header h header (by omega), Nat.max_eq_left hp, at_offset]
  exact if_pos (by rw [Pointer.address, segment, offset]; rfl)

/-- Damage that the bytes have at an offset is reported through a pointer to the offset. -/
theorem readRecord_of_damage {p : Pointer} (h : d.Stores v p.segment bs) {f : Format}
    (header : Header.decode bs = .ok f)
    (hp : Header.size ≤ p.offset) (within : p.offset ≤ bs.length) {fault : RecordFault}
    (at_offset : Segment.read f p.segment bs p.offset = .damaged fault) (bufferSize : ℕ) :
    d.readRecord v bufferSize p = .error (.record p.segment p.offset fault) := by
  rw [readRecord_of_header h header within, Nat.max_eq_left hp, at_offset]

/-- A record that is read through a pointer is what the bytes hold at its offset, behind the
header. -/
theorem readRecord_eq_ok {p : Pointer} (h : d.Stores v p.segment bs) {bufferSize : ℕ}
    {record : Record} (ok : d.readRecord v bufferSize p = .ok record) :
    ∃ f found, Header.decode bs = .ok f ∧ Header.size ≤ p.offset ∧
      Segment.read f p.segment bs p.offset = .record found record := by
  cases header : Header.decode bs with
  | error fault =>
      rw [readRecord_of_error h header] at ok
      cases ok
  | ok f =>
      by_cases past : bs.length < p.offset
      · rw [readRecord_of_past h header past] at ok
        cases ok
      rw [readRecord_of_header h header (Nat.le_of_not_lt past)] at ok
      cases there : Segment.read f p.segment bs (max p.offset Header.size) with
      | record found record' =>
          obtain ⟨-, offset, -⟩ := Segment.read_eq_record there
          simp only [there] at ok
          split at ok
          · rename_i same
            cases ok
            -- the reader moves on to the end of the header, and the pointer does not
            have here : max p.offset Header.size = p.offset :=
              offset.symm.trans (congrArg Address.offset same)
            exact ⟨f, found, rfl, by omega, here ▸ there⟩
          · cases ok
      | finish =>
          simp only [there] at ok
          cases ok
      | damaged fault =>
          simp only [there] at ok
          cases ok

end Directory
end SegmentLog
