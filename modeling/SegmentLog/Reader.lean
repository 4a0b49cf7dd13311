import SegmentLog.Directory
import SegmentLog.Frame

/-!
# Reading a segment

A reader goes through the records of one segment. It samples the size of the segment when it is
opened and fetches bytes in portions into a buffer, so what is appended later stays unseen and a
change is seen only where it was not yet fetched.

A segment ends at its sampled size or where a record would start with a zero byte. Anything else
that is not a record is damage. After the end, or damage, the reader stays at its position and
reports the end.
-/

namespace SegmentLog

/-- What a reader finds at its position. -/
inductive Outcome
  | record (pointer : Pointer) (record : Record)
  | finish
  | damaged (fault : RecordFault)
deriving DecidableEq, Repr

structure Reader where
  segment : Nat
  store : Store
  format : Format
  /-- Size of the segment when the reader was opened. -/
  size : Nat
  position : Nat
  /-- Bytes from `position` on that have been fetched. -/
  buffered : Bytes
  /-- How many bytes the buffer holds without growing. -/
  capacity : Nat
  finished : Bool
deriving DecidableEq, Repr

namespace Reader

/-- Open a reader before the record at `start`, or before the first record if `start` lies in the
header. -/
def openAt (v : Volume) (segment : Nat) (store : Store) (start bufferSize : Nat) :
    Except Error Reader := do
  let size := store.size v
  let head ← (store.readAt v 0 (min size Header.size)).mapError .storage
  let format ← (Header.decode head).mapError (.header segment)
  let position := max start Header.size
  if size < position then
    throw (.argument (.startPastEnd start segment size))
  return { segment, store, format, size, position,
           buffered := [], capacity := max bufferSize Frame.leadSize, finished := false }

/-- The least power of two that is not below `n`. -/
def powerFrom (n : Nat) : Nat := if n ≤ 1 then 1 else 1 <<< ((n - 1).log2 + 1)

theorem le_powerFrom (n : Nat) : n ≤ powerFrom n := by
  have := Nat.lt_log2_self (n := n - 1)
  unfold powerFrom
  rw [Nat.one_shiftLeft]
  split <;> omega

/-- The size of a buffer for `n` bytes; it grows for a record that is larger than it. -/
def capacityFor (r : Reader) (n : Nat) : Nat :=
  if r.capacity < n then powerFrom n else r.capacity

theorem le_capacityFor (r : Reader) (n : Nat) : n ≤ r.capacityFor n := by
  unfold capacityFor
  split
  · exact le_powerFrom n
  · omega

/-- Fetch until `n` bytes are there, if the segment has that many left. -/
def fill (v : Volume) (r : Reader) (n : Nat) : Except StorageFault (Option Reader) :=
  let unread := r.size - r.position
  if n ≤ r.buffered.length then .ok (some r)
  else if unread < n then .ok none
  else
    let missing := min (r.capacityFor n - r.buffered.length) (unread - r.buffered.length)
    match r.store.readAt v (r.position + r.buffered.length) missing with
    | .ok bs => .ok (some { r with capacity := r.capacityFor n, buffered := r.buffered ++ bs })
    | .error fault => .error fault

/-- Report damage and stop. -/
def damage (r : Reader) (fault : RecordFault) : Outcome × Reader :=
  (.damaged fault, { r with finished := true })

/-- Report the end and stop. -/
def stop (r : Reader) : Outcome × Reader :=
  (.finish, { r with finished := true })

/-- Read a frame of `n` bytes that lies within the segment. -/
def readFrame (v : Volume) (r : Reader) (n : Nat) : Except StorageFault (Outcome × Reader) := do
  let some r ← r.fill v n | return r.damage .truncatedFrame
  match Frame.decode r.format (r.buffered.take n) with
  | .error fault => return r.damage fault
  | .ok record =>
    return (.record ⟨r.segment, r.position, n⟩ record,
      { r with position := r.position + n, buffered := r.buffered.drop n })

/-- Read the record at the current position. -/
def next (v : Volume) (r : Reader) : Except StorageFault (Outcome × Reader) := do
  if r.finished ∨ r.size ≤ r.position then
    return r.stop
  let some r ← r.fill v 1 | return r.stop
  if r.buffered.headD 0 = 0 then
    return r.stop
  let some r ← r.fill v Frame.leadSize | return r.damage .truncatedPrefix
  let n := Frame.size r.format (Frame.declared r.buffered)
  if r.size < r.position + n then
    return r.damage (.pastSegmentEnd n r.size)
  if Pointer.maxOffset < r.position + n then
    return r.damage .beyondAddressing
  r.readFrame v n

/-- Bytes from the position to the end of the segment. -/
def remaining (r : Reader) : Nat := r.size - r.position

theorem size_of_openAt {v : Volume} {segment start bufferSize : Nat} {store : Store} {r : Reader}
    (h : openAt v segment store start bufferSize = .ok r) : r.size = store.size v := by
  unfold openAt at h
  simp only [bind, Except.bind, pure, Except.pure] at h
  repeat' split at h
  all_goals simp_all
  subst h
  rfl

theorem fill_eq_some {v : Volume} {r r' : Reader} {n : Nat} (h : r.fill v n = .ok (some r')) :
    r'.size = r.size ∧ r'.position = r.position := by
  unfold fill at h
  grind

theorem readFrame_eq_record {v : Volume} {r r' : Reader} {n : Nat} {p : Pointer} {record : Record}
    (h : r.readFrame v n = .ok (.record p record, r')) :
    r'.size = r.size ∧ r'.position = r.position + n := by
  unfold readFrame at h
  cases hf : r.fill v n with
  | error fault => simp [hf, bind, Except.bind] at h
  | ok filled =>
    cases filled with
    | none => simp [hf, bind, Except.bind, pure, Except.pure, damage] at h
    | some s =>
      have hs := fill_eq_some hf
      cases hd : Frame.decode s.format (s.buffered.take n) with
      | error fault => simp [hf, hd, bind, Except.bind, pure, Except.pure, damage] at h
      | ok record' =>
        simp [hf, hd, bind, Except.bind, pure, Except.pure] at h
        obtain ⟨-, rfl⟩ := h
        exact ⟨hs.1, by simp [hs.2]⟩

/-- A record takes bytes off what remains, so reading a segment ends. -/
theorem remaining_lt_of_next {v : Volume} {r r' : Reader} {p : Pointer} {record : Record}
    (h : r.next v = .ok (.record p record, r')) : r'.remaining < r.remaining := by
  unfold next at h
  simp only [bind, Except.bind, pure, Except.pure] at h
  split at h
  · simp [stop] at h
  · cases h₁ : r.fill v 1 with
    | error fault => simp [h₁] at h
    | ok filled₁ =>
      cases filled₁ with
      | none => simp [h₁, stop] at h
      | some r₁ =>
        simp only [h₁] at h
        split at h
        · simp [stop] at h
        · cases h₂ : r₁.fill v Frame.leadSize with
          | error fault => simp [h₂] at h
          | ok filled₂ =>
            cases filled₂ with
            | none => simp [h₂, damage] at h
            | some r₂ =>
              simp only [h₂] at h
              split at h
              · simp [damage] at h
              · split at h
                · simp [damage] at h
                · have e₁ := fill_eq_some h₁
                  have e₂ := fill_eq_some h₂
                  have e₃ := readFrame_eq_record h
                  simp only [remaining, Frame.size, Frame.leadSize] at *
                  omega

/-- Go through all records; the answer is where damage was found, if there was any. -/
def firstDamage (v : Volume) (r : Reader) : Except StorageFault (Option Nat) :=
  match _h : r.next v with
  | .error fault => .error fault
  | .ok (.record _ _, r') => firstDamage v r'
  | .ok (.finish, _) => .ok none
  | .ok (.damaged _, r') => .ok (some r'.position)
termination_by r.remaining
decreasing_by exact remaining_lt_of_next _h

end Reader

namespace Directory

/-- Open a reader on a segment. -/
def openReader (d : Directory) (v : Volume) (bufferSize segment start : Nat) :
    Except Error Reader := do
  Reader.openAt v segment (← d.openRead v segment) start bufferSize

/-- The size of a segment, if it can be read. -/
def segmentSize (d : Directory) (v : Volume) (segment : Nat) : Nat :=
  (d.openRead v segment).toOption.elim 0 (·.size v)

theorem remaining_le_segmentSize {d : Directory} {v : Volume} {bufferSize segment start : Nat}
    {r : Reader} (h : d.openReader v bufferSize segment start = .ok r) :
    r.remaining ≤ d.segmentSize v segment := by
  unfold openReader at h
  cases ho : d.openRead v segment with
  | error error => simp [ho, bind, Except.bind] at h
  | ok store =>
    simp only [ho, bind, Except.bind] at h
    have hs := Reader.size_of_openAt h
    simp only [segmentSize, ho, Except.toOption, Option.elim, Reader.remaining, hs]
    omega

/-- Read the one record that starts exactly at a pointer. -/
def readRecord (d : Directory) (v : Volume) (bufferSize : Nat) (p : Pointer) :
    Except Error Record := do
  let reader ← d.openReader v bufferSize p.segment p.offset
  match ← (reader.next v).mapError .storage with
  | (.record found record, _) =>
    if found.address = p.address then return record
    else throw (.atPointer p .noRecordHere)
  | (.damaged fault, reader) => throw (.record reader.segment reader.position fault)
  | (.finish, _) => throw (.atPointer p .noRecordHere)

end Directory

end SegmentLog
