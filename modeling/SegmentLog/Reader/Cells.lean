import SegmentLog.Reader

/-!
# The buffer of a reader, cell by cell

What a reader has fetched is in a row of cells: those before `low` have been read, those from `high`
on hold nothing that was fetched. To fetch more, the reader moves what is unread to the front of the
row, makes the row longer if a frame does not fit in, and fills it up. `Reader` says the same with
what is unread as `buffered` and the length of the row as `capacity`.

Every access is checked here. One outside of the row traps, and so does a difference below zero.
-/

namespace SegmentLog

/-- Why reading breaks off. -/
inductive Trap
  | outOfRange
  | belowZero
  | failed (fault : StorageFault)
deriving DecidableEq, Repr

namespace Trap

def minus (a b : Nat) : Except Trap Nat :=
  if b ≤ a then .ok (a - b) else .error .belowZero

/-- The byte in a cell. -/
def cell (cells : Bytes) (i : Nat) : Except Trap UInt8 :=
  match cells[i]? with
  | some b => .ok b
  | none => .error .outOfRange

/-- The bytes in the cells from `start` up to `stop`. -/
def range (cells : Bytes) (start stop : Nat) : Except Trap Bytes :=
  if start ≤ stop ∧ stop ≤ cells.length then .ok (cells.slice start (stop - start))
  else .error .outOfRange

/-- Put bytes into the cells from `start` on. -/
def put (cells : Bytes) (start : Nat) (data : Bytes) : Except Trap Bytes :=
  if start + data.length ≤ cells.length then
    .ok (cells.take start ++ data ++ cells.drop (start + data.length))
  else .error .outOfRange

end Trap

structure CellReader where
  segment : Nat
  store : Store
  format : Format
  /-- Size of the segment when the reader was opened. -/
  size : Nat
  position : Nat
  cells : Bytes
  /-- The cell of the byte at `position`. -/
  low : Nat
  /-- The cell that the next fetched byte belongs in. -/
  high : Nat
  finished : Bool
deriving DecidableEq, Repr

namespace CellReader

/-- The bytes that were fetched and not yet read. -/
def unread (r : CellReader) : Bytes := (r.cells.take r.high).drop r.low

/-- Open a reader with as many zeros in its cells as `Reader` has room for. -/
def openAt (v : Volume) (segment : Nat) (store : Store) (start bufferSize : Nat) :
    Except Error CellReader := do
  let r ← Reader.openAt v segment store start bufferSize
  return { segment, store, format := r.format, size := r.size, position := r.position,
           cells := List.replicate r.capacity 0, low := 0, high := 0, finished := false }

/-- Bring the unread bytes, of which there are `available`, to the front of the row. -/
def compact (r : CellReader) (available : Nat) : Except Trap CellReader := do
  let cells ←
    if 0 < r.low ∧ 0 < available then Trap.put r.cells 0 (← Trap.range r.cells r.low r.high)
    else pure r.cells
  return { r with cells, low := 0, high := available }

/-- Make the row longer if it has less than `n` cells. -/
def grow (r : CellReader) (n : Nat) : CellReader :=
  if r.cells.length < n then { r with cells := r.cells.resize (Reader.powerFrom n) } else r

/-- Fetch `len` bytes into the cells that hold nothing. -/
def fetch (v : Volume) (r : CellReader) (len : Nat) : Except Trap CellReader := do
  if len = 0 then return r
  let data ← (r.store.readAt v (r.position + r.high) len).mapError .failed
  return { r with cells := ← Trap.put r.cells r.high data, high := r.high + data.length }

/-- Fetch until `n` bytes are there; the answer is whether they are. -/
def ensure (v : Volume) (r : CellReader) (n : Nat) : Except Trap (Bool × CellReader) := do
  let available ← Trap.minus r.high r.low
  if n ≤ available then return (true, r)
  let left ← Trap.minus r.size r.position
  if left < n then return (false, r)
  let r := (← r.compact available).grow n
  let room ← Trap.minus r.cells.length r.high
  let r ← r.fetch v (min room (← Trap.minus left available))
  return (decide (n ≤ (← Trap.minus r.high r.low)), r)

def damage (r : CellReader) (fault : RecordFault) : Outcome × CellReader :=
  (.damaged fault, { r with finished := true })

def stop (r : CellReader) : Outcome × CellReader :=
  (.finish, { r with finished := true })

/-- Read a frame of `n` bytes that lies within the segment. A pointer has 32 bits for the offset and
the length. -/
def readFrame (v : Volume) (r : CellReader) (n : Nat) : Except Trap (Outcome × CellReader) := do
  let (enough, r) ← r.ensure v n
  if !enough then return r.damage .truncatedFrame
  match Frame.decode r.format (← Trap.range r.cells r.low (r.low + n)) with
  | .error fault => return r.damage fault
  | .ok record =>
    return (.record ⟨r.segment, r.position % UInt32.size, n % UInt32.size⟩ record,
      { r with position := r.position + n, low := r.low + n })

/-- Read the record at the current position. -/
def next (v : Volume) (r : CellReader) : Except Trap (Outcome × CellReader) := do
  if r.finished ∨ r.size ≤ r.position then
    return r.stop
  let (_, r) ← r.ensure v 1
  if (← Trap.cell r.cells r.low) = 0 then
    return r.stop
  let (enough, r) ← r.ensure v Frame.leadSize
  if !enough then return r.damage .truncatedPrefix
  let lead ← Trap.range r.cells r.low (r.low + Frame.leadSize)
  let n := Frame.size r.format (Frame.declared lead)
  if r.size < r.position + n then
    return r.damage (.pastSegmentEnd n r.size)
  if Pointer.maxOffset < r.position + n then
    return r.damage .beyondAddressing
  r.readFrame v n

end CellReader

end SegmentLog
