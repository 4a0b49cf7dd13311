import SegmentLog.Directory

/-!
# Damage to segments

What torn writes and bad sectors do to a segment that is no longer written: its end is missing, a
byte is inverted, or something follows it that was never a record.
-/

namespace SegmentLog.Place

/-- Cut `len` bytes off the end of a segment; the answer is its new size. -/
def truncateTail (p : Place) (index len : Nat) : VolumeM Nat := do
  let s ← .ofExcept id (p.openSegment (← get) false index)
  let size := s.size (← get)
  if size < len then
    throw (.argument (.segmentTooShort index size))
  let _ ← s.run fun v s => s.truncate v (size - len)
  return size - len

/-- Invert one byte of a segment. -/
def flipByte (p : Place) (index offset : Nat) : VolumeM Unit := do
  let s ← .ofExcept id (p.openSegment (← get) false index)
  let byte ← .ofExcept .storage (s.readAt (← get) offset 1)
  let _ ← s.run fun v s => s.writeAt v offset (byte.map (~~~ ·))

/-- Write bytes after the end of a segment. -/
def appendGarbage (p : Place) (index : Nat) (data : Bytes) : VolumeM Unit := do
  let s ← .ofExcept id (p.openSegment (← get) false index)
  let _ ← s.run fun v s => s.append v data

end SegmentLog.Place
