/-!
# Simulated crashes

A fuse counts the bytes written through it. When a write would pass its budget the fuse blows:
the part of the write within the budget still lands, and nothing after it does. A fuse may also
be told to blow at the next flush or sync. Once blown it stays so.
-/

namespace SegmentLog

structure Fuse where
  /-- Total of bytes that may be written, if there is an end to it. -/
  budget : Option Nat := none
  written : Nat := 0
  blown : Bool := false
  failSync : Bool := false
deriving DecidableEq, Repr, Inhabited

namespace Fuse

/-- Blow once `len` more bytes have been written. -/
def arm (f : Fuse) (len : Nat) : Fuse := { f with budget := some (f.written + len) }

/-- How many bytes of a write of `len` bytes land. -/
def spend (f : Fuse) (len : Nat) : Nat × Fuse :=
  if f.blown then (0, f)
  else
    let counted := { f with written := f.written + len }
    match f.budget with
    | none => (len, counted)
    | some budget =>
      if f.written + len ≤ budget then (len, counted)
      else (budget - f.written, { counted with blown := true })

/-- Whether a flush or sync goes through. -/
def sync (f : Fuse) : Bool × Fuse :=
  if f.blown then (false, f)
  else if f.failSync then (false, { f with blown := true })
  else (true, f)

end Fuse

end SegmentLog
