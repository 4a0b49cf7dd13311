import SegmentLog.Bytes
import SegmentLog.Error

/-!
# Counter snapshots

The form in which a partition's update counter is kept: every update up to `applied` is
complete, and so are the updates of each gap above it. A gap waits for a lower update. Gaps are
in ascending order, neither empty nor overlapping; two may touch.

The byte form is `applied` (8 bytes), the number of gaps (4), then start and length (8 each)
of every gap. Reading validates, writing does not.
-/

namespace SegmentLog

/-- A run of completed updates above `applied`. -/
structure Gap where
  start : UInt64
  len : UInt64
deriving DecidableEq, Repr, Inhabited

structure Snapshot where
  applied : UInt64 := 0
  gaps : List Gap := []
deriving DecidableEq, Repr, Inhabited

namespace Gap

/-- The number `n` is one of the gap's updates. -/
def covers (g : Gap) (n : UInt64) : Bool :=
  g.start ≤ n ∧ n - g.start < g.len

/-- The last update of a gap that is not empty. -/
def last (g : Gap) : UInt64 :=
  g.start + (g.len - 1)

def encode (g : Gap) : Bytes :=
  Bytes.toLE 8 g.start.toNat ++ Bytes.toLE 8 g.len.toNat

end Gap

namespace Snapshot

def isSequential (s : Snapshot) : Bool :=
  s.gaps.isEmpty

/-- The highest update known to be complete. -/
def highest (s : Snapshot) : UInt64 :=
  s.gaps.getLast?.elim s.applied Gap.last

def inGap (s : Snapshot) (n : UInt64) : Bool :=
  s.gaps.any (·.covers n)

/-- Check that every gap lies above `floor`, the last update before it. -/
def validateGaps (floor : UInt64) : List Gap → Except FormatFault Unit
  | [] => .ok ()
  | g :: gs =>
    if g.len = 0 then .error (.emptyGap g.start)
    else if g.start ≤ floor then .error (.gapOutOfOrder g.start floor)
    else if UInt64.size ≤ g.start.toNat + (g.len.toNat - 1) then .error (.gapOverflow g.start g.len)
    else validateGaps g.last gs

def validate (s : Snapshot) : Except FormatFault Unit :=
  validateGaps s.applied s.gaps

def headSize : Nat := 12

def gapSize : Nat := 16

def encode (s : Snapshot) : Bytes :=
  Bytes.toLE 8 s.applied.toNat ++ Bytes.toLE 4 s.gaps.length ++ s.gaps.flatMap Gap.encode

/-- The gaps held by the bytes, sixteen to a gap. -/
def decodeGaps : (count : Nat) → Bytes → List Gap
  | 0, _ => []
  | count + 1, bs =>
    ⟨.ofNat (Bytes.ofLE (bs.slice 0 8)), .ofNat (Bytes.ofLE (bs.slice 8 8))⟩ ::
      decodeGaps count (bs.drop gapSize)

def decode (bs : Bytes) : Except FormatFault Snapshot := do
  if bs.length < headSize then
    throw (.snapshotTooShort bs.length)
  let count := Bytes.ofLE (bs.slice 8 4)
  let expected := headSize + count * gapSize
  if bs.length ≠ expected then
    throw (.snapshotLength count expected bs.length)
  let s : Snapshot :=
    ⟨.ofNat (Bytes.ofLE (bs.slice 0 8)), decodeGaps count (bs.drop headSize)⟩
  s.validate
  return s

end Snapshot

end SegmentLog
