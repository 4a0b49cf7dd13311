import SegmentLog.Json
import SegmentLog.Pointer
import SegmentLog.Snapshot

/-!
# Pointers and snapshots as JSON

Both are written without blanks and with their fields in a fixed order. Read back, an object may
have its fields in any order and others besides them; each number must be a natural number of the
field's width. Nothing else is checked, so a snapshot that is read need not be valid.
-/

namespace SegmentLog

namespace Pointer

def toJson (p : Pointer) : String :=
  s!"\x7b\"index\":{p.segment},\"offset\":{p.offset},\"length\":{p.length}\x7d"

def ofJson? (text : String) : Option Pointer := do
  match ← (← Json.ofText? text).fields? ["index", "offset", "length"] with
  | [segment, offset, length] =>
    return ⟨← segment.natural? UInt64.size, ← offset.natural? UInt32.size,
      ← length.natural? UInt32.size⟩
  | _ => none

end Pointer

namespace Gap

def toJson (g : Gap) : String := s!"[{g.start.toNat},{g.len.toNat}]"

def ofJson? : Json → Option Gap
  | .array [start, len] =>
    return ⟨.ofNat (← start.natural? UInt64.size), .ofNat (← len.natural? UInt64.size)⟩
  | _ => none

end Gap

namespace Snapshot

def toJson (s : Snapshot) : String :=
  let gaps := ",".intercalate (s.gaps.map Gap.toJson)
  s!"\x7b\"applied\":{s.applied.toNat},\"gaps\":[{gaps}]\x7d"

def ofJson? (text : String) : Option Snapshot := do
  match ← (← Json.ofText? text).fields? ["applied", "gaps"] with
  | [applied, .array gaps] =>
    return ⟨.ofNat (← applied.natural? UInt64.size), ← gaps.mapM Gap.ofJson?⟩
  | _ => none

end Snapshot

end SegmentLog
