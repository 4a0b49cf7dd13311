import SegmentLog.Bytes
import SegmentLog.Partition
import SegmentLog.Pointer
import SegmentLog.Record.Kind
import SegmentLog.Snapshot

/-!
# Records

A record is one durable change or marker. A page update may refer to a data record that holds
its bytes; it is resolved by fetching that record and taking over its payload.
-/

namespace SegmentLog

/-- The counter of one partition at the time of a checkpoint. -/
structure PartitionState where
  key : PartitionKey
  counter : Snapshot
deriving DecidableEq, Repr, Inhabited

/-- An item of a page gets new bytes. -/
structure PageUpdate where
  group : GroupId
  page : PageId
  item : UInt16
  /-- The number of bytes of the item. -/
  size : UInt32
  /-- The record that holds the bytes, if they are stored elsewhere. -/
  reference : Option Pointer
  /-- The bytes, or nothing while the reference is unresolved. -/
  payload : Bytes
deriving DecidableEq, Repr, Inhabited

inductive Record
  /-- First record of a segment: the format of the records after it. -/
  | header (version : UInt16)
  /-- An update of a partition under the number reserved for it. -/
  | data (key : PartitionKey) (number : UInt64) (payload : Bytes)
  | pageInsert (group : GroupId) (page : PageId) (payload : Bytes)
  | pageUpdate (update : PageUpdate)
  | pageRemove (group : GroupId) (page : PageId) (item : UInt16)
  | checkpoint (id : UInt64) (partitions : List PartitionState)
deriving DecidableEq, Repr, Inhabited

namespace PageUpdate

/-- The bytes are stored elsewhere and have not been fetched. -/
def needsPayload (u : PageUpdate) : Bool :=
  u.reference.isSome ∧ u.payload.length ≠ u.size.toNat

end PageUpdate

namespace Record

def kind : Record → RecordKind
  | header _ => .header
  | data .. => .data
  | pageInsert .. => .pageInsert
  | pageUpdate _ => .pageUpdate
  | pageRemove .. => .pageRemove
  | checkpoint .. => .checkpoint

/-- The group that owns the record, if one does. -/
def group? : Record → Option GroupId
  | header _ | checkpoint .. => none
  | data key .. => some key.group
  | pageInsert group .. | pageRemove group .. => some group
  | pageUpdate u => some u.group

def needsPayload : Record → Bool
  | pageUpdate u => u.needsPayload
  | _ => false

/-- Forget the length of a reference, which does not belong to what the record says. -/
def withoutReferenceLength : Record → Record
  | pageUpdate u =>
    .pageUpdate { u with reference := u.reference.map fun p => { p with length := 0 } }
  | record => record

/-- Two records say the same; pointers count by what they point at. -/
def sameAs (r s : Record) : Bool :=
  r.withoutReferenceLength = s.withoutReferenceLength

end Record

end SegmentLog
