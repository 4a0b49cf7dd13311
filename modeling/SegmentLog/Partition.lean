import SegmentLog.Numeral

/-!
# Partitions and pages

The identifiers that records carry: a group, a partition within a group, and a page. Each is
a word of its own width, because that is what a record stores.
-/

namespace SegmentLog

structure GroupId where
  val : UInt32
deriving DecidableEq, Repr, Inhabited

structure PartitionId where
  val : UInt16
deriving DecidableEq, Repr, Inhabited

structure PageId where
  val : UInt64
deriving DecidableEq, Repr, Inhabited

def GroupId.text (g : GroupId) : String := s!"grp:{g.val.toNat}"

def PartitionId.text (p : PartitionId) : String := s!"part:{p.val.toNat}"

/-- Pages are numbered in hexadecimal, sixteen digits. -/
def PageId.text (p : PageId) : String := "page:" ++ Numeral.hex 16 p.val.toNat

/-- A partition is known by its group and its number within the group. -/
structure PartitionKey where
  group : GroupId
  partition : PartitionId
deriving DecidableEq, Repr, Inhabited

namespace PartitionKey

/-- Keys are ordered by group, then by partition. -/
instance : LT PartitionKey where
  lt a b := a.group.val < b.group.val ∨
    a.group.val = b.group.val ∧ a.partition.val < b.partition.val

theorem lt_iff {a b : PartitionKey} :
    a < b ↔ a.group.val < b.group.val ∨
      a.group.val = b.group.val ∧ a.partition.val < b.partition.val := Iff.rfl

instance : DecidableLT PartitionKey := fun _ _ => decidable_of_iff _ lt_iff.symm

end PartitionKey

end SegmentLog
