import SegmentLog.Table

/-!
# Pointers

A pointer says where a record is: segment, offset within the segment, and the length of its
frame. The length is filled in when the record has been read, so a pointer taken before the
read and the one handed out after it name the same record. Pointers are therefore compared
by `Address` alone; structural equality `=` also compares lengths.
-/

namespace SegmentLog

structure Pointer where
  segment : Nat
  offset : Nat
  /-- Zero while the record has not been read. -/
  length : Nat := 0
deriving DecidableEq, Repr, Inhabited

/-- Where a record starts. -/
structure Address where
  segment : Nat
  offset : Nat
deriving DecidableEq, Repr, Inhabited

namespace Address

/-- Log order: by segment, then by offset. -/
instance : LT Address where
  lt a b := a.segment < b.segment ∨ a.segment = b.segment ∧ a.offset < b.offset

theorem lt_iff {a b : Address} :
    a < b ↔ a.segment < b.segment ∨ a.segment = b.segment ∧ a.offset < b.offset := Iff.rfl

instance : DecidableLT Address := fun _ _ => decidable_of_iff _ lt_iff.symm

end Address

namespace Pointer

/-- No offset or length of a record exceeds this: both have a signed 32-bit form. -/
def maxOffset : Nat := UInt32.size / 2 - 1

def address (p : Pointer) : Address := ⟨p.segment, p.offset⟩

def text (p : Pointer) : String := s!"ptr({p.segment}:{p.offset}+{p.length})"

/-- Pointers stand in log order, whatever their lengths. -/
def compare (p q : Pointer) : Ordering :=
  if p.address < q.address then .lt else if q.address < p.address then .gt else .eq

/-- Sort into log order; pointers to one record keep their order. -/
def sort (ps : List Pointer) : List Pointer :=
  ps.mergeSort fun p q => p.compare q ≠ .gt

/-- The records pointed at, each once, in log order. -/
def addresses (ps : List Pointer) : List Address :=
  (ps.foldl (fun (t : Table Address Unit) p => t.insert p.address ()) []).keys

theorem compare_eq_lt {p q : Pointer} : p.compare q = .lt ↔ p.address < q.address := by
  grind [compare]

end Pointer

end SegmentLog
