import SegmentLog.Numeral

/-!
# Names of segment files

A segment is the file `seg-` index `.wal`, the index in decimal and at least sixteen digits long.
While it is being written it has `.tmp` after that. Reading a name is more generous than writing
it: any unsigned decimal of 64 bits between the two ends names a segment.
-/

namespace SegmentLog.SegmentName

def front : List Char := "seg-".toList

def back : List Char := ".wal".toList

def temporaryBack : List Char := ".tmp".toList

/-- The name of the segment with this index. -/
def ofIndex (index : Nat) : String :=
  String.ofList (front ++ Numeral.padded 10 16 index ++ back)

/-- The name of that segment while it is being written. -/
def temporary (index : Nat) : String :=
  ofIndex index ++ String.ofList temporaryBack

/-- The index that a file name stands for, if it names a segment. -/
def index? (name : String) : Option Nat := do
  let rest ← front.isPrefixOf? name.toList
  Numeral.unsigned? UInt64.size (← back.isSuffixOf? rest)

/-- Files left over from a segment that was never finished. -/
def isTemporary (name : String) : Bool :=
  front.isPrefixOf name.toList ∧ temporaryBack.isSuffixOf name.toList

example : ofIndex 42 = "seg-0000000000000042.wal" := by decide +kernel
example : index? "seg-0000000000000042.wal" = some 42 := by decide +kernel
example : index? (temporary 42) = none := by decide +kernel

end SegmentLog.SegmentName
