/-!
# Kinds of records

Every record starts with a byte naming its kind. Zero names none: it is what a preallocated
segment holds beyond its last record.
-/

namespace SegmentLog

inductive RecordKind
  | header
  | data
  | pageInsert
  | pageUpdate
  | pageRemove
  | checkpoint
deriving DecidableEq, Repr, Inhabited

namespace RecordKind

def toByte : RecordKind → UInt8
  | header => 1
  | data => 2
  | pageInsert => 3
  | pageUpdate => 4
  | pageRemove => 5
  | checkpoint => 6

def ofByte? : UInt8 → Option RecordKind
  | 1 => some header
  | 2 => some data
  | 3 => some pageInsert
  | 4 => some pageUpdate
  | 5 => some pageRemove
  | 6 => some checkpoint
  | _ => none

def name : RecordKind → String
  | header => "Header"
  | data => "Data"
  | pageInsert => "PageInsert"
  | pageUpdate => "PageUpdate"
  | pageRemove => "PageRemove"
  | checkpoint => "Checkpoint"

@[simp] theorem ofByte?_toByte (k : RecordKind) : ofByte? k.toByte = some k := by
  cases k <;> rfl

theorem ofByte?_eq_some_iff {b : UInt8} {k : RecordKind} : ofByte? b = some k ↔ b = k.toByte := by
  constructor
  · intro h
    unfold ofByte? at h
    split at h <;> simp_all <;> subst h <;> rfl
  · rintro rfl
    exact ofByte?_toByte k

theorem toByte_ne_zero (k : RecordKind) : k.toByte ≠ 0 := by
  cases k <;> decide

end RecordKind

end SegmentLog
