import SegmentLog.Bytes
import SegmentLog.Error

/-!
# Pointers outside the log

Others keep a pointer as sixteen opaque bytes: segment, offset and length as signed numbers of
64, 32 and 32 bits, least significant byte first. A pointer whose numbers have no such form is
refused, and so are bytes that hold a negative number.
-/

namespace SegmentLog.Pointer

def externalSize : Nat := 16

/-- Offset just past the record, once its length is known. -/
def endOffset (p : Pointer) : Except ArgumentFault Nat :=
  if p.length = 0 then .error (.pointerWithoutLength p)
  else if p.offset + p.length < UInt32.size then .ok (p.offset + p.length)
  else .error .pointerEndOverflow

/-- Pointer to the place right after the record. -/
def next (p : Pointer) : Except ArgumentFault Pointer :=
  p.endOffset.map fun stop => { segment := p.segment, offset := stop }

/-- Each number has the signed form that the external bytes give it. -/
def Representable (p : Pointer) : Prop :=
  p.segment < UInt64.size / 2 ∧ p.offset < UInt32.size / 2 ∧ p.length < UInt32.size / 2

instance (p : Pointer) : Decidable p.Representable :=
  inferInstanceAs (Decidable (_ ∧ _ ∧ _))

def toBytes (p : Pointer) : Except ArgumentFault Bytes :=
  if p.Representable then
    .ok (Bytes.toLE 8 p.segment ++ Bytes.toLE 4 p.offset ++ Bytes.toLE 4 p.length)
  else .error (.pointerTooLarge p)

/-- The number that `width` bytes stand for in two's complement. -/
def signed (width n : Nat) : Int := (BitVec.ofNat (8 * width) n).toInt

/-- Read the first sixteen bytes; what follows them is ignored. -/
def ofBytes (bs : Bytes) : Except FormatFault Pointer :=
  if bs.length < externalSize then .error (.pointerTooShort bs.length)
  else
    let segment := Bytes.ofLE (bs.slice 0 8)
    let offset := Bytes.ofLE (bs.slice 8 4)
    let length := Bytes.ofLE (bs.slice 12 4)
    let p : Pointer := ⟨segment, offset, length⟩
    if p.Representable then .ok p
    else .error (.negativePointer (signed 8 segment) (signed 4 offset) (signed 4 length))

end SegmentLog.Pointer
