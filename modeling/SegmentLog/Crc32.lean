import SegmentLog.Bytes

/-!
# Cyclic redundancy check

The 32-bit check with the reflected polynomial `edb88320`, an all-ones start and a final
complement: the one used by Ethernet, zip and PNG. A byte is shifted in bit by bit; the
whole check is a left fold, so the check of a concatenation continues from the state its
first part left (`update_append`).
-/

namespace SegmentLog.Crc32

/-- Divide one bit out of the register. -/
def shiftBit (register : UInt32) : UInt32 :=
  if register &&& 1 = 1 then (register >>> 1) ^^^ 0xedb88320 else register >>> 1

/-- Divide eight bits out of the register. -/
def shiftByte (register : UInt32) : UInt32 :=
  shiftBit <| shiftBit <| shiftBit <| shiftBit <|
    shiftBit <| shiftBit <| shiftBit <| shiftBit register

def step (register : UInt32) (byte : UInt8) : UInt32 :=
  shiftByte (register ^^^ byte.toUInt32)

def update (register : UInt32) (bytes : Bytes) : UInt32 :=
  bytes.foldl step register

/-- The check of a byte sequence. -/
def checksum (bytes : Bytes) : UInt32 :=
  ~~~ update 0xffffffff bytes

@[simp] theorem update_nil (register : UInt32) : update register [] = register := rfl

@[simp] theorem update_cons (register : UInt32) (byte : UInt8) (bytes : Bytes) :
    update register (byte :: bytes) = update (step register byte) bytes := rfl

theorem update_append (register : UInt32) (front back : Bytes) :
    update register (front ++ back) = update (update register front) back :=
  List.foldl_append

/-- The check value that catalogues of such checks give for the digits one to nine. -/
example : checksum [49, 50, 51, 52, 53, 54, 55, 56, 57] = 0xcbf43926 := by decide +kernel

end SegmentLog.Crc32
