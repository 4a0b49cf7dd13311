import SegmentLog.Crc32
import SegmentLog.Record.Payload

/-!
# Frames

A record is stored as its kind (1 byte), the length of its payload (4), the payload and, in the
checked format, the checksum of all that (4). A segment starts with the frame of a header record,
which names the format of the frames after it and is checked whatever format it names; no frame
after it may be a header.
-/

namespace SegmentLog

/-- How the records of a segment are framed. -/
inductive Format
  /-- Version 1: no checksum. -/
  | unchecked
  /-- Version 2: a checksum ends each frame. -/
  | checked
deriving DecidableEq, Repr, Inhabited

namespace Format

def version : Format → UInt16
  | unchecked => 1
  | checked => 2

def ofVersion? : UInt16 → Option Format
  | 1 => some unchecked
  | 2 => some checked
  | _ => none

/-- Bytes after the payload. -/
def trailerSize : Format → Nat
  | unchecked => 0
  | checked => 4

@[simp] theorem ofVersion?_version (f : Format) : ofVersion? f.version = some f := by
  cases f <;> rfl

end Format

namespace Frame

/-- Kind and length. -/
def leadSize : Nat := 5

/-- Size of a frame with a payload of `len` bytes. -/
def size (f : Format) (len : Nat) : Nat := leadSize + len + f.trailerSize

/-- The payload length that the first bytes of a frame declare. -/
def declared (bs : Bytes) : Nat := Bytes.ofLE (bs.slice 1 4)

/-- Bytes before the checksum. -/
def body (kind : RecordKind) (payload : Bytes) : Bytes :=
  kind.toByte :: (Bytes.toLE 4 payload.length ++ payload)

def trailer : Format → Bytes → Bytes
  | .unchecked, _ => []
  | .checked, body => Bytes.toLE 4 (Crc32.checksum body).toNat

def encode (f : Format) (record : Record) : Except ArgumentFault Bytes := do
  let payload ← record.payloadBytes
  if UInt32.size ≤ payload.length then
    throw .recordTooLarge
  let body := body record.kind payload
  return body ++ trailer f body

/-- Check the bytes after the body against the body. -/
def verify (f : Format) (body trailer : Bytes) : Except RecordFault Unit :=
  match f with
  | .unchecked => .ok ()
  | .checked =>
    let expected := UInt32.ofNat (Bytes.ofLE trailer)
    let actual := Crc32.checksum body
    if expected = actual then .ok () else .error (.checksum expected actual)

/-- Read a whole frame. -/
def decode (f : Format) (bs : Bytes) : Except RecordFault Record := do
  match bs with
  | [] => throw (.frameTooShort 0)
  | first :: _ =>
    if bs.length < size f 0 then
      throw (.frameTooShort bs.length)
    let some kind := RecordKind.ofByte? first | throw (.unknownKind first)
    if kind = .header then
      throw .headerInBody
    let len := declared bs
    if bs.length ≠ size f len then
      throw (.lengthMismatch bs.length len)
    let bodySize := leadSize + len
    verify f (bs.take bodySize) (bs.drop bodySize)
    Record.ofPayload kind (bs.slice leadSize len)

end Frame

namespace Header

/-- Size of the header frame at the start of every segment. -/
def size : Nat := 15

/-- The header payload: magic and version. -/
def payloadSize : Nat := 6

def payload (version : UInt16) : Bytes :=
  Record.magic ++ Bytes.toLE 2 version.toNat

/-- The header of a segment in a given format. -/
def encode (f : Format) : Bytes :=
  let body := Frame.body .header (payload f.version)
  body ++ Frame.trailer .checked body

/-- The header for a version, which must name a format. -/
def ofVersion (version : UInt16) : Except ArgumentFault Bytes :=
  match Format.ofVersion? version with
  | some f => .ok (encode f)
  | none => .error (.unknownVersion version)

/-- The format declared by the first bytes of a segment; what follows them is ignored. -/
def decode (bs : Bytes) : Except HeaderFault Format := do
  let frame := bs.take size
  if frame.length < size then
    throw (.tooShort bs.length)
  let kind := frame.headD 0
  if kind ≠ RecordKind.header.toByte then
    throw (.kind kind)
  if Frame.declared frame ≠ payloadSize then
    throw (.payloadLength (Frame.declared frame))
  let bodySize := Frame.leadSize + payloadSize
  let expected := UInt32.ofNat (Bytes.ofLE (frame.drop bodySize))
  let actual := Crc32.checksum (frame.take bodySize)
  if expected ≠ actual then
    throw (.checksum expected actual)
  match Record.ofPayload .header (Bytes.slice frame Frame.leadSize payloadSize) with
  | .ok (.header version) =>
    let some f := Format.ofVersion? version | throw (.unsupported version)
    return f
  | .ok _ => throw (.payload .badMagic)
  | .error fault => throw (.payload fault)

/-- A header is the frame of a header record, checked in either format. -/
theorem encode_eq (f : Format) :
    Frame.encode .checked (.header f.version) = .ok (encode f) := by
  cases f <;> rfl

end Header

end SegmentLog
