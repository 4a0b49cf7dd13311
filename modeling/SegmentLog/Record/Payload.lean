import SegmentLog.Pointer.External
import SegmentLog.Record

/-!
# Record payloads

The bytes of a record after its kind and length. Words are stored least significant byte first,
byte fields after a four-byte length. An inline page update stores its bytes without a length of
their own, `size` being one; an update with a reference stores the pointer and no bytes.

Decoding takes the fields in the same order and then wants the payload to be used up, so one
payload has one reading. Encoding refuses what decoding would not give back: byte fields beyond
32 bits, pointers without an external form, and inline bytes that differ from `size` in number.
It does not look into the snapshots of a checkpoint.
-/

namespace SegmentLog

/-- A payload being read. -/
structure Cursor where
  position : Nat
  rest : Bytes
  /-- Size of the whole payload. -/
  size : Nat
deriving DecidableEq, Repr

namespace Cursor

def ofBytes (bs : Bytes) : Cursor := ⟨0, bs, bs.length⟩

/-- Read from a cursor and move it. -/
abbrev Scan := StateT Cursor (Except RecordFault)

/-- The next `n` bytes. -/
def take (n : Nat) : Scan Bytes := fun c =>
  let front := c.rest.take n
  if front.length = n then
    .ok (front, { c with position := c.position + n, rest := c.rest.drop n })
  else .error (.endOfPayload n c.position c.size)

/-- The next `width` bytes as a number. -/
def number (width : Nat) : Scan Nat := do
  return Bytes.ofLE (← take width)

def byte : Scan UInt8 := return .ofNat (← number 1)

def word16 : Scan UInt16 := return .ofNat (← number 2)

def word32 : Scan UInt32 := return .ofNat (← number 4)

def word64 : Scan UInt64 := return .ofNat (← number 8)

/-- Bytes after their length. -/
def sized : Scan Bytes := do
  take (← number 4)

/-- Nothing may be left. -/
def finish (kind : RecordKind) : Scan Unit := fun c =>
  if c.rest.isEmpty then .ok ((), c)
  else .error (.trailingBytes kind c.position c.size)

/-- Give up because of bytes that are no value of their field. -/
def format {α : Type} : Except FormatFault α → Scan α
  | .ok a => pure a
  | .error fault => throw (.format fault)

end Cursor

namespace Record

/-- First bytes of every segment header. -/
def magic : Bytes := [0x50, 0x4c, 0x4f, 0x47]

/-- Bytes after their length. -/
def sizedBytes (bs : Bytes) : Except ArgumentFault Bytes :=
  if bs.length < UInt32.size then .ok (Bytes.toLE 4 bs.length ++ bs)
  else .error (.payloadTooLarge bs.length)

def keyBytes (key : PartitionKey) : Bytes :=
  Bytes.toLE 4 key.group.val.toNat ++ Bytes.toLE 2 key.partition.val.toNat

def pageBytes (group : GroupId) (page : PageId) : Bytes :=
  Bytes.toLE 4 group.val.toNat ++ Bytes.toLE 8 page.val.toNat

/-- Where the bytes of a page update are: a flag, then the pointer or the bytes themselves. -/
def sourceBytes (u : PageUpdate) : Except ArgumentFault Bytes :=
  match u.reference with
  | some p => p.toBytes.map (1 :: ·)
  | none =>
    if u.payload.length = u.size.toNat then .ok (0 :: u.payload)
    else .error (.payloadMismatch u.size.toNat u.payload.length)

def stateBytes (state : PartitionState) : Except ArgumentFault Bytes :=
  (sizedBytes state.counter.encode).map (keyBytes state.key ++ ·)

def payloadBytes : Record → Except ArgumentFault Bytes
  | header version => .ok (magic ++ Bytes.toLE 2 version.toNat)
  | data key number payload => do
    return keyBytes key ++ Bytes.toLE 8 number.toNat ++ (← sizedBytes payload)
  | pageInsert group page payload => do
    return pageBytes group page ++ (← sizedBytes payload)
  | pageUpdate u => do
    return pageBytes u.group u.page ++ Bytes.toLE 2 u.item.toNat ++
      Bytes.toLE 4 u.size.toNat ++ (← sourceBytes u)
  | pageRemove group page item =>
    .ok (pageBytes group page ++ Bytes.toLE 2 item.toNat)
  | checkpoint id partitions => do
    if UInt32.size ≤ partitions.length then
      throw .tooManyPartitions
    return Bytes.toLE 8 id.toNat ++ Bytes.toLE 4 partitions.length ++
      (← partitions.mapM stateBytes).flatten

open Cursor

def scanKey : Scan PartitionKey := do
  return ⟨⟨← word32⟩, ⟨← word16⟩⟩

/-- The reference and the bytes of a page update of `size` bytes. -/
def scanSource (size : UInt32) : Scan (Option Pointer × Bytes) := do
  match ← byte with
  | 0 => return (none, ← take size.toNat)
  | 1 => return (some (← format (Pointer.ofBytes (← take Pointer.externalSize))), [])
  | flag => throw (.referenceFlag flag)

def scanState : Scan PartitionState := do
  let key ← scanKey
  return ⟨key, ← format (Snapshot.decode (← sized))⟩

def scanStates : (count : Nat) → Scan (List PartitionState)
  | 0 => return []
  | count + 1 => do
    let state ← scanState
    return state :: (← scanStates count)

def scan : RecordKind → Scan Record
  | .header => do
    if (← take 4) ≠ magic then
      throw .badMagic
    return .header (← word16)
  | .data => do
    let key ← scanKey
    return .data key (← word64) (← sized)
  | .pageInsert => return .pageInsert ⟨← word32⟩ ⟨← word64⟩ (← sized)
  | .pageUpdate => do
    let group ← word32
    let page ← word64
    let item ← word16
    let size ← word32
    let (reference, payload) ← scanSource size
    return .pageUpdate ⟨⟨group⟩, ⟨page⟩, item, size, reference, payload⟩
  | .pageRemove => return .pageRemove ⟨← word32⟩ ⟨← word64⟩ (← word16)
  | .checkpoint => do
    let id ← word64
    return .checkpoint id (← scanStates (← number 4))

/-- Read a whole payload of a known kind. -/
def ofPayload (kind : RecordKind) (bs : Bytes) : Except RecordFault Record := do
  let (record, _) ← (do let record ← scan kind; finish kind; return record).run (ofBytes bs)
  return record

end Record

end SegmentLog
