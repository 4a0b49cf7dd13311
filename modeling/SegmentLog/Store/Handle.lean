import SegmentLog.Bytes
import SegmentLog.Error

/-!
# Handles on stored bytes

A handle on bytes in memory always sees their size. A handle on a file remembers the size it
knows from opening the file and from its own changes; what other handles do to the file stays
unseen, so a read within the remembered size may still run off the end of the file. Writing
nothing through a file handle does nothing, while in memory it fills up to its offset.

The operations here take the bytes that a handle is open on and give back the bytes afterwards.
A refused operation changes neither.
-/

namespace SegmentLog

inductive Handle
  | memory (readOnly : Bool)
  | file (path : String) (size : Nat) (readOnly : Bool)
deriving DecidableEq, Repr, Inhabited

namespace Handle

def isReadOnly : Handle → Bool
  | memory readOnly => readOnly
  | file _ _ readOnly => readOnly

def isMemory : Handle → Bool
  | memory _ => true
  | file .. => false

/-- The path of a file, and whether it may only be read. -/
def file? : Handle → Option (String × Bool)
  | memory _ => none
  | file path _ readOnly => some (path, readOnly)

/-- What a refusal to write calls the store. -/
def label : Handle → String
  | memory _ => "in-memory handle"
  | file path .. => path

def checkWritable (h : Handle) : Except StorageFault Unit :=
  if h.isReadOnly then .error (.readOnly h.label) else .ok ()

/-- The size as the handle knows it. -/
def size (h : Handle) (bs : Bytes) : Nat :=
  match h with
  | memory _ => bs.length
  | file _ size _ => size

def readAt (h : Handle) (bs : Bytes) (offset len : Nat) : Except StorageFault Bytes :=
  if h.size bs < offset + len then .error (.readPastEnd offset len (h.size bs))
  else if len ≠ 0 ∧ bs.length < offset + len then .error (.io .unexpectedEnd)
  else .ok (bs.slice offset len)

/-- Write at the end that the handle knows; the answer is where that was. -/
def append (h : Handle) (bs data : Bytes) : Except StorageFault (Nat × Handle × Bytes) := do
  h.checkWritable
  match h with
  | memory _ => return (bs.length, h, bs ++ data)
  | file path size readOnly =>
    if data.isEmpty then return (size, h, bs)
    else return (size, file path (size + data.length) readOnly, bs.overwrite size data)

def writeAt (h : Handle) (bs : Bytes) (offset : Nat) (data : Bytes) :
    Except StorageFault (Handle × Bytes) := do
  h.checkWritable
  match h with
  | memory _ => return (h, bs.put offset data)
  | file path size readOnly =>
    if data.isEmpty then return (h, bs)
    else return (file path (max size (offset + data.length)) readOnly, bs.overwrite offset data)

/-- Grow to `len` bytes with zeros, if the handle knows fewer. -/
def preallocate (h : Handle) (bs : Bytes) (len : Nat) : Except StorageFault (Handle × Bytes) := do
  h.checkWritable
  if len ≤ h.size bs then return (h, bs)
  match h with
  | memory _ => return (h, bs.resize len)
  | file path _ readOnly => return (file path len readOnly, bs.resize len)

def truncate (h : Handle) (bs : Bytes) (size : Nat) : Except StorageFault (Handle × Bytes) := do
  h.checkWritable
  if h.size bs < size then
    throw (.truncateBeyond size (h.size bs))
  match h with
  | memory _ => return (h, bs.take size)
  | file path _ readOnly => return (file path size readOnly, bs.resize size)

end Handle

end SegmentLog
