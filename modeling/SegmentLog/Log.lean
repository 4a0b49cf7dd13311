import SegmentLog.Ledger
import SegmentLog.Record.Reference

/-!
# Logs

A log writes records one after the other into the newest segment of a directory and starts the
next segment when a record does not fit. Opening a log never writes to a segment that is there:
a torn end of the newest one is cut off, and a fresh segment follows it. Old segments can be
released from the front, up to the lowest one that somebody holds.
-/

namespace SegmentLog

namespace Log

structure Config where
  /-- A record that would make a segment larger than this goes into the next one, unless it would
  be the first of its segment. -/
  segmentSize : Nat := 64 * 1024 * 1024
  /-- Fill new segments with zeros up to the segment size. -/
  preallocate : Bool := false
  syncOnWrite : Bool := false
  /-- What readers fetch at a time. -/
  bufferSize : Nat := Session.defaultBufferSize
  /-- Names the format of new segments. -/
  version : UInt16 := Format.checked.version
deriving DecidableEq, Repr, Inhabited

/-- The segment that is written. -/
structure Active where
  segment : Nat
  store : Store
  /-- Where the next record goes. -/
  position : Nat
deriving DecidableEq, Repr, Inhabited

end Log

structure Log where
  directory : Directory
  config : Log.Config
  format : Format
  active : Log.Active
  ledger : Ledger := {}
deriving DecidableEq, Repr, Inhabited

/-- Work with a log on a volume that may fail on the way; what was done before stays done. -/
abbrev LogM := EStateM Error (Volume × Log)

namespace LogM

instance : MonadLift VolumeM LogM where
  monadLift x := fun (v, log) =>
    match x v with
    | .ok a v => .ok a (v, log)
    | .error error v => .error error (v, log)

def getVolume : LogM Volume := return (← get).1

def getLog : LogM Log := return (← get).2

def modifyLog (f : Log → Log) : LogM Unit := modify fun (v, log) => (v, f log)

/-- Enter something in the log's ledger. -/
def enter (f : Ledger → Ledger) : LogM Unit :=
  modifyLog fun log => { log with ledger := f log.ledger }

/-- Run a computation that leaves volume and log alone. -/
def read {α : Type} (f : Volume → Log → Except Error α) : LogM α := do
  let (v, log) ← get
  VolumeM.ofExcept id (f v log)

/-- Run an operation on the store of the active segment. -/
def onActive {α : Type} (f : Volume → Store → Except StorageFault α × Volume × Store) :
    LogM α := fun (v, log) =>
  match f v log.active.store with
  | (.ok a, v, store) => .ok a (v, { log with active := { log.active with store } })
  | (.error fault, v, store) =>
    .error (.storage fault) (v, { log with active := { log.active with store } })

end LogM

namespace Log

open LogM

/-- Create a segment to write to. -/
def Active.create (d : Directory) (c : Config) (format : Format) (segment : Nat) :
    VolumeM Active := do
  let store ← d.create segment (Header.encode format)
  if c.preallocate then
    let (_, store) ← store.run fun v s => s.preallocate v c.segmentSize
    return ⟨segment, store, Header.size⟩
  return ⟨segment, store, Header.size⟩

/-- Cut a segment off at `stop`. -/
def cutAt (d : Directory) (segment stop : Nat) : VolumeM Unit := do
  let store ← .ofExcept id (d.openAppend (← get) segment)
  let (_, store) ← store.run fun v s => s.truncate v stop
  .attempt .storage store.sync

/-- Cut off the torn end of a segment. -/
def cutTornEnd (d : Directory) (bufferSize segment : Nat) : VolumeM Unit := do
  let reader ← .ofExcept id (d.openReader (← get) bufferSize segment 0)
  let some stop ← .ofExcept .storage (reader.firstDamage (← get)) | return
  cutAt d segment stop

/-- A log that writes to a segment of its own. -/
def startIn (d : Directory) (c : Config) (format : Format) (segment : Nat) : VolumeM Log := do
  let active ← Active.create d c format segment
  return { directory := d, config := c, format, active, ledger := ({} : Ledger).count .created }

/-- Open the log in a directory, with a fresh segment after the newest one. -/
def openIn (d : Directory) (c : Config) : VolumeM Log := do
  let some format := Format.ofVersion? c.version | throw (.argument (.unknownVersion c.version))
  if c.segmentSize ≤ Header.size ∨ Pointer.maxOffset < c.segmentSize then
    throw (.argument (.segmentSize c.segmentSize))
  match (← VolumeM.ofExcept id (d.list (← get))).getLast? with
  | some newest => do
    cutTornEnd d c.bufferSize newest
    startIn d c format (Directory.indexAfter newest)
  | none => startIn d c format 0

/-- Where the next record goes, unless it needs a fresh segment. -/
def head (log : Log) : Pointer := ⟨log.active.segment, log.active.position, 0⟩

/-- The segments of the log, in ascending order. -/
def segments (log : Log) (v : Volume) : Except Error (List Nat) := log.directory.list v

/-- A record of `len` bytes needs a fresh segment. -/
def overflows (log : Log) (len : Nat) : Bool :=
  log.config.segmentSize < log.active.position + len ∧ Header.size < log.active.position

/-! ## Writing -/

/-- Make all records durable. -/
def flush : LogM Unit := do
  let store := (← getLog).active.store
  VolumeM.attempt .storage store.flush
  VolumeM.attempt .storage store.sync
  enter (·.count .flushed)

/-- Start the next segment; the answer is its index. -/
def rotate : LogM Nat := do
  flush
  let log ← getLog
  let active ← Active.create log.directory log.config log.format
    (Directory.indexAfter log.active.segment)
  modifyLog ({ · with active })
  enter (·.count .created)
  return active.segment

/-- Write a frame where the next record goes; the answer points at it. -/
def put (frame : Bytes) : LogM Pointer := do
  let ⟨segment, _, offset⟩ := (← getLog).active
  if Pointer.maxOffset < offset + frame.length then
    throw (.argument (.beyondAddressing frame.length offset))
  onActive fun v s => s.writeAt v offset frame
  modifyLog fun log => { log with active.position := offset + frame.length }
  enter (·.count (·.appended frame.length))
  return ⟨segment, offset, frame.length⟩

/-- Write a record, into a fresh segment if it does not fit; the answer points at it. -/
def write (record : Record) : LogM Pointer := do
  if record.kind = .header then
    throw (.argument .headerAppended)
  let frame ← VolumeM.ofExcept .argument (Frame.encode (← getLog).format record)
  if (← getLog).overflows frame.length then
    let _ ← rotate
  put frame

/-- Write a record, and make it durable if the log is to do so at once. -/
def append (record : Record) : LogM Pointer := do
  let p ← write record
  if (← getLog).config.syncOnWrite then
    flush
  return p

/-! ## Reading -/

/-- Open a session on the log. -/
def replayRange (start stop : Option Pointer) : LogM Session := do
  enter (·.count .sessionOpened)
  let s ← read fun v log => Session.openRange log.directory v log.config.bufferSize start stop
  enter (·.hold s)
  return s

def readRecord (log : Log) (v : Volume) (p : Pointer) : Except Error Record :=
  log.directory.readRecord v log.config.bufferSize p

/-- Fill in the bytes that a page update refers to. -/
def resolve (log : Log) (v : Volume) (record : Record) : Except Error Record :=
  record.resolve (log.readRecord v)

/-! ## Releasing -/

/-- Hold a segment that is there. -/
def pin (segment : Nat) : LogM Unit := do
  let listed ← read fun v log => log.segments v
  if !listed.contains segment then
    throw (.segmentMissing segment)
  enter (·.pin segment)

/-- No segment from here on may be released when all before `segment` should be. -/
def releaseLimit (log : Log) (segment : Nat) : Nat :=
  let limit := min segment log.active.segment
  log.ledger.pins.lowest?.elim limit (min limit)

/-- Remove listed segments up to the first that is not below `limit`; the answer is how many. -/
def removeBelow (limit : Nat) : List Nat → LogM Nat
  | [] => return 0
  | segment :: listed => do
    if limit ≤ segment then
      return 0
    let log ← getLog
    if log.ledger.pins.isPinned segment then
      throw (.segmentInUse segment)
    log.directory.remove segment
    enter (·.count .removed)
    return (← removeBelow limit listed) + 1

/-- Release the segments before `segment` that nobody holds back; the answer is how many. -/
def releaseBefore (segment : Nat) : LogM Nat := do
  let limit := (← getLog).releaseLimit segment
  removeBelow limit (← read fun v log => log.segments v)

end Log

end SegmentLog
