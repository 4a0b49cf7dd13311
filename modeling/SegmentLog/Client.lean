import SegmentLog.Directory.Damage
import SegmentLog.Rebalance

/-!
# Clients

A client works with one directory and at most one log at a time, and keeps stores, pins, sessions
and supplies under names of its choice. What it keeps may outlive the log it came from: when the
log is closed its ledger is gone, and the pins of what is left no longer count.

While crashes are simulated the directory is a place behind a fuse, and it stays the directory
when another folder is opened: raw segments are then put in the new folder, which becomes the
directory when the simulation ends.

A call that needs something the client does not have is refused as `absent` and does nothing. Any
other failure leaves what was done before it.
-/

namespace SegmentLog

/-- Something kept, and whether its pins are entered in the ledger of the open log. -/
structure Held (α : Type) where
  value : α
  counted : Bool
deriving DecidableEq, Repr

structure Client where
  volume : Volume := {}
  /-- Where raw segments are put, and the directory unless crashes are simulated. -/
  place : Option Place := none
  /-- The directory while crashes are simulated, and the fuse before its writers. -/
  fused : Option (Place × FuseId) := none
  log : Option Log := none
  stores : Table String Store := []
  guards : Table String (Held Nat) := []
  sessions : Table String (Held Session) := []
  supplies : Table String (Held Rebalance.Supply) := []

/-- Why a call of a client came to nothing. -/
inductive Refusal
  /-- It needs something that the client does not have. -/
  | absent
  | failed (error : Error)
deriving DecidableEq, Repr

abbrev ClientM := EStateM Refusal Client

namespace Client

instance : MonadLift (Except Error) ClientM where
  monadLift
    | .ok a => return a
    | .error error => throw (.failed error)

instance : MonadLift VolumeM ClientM where
  monadLift x := fun c =>
    match x c.volume with
    | .ok a volume => .ok a { c with volume }
    | .error error volume => .error (.failed error) { c with volume }

/-- Work with the open log. -/
def onLog {α : Type} (x : LogM α) : ClientM α := fun c =>
  match c.log with
  | none => .error .absent c
  | some log =>
    match x (c.volume, log) with
    | .ok a (volume, log) => .ok a { c with volume, log := some log }
    | .error error (volume, log) => .error (.failed error) { c with volume, log := some log }

/-- What is needed, if the client has it. -/
def need {α : Type} (f : Client → Option α) : ClientM α := do
  match f (← get) with
  | some a => return a
  | none => throw .absent

def getVolume : ClientM Volume := return (← get).volume

/-- The directory, as writers see it. -/
def getDirectory : ClientM Directory :=
  need fun c =>
    match c.fused with
    | some (place, fuse) => some { place, fuse := some fuse }
    | none => c.place.map fun place => { place }

/-! ## Stores -/

def keepStore (name : String) (s : Store) : ClientM Unit :=
  modify fun c => { c with stores := c.stores.insert name s }

def getStore (name : String) : ClientM Store := need (·.stores.get? name)

/-- Give up a store; the answer is whether there was one. -/
def dropStore (name : String) : ClientM Bool := do
  let known := (← get).stores.contains name
  modify fun c => { c with stores := c.stores.erase name }
  return known

/-- Run an operation on a store. Even a failed one may have changed it. -/
def onStore {α : Type} (name : String)
    (f : Volume → Store → Except StorageFault α × Volume × Store) : ClientM α := do
  let (result, volume, s) := f (← getVolume) (← getStore name)
  modify fun c => { c with volume, stores := c.stores.insert name s }
  result.mapError Error.storage

def readStore (name : String) (offset len : Nat) : ClientM Bytes := do
  let s ← getStore name
  (s.readAt (← getVolume) offset len).mapError Error.storage

def flushStore (name : String) : ClientM Unit := do
  let s ← getStore name
  VolumeM.attempt .storage s.flush

def syncStore (name : String) : ClientM Unit := do
  let s ← getStore name
  VolumeM.attempt .storage s.sync

/-- Keep new contents in memory under a name. -/
def createStore (name : String) (data : Bytes) : ClientM Unit := do
  keepStore name (← modifyGet fun c =>
    let (s, volume) := Store.inMemory c.volume data
    (s, { c with volume }))

def openFile (name : String) (mode : Store.FileMode) (r : Route) : ClientM Unit := do
  keepStore name (← (Store.openFile mode r : VolumeM Store))

/-- A store in memory that no fuse was put before. -/
def memoryStore (name : String) : ClientM Store :=
  need fun c => (c.stores.get? name).filter (·.isBareMemory)

/-- Keep another handle on the contents of a store in memory. -/
def shareStore (name source : String) (readOnly : Bool) : ClientM Unit := do
  let s ← memoryStore source
  keepStore name { s with handle := .memory readOnly }

/-- Put a fuse before a store, which changes its name. -/
def fuseStore (name source : String) : ClientM Unit := do
  let s ← getStore source
  let _ ← dropStore source
  let id ← modifyGet fun c =>
    let (id, volume) := c.volume.addFuse
    (id, { c with volume })
  keepStore name { s with fuses := id :: s.fuses }

/-- The outermost fuse before a store. -/
def storeFuse (name : String) : ClientM FuseId :=
  need fun c => (c.stores.get? name).bind (·.fuses.head?)

/-! ## Fuses -/

def armFuse (id : FuseId) (len : Nat) : ClientM Unit :=
  modify fun c => { c with volume := c.volume.setFuse id ((c.volume.fuse id).arm len) }

def hasBlown (id : FuseId) : ClientM Bool := return ((← getVolume).fuse id).blown

/-- Let the next flush or sync blow a fuse, or no longer do so. -/
def failSync (id : FuseId) (fail : Bool) : ClientM Unit :=
  modify fun c =>
    { c with volume := c.volume.setFuse id { c.volume.fuse id with failSync := fail } }

end Client

end SegmentLog
