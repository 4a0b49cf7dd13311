import SegmentLog.Client.Directory
import SegmentLog.Recovery

/-!
# The log of a client

Pins, sessions and supplies are kept by name. One that replaces another is there before the other
is given up, so a segment that both hold is held throughout. A session or supply that could not
be opened replaces nothing.
-/

namespace SegmentLog.Client

/-- Give up the log. What is kept of it no longer counts. -/
def closeLog : ClientM Unit := modify fun c =>
  { c with
    log := none
    guards := c.guards.map fun (name, h) => (name, { h with counted := false })
    sessions := c.sessions.map fun (name, h) => (name, { h with counted := false })
    supplies := c.supplies.map fun (name, h) => (name, { h with counted := false }) }

/-- Open a log in the directory instead of the one that is open; the answer is the segment it
writes. -/
def openLog (config : Log.Config) : ClientM Nat := do
  let d ← getDirectory
  closeLog
  let log ← (Log.openIn d config : VolumeM Log)
  modify fun c => { c with log := some log }
  return log.active.segment

def getLog : ClientM Log := need (·.log)

/-- Enter something in the ledger of the open log, if it counts. -/
def enter (counted : Bool) (f : Ledger → Ledger) : ClientM Unit :=
  if counted then
    modify fun c => { c with log := c.log.map fun log => { log with ledger := f log.ledger } }
  else return ()

/-! ## Pins -/

/-- Keep a pin that has been taken. -/
def keepGuard (name : String) (segment : Nat) : ClientM Unit := do
  let old := (← get).guards.get? name
  modify fun c => { c with guards := c.guards.insert name { value := segment, counted := true } }
  if let some h := old then
    enter h.counted (·.unpin h.value)

/-- Pin a segment that is there. -/
def pin (name : String) (segment : Nat) : ClientM Unit := do
  onLog (Log.pin segment)
  keepGuard name segment

/-- Pin a segment whether it is there or not. -/
def pinUnchecked (name : String) (segment : Nat) : ClientM Unit := do
  onLog (LogM.enter (·.pin segment))
  keepGuard name segment

/-- Give up a pin; the answer is the segment it was on. -/
def unpin (name : String) : ClientM (Option Nat) := do
  let some h := (← get).guards.get? name | return none
  modify fun c => { c with guards := c.guards.erase name }
  enter h.counted (·.unpin h.value)
  return some h.value

/-! ## Sessions -/

/-- Open a session through the log, or straight on the directory. -/
def openSession (direct : Bool) (start stop : Option Pointer) : ClientM Session := do
  if direct then
    let d ← getDirectory
    Session.openRange d (← getVolume) Session.defaultBufferSize start stop
  else
    onLog (Log.replayRange start stop)

def keepSession (name : String) (direct : Bool) (start stop : Option Pointer) :
    ClientM Session := do
  let s ← openSession direct start stop
  let old := (← get).sessions.get? name
  modify fun c => { c with sessions := c.sessions.insert name { value := s, counted := !direct } }
  if let some h := old then
    enter h.counted (·.release h.value)
  return s

def getSession (name : String) : ClientM (Held Session) := need (·.sessions.get? name)

/-- Read on with a session. -/
def readSession (name : String) (count : Nat) : ClientM Reading := do
  let h ← getSession name
  let r := h.value.take (← getVolume) count
  modify fun c => { c with sessions := c.sessions.insert name { h with value := r.session } }
  enter h.counted (·.follow h.value r)
  return r

/-- End a session, and keep it. -/
def closeSession (name : String) : ClientM Session := do
  let h ← getSession name
  let s := h.value.close
  modify fun c => { c with sessions := c.sessions.insert name { h with value := s } }
  enter h.counted (·.release h.value)
  return s

/-- Give up a session; the answer is whether there was one. -/
def dropSession (name : String) : ClientM Bool := do
  let some h := (← get).sessions.get? name | return false
  modify fun c => { c with sessions := c.sessions.erase name }
  enter h.counted (·.release h.value)
  return true

/-- All records between two pointers. -/
def readAll (direct : Bool) (start stop : Option Pointer) : ClientM Reading := do
  let s ← openSession direct start stop
  let r := s.drain (← getVolume)
  enter (!direct) fun l => (l.follow s r).release r.session
  return r

/-! ## Rebalancing -/

/-- A counter in the given state. -/
def counterOf (s : Option Snapshot) : ClientM Counter :=
  match s with
  | some s => (({} : Counter).restore s).mapError Error.format
  | none => return {}

def decide (maxGaps : Nat) (s : Option Snapshot) (start : Option Pointer) :
    ClientM Rebalance.Decision := do
  let c ← counterOf s
  let log ← getLog
  Rebalance.decide maxGaps c log (← getVolume) start

/-- The pins of a supply are given up. -/
def releaseSupply (h : Held Rebalance.Supply) : ClientM Unit :=
  enter h.counted fun l => (l.release h.value.session).unpin h.value.pinned

def openHistory (name : String) (maxGaps : Nat) (s : Option Snapshot) (start : Option Pointer) :
    ClientM Rebalance.Offer := do
  let c ← counterOf s
  let offer ← onLog (Rebalance.openHistory maxGaps c start)
  if let .historical supply := offer then
    let old := (← get).supplies.get? name
    modify fun c =>
      { c with supplies := c.supplies.insert name { value := supply, counted := true } }
    if let some h := old then
      releaseSupply h
  return offer

/-- Read on with a supply. -/
def readSupply (name : String) (count : Nat) : ClientM Reading := do
  let h ← need (·.supplies.get? name)
  let r := h.value.session.take (← getVolume) count
  let supply := { h.value with session := r.session }
  modify fun c => { c with supplies := c.supplies.insert name { h with value := supply } }
  enter h.counted (·.follow h.value.session r)
  return r

/-- Give up a supply; the answer is whether there was one. -/
def dropSupply (name : String) : ClientM Bool := do
  let some h := (← get).supplies.get? name | return false
  modify fun c => { c with supplies := c.supplies.erase name }
  releaseSupply h
  return true

/-! ## Recovery -/

/-- Recover from the log in the directory; the answer has what a page store received, whether
recovery succeeds or not. -/
def recover (plan : Recovery.Plan) (refuseAt : Option Nat) :
    ClientM (Except Error Recovery.State × List (Pointer × Record)) := do
  let d ← getDirectory
  match Recovery.run d (← getVolume) plan (PageStore.recording refuseAt) [] with
  | .ok st store => return (.ok st, store)
  | .error error store => return (.error error, store)

/-! ## What a client shows -/

/-- The segments with their sizes, the head of the log and the lowest pinned segment, as far as
they are there. -/
structure View where
  segments : Option (List (Nat × Option Nat))
  head : Option Pointer
  lowestPin : Option Nat
deriving DecidableEq, Repr

/-- The size of a segment through a fresh handle. -/
def segmentSize (v : Volume) (place : Place) (index : Nat) : Option Nat :=
  (place.openSegment v true index).toOption.map (·.size v)

def view (c : Client) : View where
  segments := c.place.bind fun place =>
    (place.list c.volume).toOption.map fun indexes =>
      indexes.map fun index => (index, segmentSize c.volume place index)
  head := c.log.map Log.head
  lowestPin := c.log.bind (·.ledger.pins.lowest?)

end SegmentLog.Client
