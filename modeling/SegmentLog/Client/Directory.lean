import SegmentLog.Client

/-!
# The directory of a client

The client's directory is in memory from the start, or a folder that it opens. A folder stays
locked while the client puts segments in it, while it is the directory behind a fuse, and while
anything the client keeps was opened through it; stores do not lock it.
-/

namespace SegmentLog.Client

/-- A client whose directory is in memory. -/
def inMemory : Client := { place := some .memory }

/-- The places of the client, and those its log, sessions and supplies were opened through. -/
def places (c : Client) : List Place :=
  c.place.toList ++ c.fused.toList.map (·.1) ++ c.log.toList.map (·.directory.place) ++
    c.sessions.map (·.2.value.directory.place) ++
    c.supplies.map (·.2.value.session.directory.place)

def locks (c : Client) : List ContentId := c.places.filterMap (·.lock?)

/-- Put segments in a folder from now on. A directory behind a fuse stays the directory. -/
def openFolder (r : Route) (create : Bool) : ClientM Unit := do
  let place ← (Place.openFolder (← get).locks r create : VolumeM Place)
  modify fun c => { c with place := some place }

/-- Give up everything but what is stored. -/
def closeFolder : ClientM Unit := modify fun c => { volume := c.volume }

/-- Write a file, in folders that are created where they are missing. -/
def writeFile (r : Route) (data : Bytes) : ClientM Unit := do
  VolumeM.attempt .io fun v => v.createFolders r.parent
  let path ← VolumeM.ofExcept .io ((← getVolume).files.locateFile r)
  VolumeM.update .io fun v => (v.writeFile path data).map ((), ·)

def listFolder (r : Route) : ClientM (List String) := do
  let (path, _) ← VolumeM.ofExcept .io ((← getVolume).files.follow r)
  VolumeM.ofExcept .io ((← getVolume).listFolder path)

def segmentPath (index : Nat) : ClientM Path :=
  need fun c => c.place.bind fun
    | .folder path _ => some (Place.segmentPath path index)
    | .memory => none

/-! ## Segments -/

def getPlace : ClientM Place := need (·.place)

def putSegment (index : Nat) (data : Bytes) : ClientM Unit := do
  (← getPlace).put index data

def segmentData (index : Nat) : ClientM (Option Bytes) := do
  let place ← getPlace
  place.contents (← getVolume) index

def listSegments : ClientM (List Nat) := do
  let d ← getDirectory
  d.list (← getVolume)

def createSegment (name : String) (index : Nat) (header : Bytes) : ClientM Unit := do
  let d ← getDirectory
  keepStore name (← (d.create index header : VolumeM Store))

def openAppend (name : String) (index : Nat) : ClientM Unit := do
  let d ← getDirectory
  keepStore name (← (d.openAppend (← getVolume) index : Except Error Store))

def openRead (name : String) (index : Nat) : ClientM Unit := do
  let d ← getDirectory
  keepStore name (← (d.openRead (← getVolume) index : Except Error Store))

def removeSegment (index : Nat) : ClientM Unit := do
  (← getDirectory).remove index

def truncateTail (index len : Nat) : ClientM Nat := do
  (← getPlace).truncateTail index len

def flipByte (index offset : Nat) : ClientM Unit := do
  (← getPlace).flipByte index offset

def appendGarbage (index : Nat) (data : Bytes) : ClientM Unit := do
  (← getPlace).appendGarbage index data

/-! ## Simulated crashes -/

/-- Make the place where segments are put the directory, with a new fuse before its writers. -/
def installFuse : ClientM Unit := do
  let place ← getPlace
  modify fun c =>
    let (id, volume) := c.volume.addFuse
    { c with volume, fused := some (place, id) }

def removeFuse : ClientM Unit := modify fun c => { c with fused := none }

def getFuse : ClientM FuseId := need fun c => c.fused.map (·.2)

end SegmentLog.Client
