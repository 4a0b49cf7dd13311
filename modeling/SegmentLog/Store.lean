import SegmentLog.Store.Handle
import SegmentLog.Store.Volume

/-!
# Open stores

A store is a handle on contents of a volume. Writes may go through fuses, the outermost first: a
fuse that blows lets the front of a write through and fails it, and later writes fail before they
reach the contents. Reading, cutting and filling up do not pass through fuses.
-/

namespace SegmentLog

structure Store where
  content : ContentId
  handle : Handle
  /-- The fuses on the way to the contents, outermost first. -/
  fuses : List FuseId := []
deriving DecidableEq, Repr, Inhabited

namespace Store

/-- A new store in memory. -/
def inMemory (v : Volume) (data : Bytes) : Store × Volume :=
  let (content, v) := v.allocate data
  ({ content, handle := .memory false }, v)

/-- A handle on the contents of a file, which knows the size they have now. -/
def onFile (v : Volume) (p : Path) (content : ContentId) (readOnly : Bool) : Store :=
  { content, handle := .file p.shown (v.bytes content).length readOnly }

def size (v : Volume) (s : Store) : Nat := s.handle.size (v.bytes s.content)

def readAt (v : Volume) (s : Store) (offset len : Nat) : Except StorageFault Bytes :=
  s.handle.readAt (v.bytes s.content) offset len

/-- A handle in memory that no fuse was put before. -/
def isBareMemory (s : Store) : Bool := s.handle.isMemory && s.fuses.isEmpty

/-- Path and access of a handle on a file that no fuse was put before. -/
def bareFile? (s : Store) : Option (String × Bool) :=
  if s.fuses.isEmpty then s.handle.file? else none

/-- Send a write through fuses to `write`. -/
def throughFuses {σ α : Type} (point : CrashPoint)
    (write : Volume → σ → Bytes → Except StorageFault α × Volume × σ) :
    List FuseId → Volume → σ → Bytes → Except StorageFault α × Volume × σ
  | [], v, s, data => write v s data
  | id :: ids, v, s, data =>
    let (landed, fuse) := (v.fuse id).spend data.length
    let v := v.setFuse id fuse
    if landed = data.length then throughFuses point write ids v s data
    else
      let (v, s) :=
        if 0 < landed then (throughFuses point write ids v s (data.take landed)).2 else (v, s)
      (.error (.io (.crash point)), v, s)

/-- The outcome of an operation on the bytes of a store. -/
def commit {α : Type} (v : Volume) (s : Store) :
    Except StorageFault (α × Handle × Bytes) → Except StorageFault α × Volume × Store
  | .ok (a, handle, bs) => (.ok a, v.setBytes s.content bs, { s with handle })
  | .error fault => (.error fault, v, s)

/-- Write at the end; the answer is where that was. -/
def append (v : Volume) (s : Store) (data : Bytes) : Except StorageFault Nat × Volume × Store :=
  throughFuses .append (fun v s data => s.commit v (s.handle.append (v.bytes s.content) data))
    s.fuses v s data

def writeAt (v : Volume) (s : Store) (offset : Nat) (data : Bytes) :
    Except StorageFault Unit × Volume × Store :=
  throughFuses .write
    (fun v s data => s.commit v ((s.handle.writeAt (v.bytes s.content) offset data).map ((), ·)))
    s.fuses v s data

def preallocate (v : Volume) (s : Store) (len : Nat) : Except StorageFault Unit × Volume × Store :=
  s.commit v ((s.handle.preallocate (v.bytes s.content) len).map ((), ·))

def truncate (v : Volume) (s : Store) (size : Nat) : Except StorageFault Unit × Volume × Store :=
  s.commit v ((s.handle.truncate (v.bytes s.content) size).map ((), ·))

/-- Pass the fuses without writing. -/
def passFuses (point : CrashPoint) : List FuseId → Volume → Except StorageFault Unit × Volume
  | [], v => (.ok (), v)
  | id :: ids, v =>
    let (passed, fuse) := (v.fuse id).sync
    let v := v.setFuse id fuse
    if passed then passFuses point ids v else (.error (.io (.crash point)), v)

/-- Contents are durable as soon as they are written, so only a fuse can stop a flush. -/
def flush (v : Volume) (s : Store) : Except StorageFault Unit × Volume :=
  passFuses .flush s.fuses v

def sync (v : Volume) (s : Store) : Except StorageFault Unit × Volume :=
  passFuses .sync s.fuses v

/-- Run an operation on a store; the answer has the store after it. -/
def run {α : Type} (s : Store)
    (f : Volume → Store → Except StorageFault α × Volume × Store) : VolumeM (α × Store) := fun v =>
  match f v s with
  | (.ok a, v, s) => .ok (a, s) v
  | (.error fault, v, _) => .error (.storage fault) v

/-! ## Opening files -/

/-- What to do about a file that is to be opened. -/
inductive FileMode
  /-- Only read; the file has to be there. -/
  | readOnly
  /-- Create the file if its folder has none of its name. -/
  | create
  /-- Create the file and the folders that lead to it. -/
  | createFolders
deriving DecidableEq, Repr

/-- Open a file as a store. -/
def openFile (mode : FileMode) (r : Route) : VolumeM Store := do
  if mode = .createFolders then
    .attempt (.storage ∘ .io) fun v => v.createFolders r.parent
  if mode = .readOnly then
    let (path, _) ← .ofExcept (.storage ∘ .io) ((← get).files.follow r)
    let content ← .ofExcept (.storage ∘ .io) ((← get).openFile path)
    return .onFile (← get) path content true
  let path ← .ofExcept (.storage ∘ .io) ((← get).files.locateFile r)
  let content ← .update (.storage ∘ .io) fun v => v.openOrCreateFile path
  return .onFile (← get) path content false

end Store

end SegmentLog
