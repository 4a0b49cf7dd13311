import SegmentLog.Bytes
import SegmentLog.Store.Fuse
import SegmentLog.Store.Route

/-!
# Volumes

Everything that outlives a handle: contents by number, the segments that are kept in memory, the
tree of files, and the fuses that writers go through. Numbers are given out once, so contents
whose last name is gone stay readable through the handles that are open on them.
-/

namespace SegmentLog

abbrev FuseId := Nat

structure Volume where
  contents : Array Bytes := #[]
  fuses : Array Fuse := #[]
  /-- Segments kept in memory. -/
  segments : Table Nat ContentId := []
  files : FileTree := []
deriving Repr, Inhabited

namespace Volume

def bytes (v : Volume) (id : ContentId) : Bytes := v.contents.getD id []

def setBytes (v : Volume) (id : ContentId) (bs : Bytes) : Volume :=
  { v with contents := v.contents.setIfInBounds id bs }

/-- Store new contents. -/
def allocate (v : Volume) (bs : Bytes) : ContentId × Volume :=
  (v.contents.size, { v with contents := v.contents.push bs })

def fuse (v : Volume) (id : FuseId) : Fuse := v.fuses.getD id {}

def setFuse (v : Volume) (id : FuseId) (f : Fuse) : Volume :=
  { v with fuses := v.fuses.setIfInBounds id f }

def addFuse (v : Volume) : FuseId × Volume :=
  (v.fuses.size, { v with fuses := v.fuses.push {} })

/-! ## Files -/

def exists? (v : Volume) (p : Path) : Bool := (v.files.entry? p.parts).isSome

/-- Create a folder and what is missing on the way to it. -/
def createFolders (v : Volume) (r : Route) : Except IoFault Unit × Volume :=
  let (result, files) := v.files.createFolders r
  (result, { v with files })

/-- The contents of an existing file. -/
def openFile (v : Volume) (p : Path) : Except IoFault ContentId :=
  match v.files.entry? p.parts with
  | some (.file content) => .ok content
  | some .folder => .error .isAFolder
  | none =>
    match v.files.entry? p.parts.dropLast with
    | some (.file _) => .error .notAFolder
    | _ => .error .notFound

/-- The contents of a file, which is created empty where its folder has no such name. -/
def openOrCreateFile (v : Volume) (p : Path) : Except IoFault (ContentId × Volume) :=
  match v.files.entry? p.parts, v.files.entry? p.parts.dropLast with
  | none, some .folder =>
    let (content, v) := v.allocate []
    .ok (content, { v with files := v.files.insert p.parts (.file content) })
  | _, _ => (v.openFile p).map (·, v)

/-- Make a file hold exactly these bytes. -/
def writeFile (v : Volume) (p : Path) (data : Bytes) : Except IoFault Volume :=
  (v.openOrCreateFile p).map fun (content, v) => v.setBytes content data

def removeFile (v : Volume) (p : Path) : Except IoFault Volume :=
  (v.openFile p).map fun _ => { v with files := v.files.erase p.parts }

/-- Give the contents of one file the name of another, which loses its own. -/
def renameFile (v : Volume) (old new : Path) : Except IoFault Volume :=
  (v.openFile old).map fun content =>
    { v with files := (v.files.erase old.parts).insert new.parts (.file content) }

/-- The names in a folder, in ascending order. -/
def listFolder (v : Volume) (p : Path) : Except IoFault (List String) :=
  match v.files.entry? p.parts with
  | some .folder => .ok (v.files.children p.parts)
  | some (.file _) => .error .notAFolder
  | none => .error .notFound

end Volume

/-! ## Work on a volume -/

/-- Work on a volume that may fail on the way; what was done before stays done. -/
abbrev VolumeM := EStateM Error Volume

/-- Run a computation that leaves the volume alone. -/
def VolumeM.ofExcept {ε α : Type} (wrap : ε → Error) : Except ε α → VolumeM α
  | .ok a => return a
  | .error fault => throw (wrap fault)

/-- Run an operation that changes the volume. -/
def VolumeM.update {ε α : Type} (wrap : ε → Error) (f : Volume → Except ε (α × Volume)) :
    VolumeM α := fun v =>
  match f v with
  | .ok (a, v) => .ok a v
  | .error fault => .error (wrap fault) v

/-- Run an operation that may change the volume even when it fails. -/
def VolumeM.attempt {ε α : Type} (wrap : ε → Error) (f : Volume → Except ε α × Volume) :
    VolumeM α := fun v =>
  match f v with
  | (.ok a, v) => .ok a v
  | (.error fault, v) => .error (wrap fault) v

end SegmentLog
