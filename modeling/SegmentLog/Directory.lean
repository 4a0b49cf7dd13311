import SegmentLog.Directory.SegmentName
import SegmentLog.Store

/-!
# Segment directories

Where the segments of a log are: in memory, or as files of a folder that its owner keeps locked.
A segment is listed only once its header is in place; in a folder it is written under a temporary
name first, and what is left under such names is removed when the folder is opened.

A directory may send its writers through a fuse. Once that has blown no segment is created, while
reading, listing and removing go on as before.
-/

namespace SegmentLog

inductive Place
  | memory
  /-- A folder and the contents of its lock file. -/
  | folder (path : Path) (lock : ContentId)
deriving DecidableEq, Repr, Inhabited

structure Directory where
  place : Place
  fuse : Option FuseId := none
deriving DecidableEq, Repr, Inhabited

namespace Place

def segmentPath (folder : Path) (index : Nat) : Path :=
  folder.child (SegmentName.ofIndex index)

def lockName : String := "LOCK"

/-- Remove what is left of segments that were never finished. -/
def removeTemporaries (folder : Path) : List String → VolumeM Unit
  | [] => return ()
  | name :: names => do
    if SegmentName.isTemporary name then
      .update .io fun v => (v.removeFile (folder.child name)).map ((), ·)
    removeTemporaries folder names

/-- Open a folder and take its lock, which must not be among the locks `held`. -/
def openFolder (held : List ContentId) (r : Route) (create : Bool) : VolumeM Place := do
  if (← get).files.follow r matches .error _ then
    if create then
      .attempt .io fun v => v.createFolders r
    else throw (.argument (.noSuchFolder r.shown))
  let .ok (path, .folder) := (← get).files.follow r
    | throw (.argument (.notAFolder r.shown))
  let lock ← .update .io fun v => v.openOrCreateFile (path.child lockName)
  if held.contains lock then
    throw .locked
  removeTemporaries path (← .ofExcept .io ((← get).listFolder path))
  return .folder path lock

/-- The segments, in ascending order. -/
def list (v : Volume) : Place → Except Error (List Nat)
  | memory => .ok v.segments.keys
  | folder path _ =>
    match v.listFolder path with
    | .ok names => .ok (names.filterMap SegmentName.index?).mergeSort
    | .error fault => .error (.io fault)

/-- A handle on an existing segment. -/
def openSegment (v : Volume) (readOnly : Bool) (index : Nat) : Place → Except Error Store
  | memory =>
    match v.segments.get? index with
    | some content => .ok { content, handle := .memory readOnly }
    | none => .error (.segmentMissing index)
  | folder path _ =>
    let path := segmentPath path index
    if v.exists? path then
      match v.openFile path with
      | .ok content => .ok (.onFile v path content readOnly)
      | .error fault => .error (.storage (.io fault))
    else .error (.segmentMissing index)

/-- All bytes of a segment. In memory a missing segment is no failure. -/
def contents (v : Volume) (index : Nat) (place : Place) : Except Error (Option Bytes) :=
  match place with
  | memory => .ok ((v.segments.get? index).map v.bytes)
  | folder .. => (place.openSegment v true index).map fun s => some (v.bytes s.content)

/-- The contents of the lock file. -/
def lock? : Place → Option ContentId
  | memory => none
  | folder _ lock => some lock

/-- Create a segment that starts with `header`, and list it. -/
def create (index : Nat) (header : Bytes) : Place → VolumeM Store
  | memory => do
    if (← get).segments.contains index then
      throw (.argument (.segmentExists index))
    let content ← modifyGet fun v => v.allocate header
    modify fun v => { v with segments := v.segments.insert index content }
    return { content, handle := .memory false }
  | folder path _ => do
    let target := segmentPath path index
    if (← get).exists? target then
      throw (.argument (.segmentExists index))
    let draft := path.child (SegmentName.temporary index)
    .update .io fun v => (v.writeFile draft header).map ((), ·)
    .update .io fun v => (v.renameFile draft target).map ((), ·)
    let content ← .ofExcept (.storage ∘ .io) ((← get).openFile target)
    return .onFile (← get) target content false

/-- Forget a segment. Handles that are open on it stay usable. -/
def remove (index : Nat) : Place → VolumeM Unit
  | memory => do
    if !(← get).segments.contains index then
      throw (.segmentMissing index)
    modify fun v => { v with segments := v.segments.erase index }
  | folder path _ => do
    let path := segmentPath path index
    if !(← get).exists? path then
      throw (.segmentMissing index)
    .update .io fun v => (v.removeFile path).map ((), ·)

/-- Store a segment with any contents. In memory it gets contents of its own, so handles on a
segment it replaces keep the old ones; a file is overwritten. -/
def put (index : Nat) (data : Bytes) : Place → VolumeM Unit
  | memory => do
    let content ← modifyGet fun v => v.allocate data
    modify fun v => { v with segments := v.segments.insert index content }
  | folder path _ => .update .io fun v => (v.writeFile (segmentPath path index) data).map ((), ·)

end Place

namespace Directory

/-- The index after another one. Indexes are words, and the last of all is followed by 0. -/
def indexAfter (index : Nat) : Nat := (index + 1) % UInt64.size

theorem indexAfter_of_lt {index : Nat} (word : index + 1 < UInt64.size) :
    indexAfter index = index + 1 := Nat.mod_eq_of_lt word

theorem indexAfter_cases (index : Nat) :
    (UInt64.size ≤ index + 1 ∧ indexAfter index < index + 1) ∨ indexAfter index = index + 1 := by
  rcases Nat.lt_or_ge (index + 1) UInt64.size with word | full
  · exact .inr (indexAfter_of_lt word)
  · have below : indexAfter index < UInt64.size := Nat.mod_lt _ (by decide)
    exact .inl ⟨full, Nat.lt_of_lt_of_le below full⟩

def list (d : Directory) (v : Volume) : Except Error (List Nat) := d.place.list v

def openRead (d : Directory) (v : Volume) (index : Nat) : Except Error Store :=
  d.place.openSegment v true index

/-- Put the directory's fuse before the others of a store. -/
def guard (d : Directory) (s : Store) : Store := { s with fuses := d.fuse.toList ++ s.fuses }

def openAppend (d : Directory) (v : Volume) (index : Nat) : Except Error Store :=
  (d.place.openSegment v false index).map d.guard

def hasBlown (d : Directory) (v : Volume) : Bool := d.fuse.any fun id => (v.fuse id).blown

def create (d : Directory) (index : Nat) (header : Bytes) : VolumeM Store := do
  if d.hasBlown (← get) then
    throw (.storage (.io (.crash .creation)))
  return d.guard (← d.place.create index header)

def remove (d : Directory) (index : Nat) : VolumeM Unit := d.place.remove index

end Directory

end SegmentLog
