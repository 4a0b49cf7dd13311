import SegmentLog.Table

/-!
# Names of files

Folders and files below a root, each known by the names on the way to it. A file name leads to
the number of its contents, so contents live on under handles when their name is gone or given
away.
-/

namespace SegmentLog

/-- Identifies contents, whatever names lead to them. -/
abbrev ContentId := Nat

/-- A place below the root, and its text in messages. -/
structure Path where
  shown : String
  parts : List String
deriving DecidableEq, Repr, Inhabited

namespace Path

/-- Put a name below a path text. -/
def join (base name : String) : String :=
  if base.endsWith "/" then base ++ name else base ++ "/" ++ name

def child (p : Path) (name : String) : Path :=
  ⟨join p.shown name, p.parts ++ [name]⟩

end Path

inductive Entry
  | folder
  | file (content : ContentId)
deriving DecidableEq, Repr, Inhabited

abbrev FileTree := Table (List String) Entry

namespace FileTree

/-- What a path leads to. The root is a folder. -/
def entry? (t : FileTree) (parts : List String) : Option Entry :=
  if parts.isEmpty then some .folder else t.get? parts

/-- The names in a folder, in ascending order. -/
def children (t : FileTree) (parts : List String) : List String :=
  t.keys.filterMap fun key =>
    if key.dropLast = parts then key.getLast? else none

end FileTree

end SegmentLog
