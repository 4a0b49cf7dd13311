import SegmentLog.Error
import SegmentLog.Store.FileTree

/-!
# Routes to files

A route is a path as it is given, to be walked from the root step by step. Every step but the
last one starts from a folder that is there, so `x/../f` leads to `f` only if there is a folder
`x`. What the text ends in matters too: after a slash only a folder is meant, and a dot at the
end is a step within the folder before it, which has to be there.
-/

namespace SegmentLog

/-- One step of a route. A step up from the root stays there. -/
inductive Step
  | up
  | down (name : String)
deriving DecidableEq, Repr

/-- What the text of a route ends in. -/
inductive RouteEnd
  | plain
  | slash
  | dot
deriving DecidableEq, Repr

structure Route where
  shown : String
  steps : List Step
  ending : RouteEnd
deriving DecidableEq, Repr

namespace Route

/-- The step that a part between slashes stands for; an empty part and a dot are none. -/
def step? : String → Option Step
  | "" | "." => none
  | ".." => some .up
  | name => some (.down name)

def endOf (parts : List String) : RouteEnd :=
  match parts.reverse.dropWhile (·.isEmpty) with
  | "." :: _ => .dot
  | _ => if parts.getLast? = some "" then .slash else .plain

/-- The route with this text below `root`. -/
def ofText (root text : String) : Route :=
  let parts := text.splitOn "/"
  { shown := Path.join root text, steps := parts.filterMap step?, ending := endOf parts }

/-- The route without its last step. -/
def parent (r : Route) : Route := { r with steps := r.steps.dropLast, ending := .plain }

/-- The name that the route ends in, if it ends in one. -/
def name? (r : Route) : Option String :=
  match r.ending, r.steps.getLast? with
  | .dot, _ => none
  | _, some (.down name) => some name
  | _, _ => none

end Route

namespace FileTree

/-- The folder that steps through folders lead to. -/
def walk (t : FileTree) (here : List String) : List Step → Except IoFault (List String)
  | [] => .ok here
  | .up :: steps => walk t here.dropLast steps
  | .down name :: steps =>
    match t.get? (here ++ [name]) with
    | some .folder => walk t (here ++ [name]) steps
    | some (.file _) => .error .notAFolder
    | none => .error .notFound

/-- Where a route leads, whether anything has the name it ends in or not. -/
def locate (t : FileTree) (r : Route) : Except IoFault Path :=
  match r.name? with
  | some name => (t.walk [] r.steps.dropLast).map fun folder => ⟨r.shown, folder ++ [name]⟩
  | none => (t.walk [] r.steps).map fun folder => ⟨r.shown, folder⟩

/-- Where a route leads to a folder or file. -/
def follow (t : FileTree) (r : Route) : Except IoFault (Path × Entry) :=
  match t.locate r with
  | .error fault => .error fault
  | .ok path =>
    match t.entry? path.parts with
    | none => .error .notFound
    | some .folder => .ok (path, .folder)
    | some (.file content) =>
      if r.ending = .slash then .error .notAFolder else .ok (path, .file content)

/-- Where the file that a route names is or is to be. -/
def locateFile (t : FileTree) (r : Route) : Except IoFault Path :=
  match t.locate r with
  | .error fault => .error fault
  | .ok path => if r.ending = .slash then .error .isAFolder else .ok path

def isFolder (t : FileTree) (r : Route) : Bool :=
  (t.follow r).toOption.any (·.2 = .folder)

/-! ## Creating folders -/

def createFolder (t : FileTree) (r : Route) : Except IoFault FileTree :=
  match t.locate r with
  | .error fault => .error fault
  | .ok path =>
    if (t.entry? path.parts).isSome then .error .alreadyExists
    else .ok (t.insert path.parts .folder)

/-- Create a folder that may be there already. -/
def ensureFolder (t : FileTree) (r : Route) : Except IoFault FileTree :=
  match t.createFolder r with
  | .ok t => .ok t
  | .error fault => if t.isFolder r then .ok t else .error fault

/-- Create a folder and what is missing on the way to it, from the first folder on. What was
created before a failure stays. -/
def createFolders (t : FileTree) (r : Route) : Except IoFault Unit × FileTree :=
  match t.ensureFolder r with
  | .ok t => (.ok (), t)
  | .error fault =>
    if fault = .notFound ∧ r.steps ≠ [] then
      match createFolders t r.parent with
      | (.ok (), t) =>
        match t.ensureFolder r with
        | .ok t => (.ok (), t)
        | .error fault => (.error fault, t)
      | failed => failed
    else (.error fault, t)
termination_by r.steps.length
decreasing_by
  rename_i h
  have := List.length_pos_iff.mpr h.2
  simp only [Route.parent, List.length_dropLast]
  omega

end FileTree

end SegmentLog
