import Mathlib.Logic.Function.Basic
import SegmentLog.Proofs.Client.Action
import SegmentLog.Proofs.Session.Start

/-!
# What goes on around a log

A client writes to a log, pins and releases segments, and reads with any number of sessions and
supplies, call by call in any order. A scene is the client with an account of it: what was appended,
and for each session or supply that was opened on the open log what it was to give then and what the
client was told since. The account is kept beside the client and nothing the client does depends on
it.
-/
namespace SegmentLog

/-- What a client reads the log with. -/
inductive Feed
  | session (name : String)
  | supply (name : String)
deriving DecidableEq, Repr

/-- What is known of a session or supply. -/
structure Watch where
  /-- The records that were there from its start on when it was opened. -/
  due : List (Pointer × Record)
  /-- How many records had been appended by then. -/
  mark : ℕ
  /-- What the client was told whenever it read on. -/
  answers : List (Except Refusal Reading)
deriving DecidableEq, Repr

namespace Watch

def readings (w : Watch) : List Reading := w.answers.filterMap Except.toOption

def given (w : Watch) : List (Pointer × Record) := w.readings.flatMap (·.items)

/-- The client was told that nothing is left. -/
def Ended (w : Watch) : Prop := ∃ r ∈ w.readings, r.ending.isSome

/-- Reading has never failed. What was given is a run of records from the start on without gaps, and
once nothing is left it has all that were there when reading was opened. -/
structure Served (w : Watch) (appended : List (Pointer × Record)) : Prop where
  answers : ∀ a ∈ w.answers, ∃ r, a = .ok r ∧ ∀ error, r.ending ≠ some (.failed error)
  due : w.due ++ appended.drop w.mark <:+ appended
  given : w.given <+: w.due ++ appended.drop w.mark
  complete : w.Ended → w.due <+: w.given

end Watch

/-- A client, and an account of what it does. -/
structure Scene where
  client : Client
  /-- The records that were appended, with the pointers that were returned. -/
  appended : List (Pointer × Record)
  /-- What was opened on the open log and is not closed. -/
  watches : Feed → Option Watch

/-- What a client may be told to do. -/
inductive Call
  | openLog (config : Log.Config)
  | closeLog
  | append (record : Record)
  | flush
  | rotate
  | releaseBefore (segment : ℕ)
  | pin (name : String) (segment : ℕ)
  | pinUnchecked (name : String) (segment : ℕ)
  | unpin (name : String)
  /-- Open a session through the log, or straight on the directory. -/
  | openSession (direct : Bool) (name : String) (start : Option Pointer)
  | readSession (name : String) (count : ℕ)
  | closeSession (name : String)
  | dropSession (name : String)
  | openSupply (name : String) (maxGaps : ℕ) (counter : Option Snapshot) (start : Option Pointer)
  | readSupply (name : String) (count : ℕ)
  | dropSupply (name : String)
deriving DecidableEq, Repr

namespace Scene

/-- A client that has a place for its segments and nothing else. -/
def start (place : Place) (v : Volume) : Scene where
  client := { volume := v, place := some place }
  appended := []
  watches := fun _ => none

variable {α : Type}

/-- The client does something that the account need not mention. -/
def act (scene : Scene) (x : ClientM α) : Scene := { scene with client := final x scene.client }

/-- Whatever was opened on the log is no longer on an open one. -/
def turn (scene : Scene) (x : ClientM α) : Scene :=
  { scene with client := final x scene.client, watches := fun _ => none }

def append (scene : Scene) (record : Record) : Scene :=
  match Client.onLog (Log.append record) scene.client with
  | .ok p client => { scene with client, appended := scene.appended ++ [(p, record)] }
  | .error _ client => { scene with client }

def listed (scene : Scene) : List ℕ :=
  (scene.client.place.bind fun place => (place.list scene.client.volume).toOption).getD []

/-- What is to be read from a start on. -/
def watch (scene : Scene) (start : Option Pointer) : Watch where
  due := Session.due scene.listed start scene.appended
  mark := scene.appended.length
  answers := []

/-- Something to read with may be opened, instead of what there was. -/
def opening (scene : Scene) (feed : Feed) (watch : Option Watch) (x : ClientM α)
    (opens : α → Bool) : Scene :=
  match x scene.client with
  | .ok a client =>
    if opens a then { scene with client, watches := Function.update scene.watches feed watch }
    else { scene with client }
  | .error _ client => { scene with client }

/-- What the client is told. -/
def answer (x : ClientM α) (c : Client) : Except Refusal α :=
  match x c with
  | .ok a _ => .ok a
  | .error refusal _ => .error refusal

def reading (scene : Scene) (feed : Feed) (x : ClientM Reading) : Scene :=
  { scene with
    client := final x scene.client
    watches := Function.update scene.watches feed <| (scene.watches feed).map fun w =>
      { w with answers := w.answers ++ [answer x scene.client] } }

def closing (scene : Scene) (feed : Feed) (x : ClientM α) : Scene :=
  { scene with
    client := final x scene.client
    watches := Function.update scene.watches feed none }

def offersHistory : Rebalance.Offer → Bool
  | .historical _ => true
  | .full _ => false

def step (scene : Scene) : Call → Scene
  | .openLog config => scene.turn (Client.openLog config)
  | .closeLog => scene.turn Client.closeLog
  | .append record => scene.append record
  | .flush => scene.act (Client.onLog Log.flush)
  | .rotate => scene.act (Client.onLog Log.rotate)
  | .releaseBefore segment => scene.act (Client.onLog (Log.releaseBefore segment))
  | .pin name segment => scene.act (Client.pin name segment)
  | .pinUnchecked name segment => scene.act (Client.pinUnchecked name segment)
  | .unpin name => scene.act (Client.unpin name)
  | .openSession direct name start =>
    scene.opening (.session name) (if direct then none else scene.watch start)
      (Client.keepSession name direct start none) fun _ => true
  | .readSession name count => scene.reading (.session name) (Client.readSession name count)
  | .closeSession name => scene.closing (.session name) (Client.closeSession name)
  | .dropSession name => scene.closing (.session name) (Client.dropSession name)
  | .openSupply name maxGaps counter start =>
    scene.opening (.supply name) (scene.watch start)
      (Client.openHistory name maxGaps counter start) offersHistory
  | .readSupply name count => scene.reading (.supply name) (Client.readSupply name count)
  | .dropSupply name => scene.closing (.supply name) (Client.dropSupply name)

def run : List Call → Scene → Scene
  | [], scene => scene
  | call :: calls, scene => run calls (scene.step call)

/-- The start, if there is one, points to a record that was appended. -/
def Known (scene : Scene) (start : Option Pointer) : Prop :=
  ∀ p ∈ start, ∃ item ∈ scene.appended, item.1.address = p.address

instance (scene : Scene) (start : Option Pointer) : Decidable (scene.Known start) :=
  inferInstanceAs (Decidable (∀ p ∈ start, ∃ item ∈ scene.appended, item.1.address = p.address))

/-- Only records that can be written in full are appended, and reading is opened at a record. -/
def Proper (scene : Scene) : Call → Prop
  | .append record => record.WellFormed
  | .openSession direct _ start => direct = false → scene.Known start
  | .openSupply _ _ _ start => scene.Known start
  | _ => True

instance (scene : Scene) : (call : Call) → Decidable (scene.Proper call)
  | .append record => inferInstanceAs (Decidable record.WellFormed)
  | .openSession .. => inferInstanceAs (Decidable (_ → _))
  | .openSupply .. => inferInstanceAs (Decidable (scene.Known _))
  | .openLog _ | .closeLog | .flush | .rotate | .releaseBefore _ | .pin .. | .pinUnchecked ..
  | .unpin _ | .readSession .. | .closeSession _ | .dropSession _ | .readSupply ..
  | .dropSupply _ => inferInstanceAs (Decidable True)

/-- All calls of a run are proper when they are made. -/
def ProperRun : List Call → Scene → Prop
  | [], _ => True
  | call :: calls, scene => scene.Proper call ∧ ProperRun calls (scene.step call)

instance decidableProperRun : (calls : List Call) → (scene : Scene) →
    Decidable (ProperRun calls scene)
  | [], _ => inferInstanceAs (Decidable True)
  | call :: calls, scene =>
    let _ := decidableProperRun calls (scene.step call)
    inferInstanceAs (Decidable (scene.Proper call ∧ ProperRun calls (scene.step call)))

end Scene
end SegmentLog
