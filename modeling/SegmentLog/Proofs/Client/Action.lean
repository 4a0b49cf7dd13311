import Mathlib.Data.Nat.Notation
import SegmentLog.Client.Log
import SegmentLog.Proofs.Record.RoundTrip
import SegmentLog.Proofs.Success

/-!
# What a client is told to do

The calls by which a log in memory comes about, and an account of the appends among them: what was
to be appended, whether it was written, and what the caller was told. Whether a record was written
is decided before a flush that the log may owe to its configuration.
-/
namespace SegmentLog.Client

/-- The calls by which a log in memory comes about. -/
inductive Action
  /-- Give up the log, and put a new fuse before those who write to the directory. -/
  | simulate
  | openLog (config : Log.Config)
  | closeLog
  | append (record : Record)
  | flush
  | rotate
  /-- Let the fuse blow once so many more bytes have been written. -/
  | arm (len : ℕ)
  /-- Let the next flush or sync blow the fuse, or no longer do so. -/
  | failSync (fail : Bool)
deriving DecidableEq, Repr

/-- What came of appending a record. -/
structure Attempt where
  /-- The fuse that writers went through. -/
  fuse : Option FuseId
  record : Record
  /-- Where the record was written, if it was, whatever became of a flush after that. -/
  written : Option Pointer
  answer : Except Refusal Pointer

namespace Attempt

/-- Append a record. -/
def make (c : Client) (record : Record) : Attempt where
  fuse := c.fused.map (·.2)
  record := record
  written :=
    match onLog (Log.write record) c with
    | .ok p _ => some p
    | .error _ _ => none
  answer :=
    match onLog (Log.append record) c with
    | .ok p _ => .ok p
    | .error refusal _ => .error refusal

/-- What the log gained. -/
def entry (a : Attempt) : Option (Pointer × Record) := a.written.map (·, a.record)

/-- What the caller was told that the log gained. -/
def acknowledged (a : Attempt) : Option (Pointer × Record) :=
  match a.answer with
  | .ok p => some (p, a.record)
  | .error _ => none

/-- The record was written, but the caller was told of a failure. -/
def Unconfirmed (a : Attempt) : Prop := a.entry.isSome ∧ a.acknowledged = none

instance (a : Attempt) : Decidable a.Unconfirmed := inferInstanceAs (Decidable (_ ∧ _))

end Attempt

namespace Action

def call : Action → ClientM Unit
  | simulate => do
    Client.closeLog
    installFuse
  | openLog config => do
    let _ ← Client.openLog config
  | closeLog => Client.closeLog
  | append record => do
    let _ ← onLog (Log.append record)
  | flush => onLog Log.flush
  | rotate => do
    let _ ← onLog Log.rotate
  | arm len => do armFuse (← getFuse) len
  | failSync fail => do Client.failSync (← getFuse) fail

def attempts (c : Client) : Action → List Attempt
  | append record => [.make c record]
  | _ => []

/-- Only records that can be written in full are appended. -/
def WellFormed : Action → Prop
  | append record => record.WellFormed
  | _ => True

instance : (a : Action) → Decidable a.WellFormed
  | append record => inferInstanceAs (Decidable record.WellFormed)
  | simulate | openLog _ | closeLog | flush | rotate | arm _ | failSync _ =>
    inferInstanceAs (Decidable True)

end Action

/-- A client after some calls, and what came of the appends. -/
def run : List Action → Client × List Attempt → Client × List Attempt
  | [], state => state
  | a :: as, (c, history) => run as (final a.call c, history ++ a.attempts c)

end SegmentLog.Client
