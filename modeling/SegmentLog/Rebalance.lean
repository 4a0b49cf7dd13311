import SegmentLog.Counter
import SegmentLog.Log

/-!
# Rebalancing

A partition that has to catch up is sent the history of the log from the pointer it got to, if
that is there in full and the partition's counter does not wait for too many updates. Otherwise
it is sent a copy of everything, which always works.
-/

namespace SegmentLog

namespace Rebalance

/-- Why history will not do. -/
inductive FullReason
  | noHistory
  | tooManyGaps (gaps limit : Nat)
  | segmentMissing (segment : Nat)
  | unreadable (header : Error)
deriving DecidableEq, Repr

def FullReason.message : FullReason → String
  | noHistory => "no log position to resume from"
  | tooManyGaps gaps limit => s!"{gaps} counter gaps exceed limit {limit}"
  | segmentMissing segment => s!"segment {segment} is missing"
  | unreadable header => "unreadable history: " ++ header.message

/-- Failures of a session to open that make a full copy necessary. -/
def FullReason.ofError? : Error → Option FullReason
  | .segmentMissing segment => some (.segmentMissing segment)
  | .header segment fault => some (.unreadable (.header segment fault))
  | _ => none

inductive Decision
  /-- Send the records from here on. -/
  | historical (start : Pointer)
  | full (reason : FullReason)
deriving DecidableEq, Repr

def Decision.isHistorical : Decision → Bool
  | historical _ => true
  | full _ => false

/-- How many gaps a counter may have where nothing else is asked for. -/
def defaultMaxGaps : Nat := 0

/-- The lowest segment from `expected` on that is not among the listed ones. -/
def firstMissing (expected : Nat) : List Nat → Nat
  | [] => expected
  | segment :: listed =>
    if segment = expected then firstMissing (Directory.indexAfter expected) listed else expected

/-- Choose for a partition that has the records before `start`. -/
def decide (maxGaps : Nat) (c : Counter) (log : Log) (v : Volume) (start : Option Pointer) :
    Except Error Decision := do
  let some start := start | return .full .noHistory
  if maxGaps < c.gapCount then
    return .full (.tooManyGaps c.gapCount maxGaps)
  let listed ← log.segments v
  let missing := firstMissing start.segment (listed.filter (start.segment ≤ ·))
  if missing ≤ log.active.segment then
    return .full (.segmentMissing missing)
  return .historical start

/-- History that is being sent. The segment it starts in stays pinned to the end. -/
structure Supply where
  session : Session
  pinned : Nat
deriving DecidableEq, Repr

/-- Open the history from a pointer on. -/
def openSupply (start : Pointer) : LogM Supply := do
  Log.pin start.segment
  try
    return ⟨← Log.replayRange (some start) none, start.segment⟩
  catch error =>
    LogM.enter (·.unpin start.segment)
    throw error

inductive Offer
  | historical (supply : Supply)
  | full (reason : FullReason)
deriving DecidableEq, Repr

/-- Choose, and open the history if that is the choice. A history that cannot be opened because
a segment is gone or has no usable header is no history. -/
def openHistory (maxGaps : Nat) (c : Counter) (start : Option Pointer) : LogM Offer := do
  match ← LogM.read fun v log => decide maxGaps c log v start with
  | .full reason => return .full reason
  | .historical start =>
    try
      return .historical (← openSupply start)
    catch error =>
      match FullReason.ofError? error with
      | some reason => return .full reason
      | none => throw error

end Rebalance

end SegmentLog
