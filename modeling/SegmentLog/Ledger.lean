import SegmentLog.Pins
import SegmentLog.Session

/-!
# Ledgers

What a log and the sessions that read it have in common: the pins on segments and the figures of
their work. A session holds one pin, on the segment it is reading; it takes the pin on the next
segment before it gives up the one on the last, and has none once it is exhausted.
-/

namespace SegmentLog

/-- Figures of the work on a log. They only grow. -/
structure Stats where
  recordsAppended : Nat := 0
  bytesAppended : Nat := 0
  flushes : Nat := 0
  segmentsCreated : Nat := 0
  segmentsRemoved : Nat := 0
  replaySessions : Nat := 0
  recordsReplayed : Nat := 0
  bytesReplayed : Nat := 0
  /-- Damaged ends of newest segments that were taken for the end of the log. -/
  tailsDiscarded : Nat := 0
deriving DecidableEq, Repr, Inhabited

namespace Stats

def appended (s : Stats) (len : Nat) : Stats :=
  { s with recordsAppended := s.recordsAppended + 1, bytesAppended := s.bytesAppended + len }

def flushed (s : Stats) : Stats := { s with flushes := s.flushes + 1 }

def created (s : Stats) : Stats := { s with segmentsCreated := s.segmentsCreated + 1 }

def removed (s : Stats) : Stats := { s with segmentsRemoved := s.segmentsRemoved + 1 }

def sessionOpened (s : Stats) : Stats := { s with replaySessions := s.replaySessions + 1 }

def replayed (s : Stats) (len : Nat) : Stats :=
  { s with recordsReplayed := s.recordsReplayed + 1, bytesReplayed := s.bytesReplayed + len }

def tailDiscarded (s : Stats) : Stats := { s with tailsDiscarded := s.tailsDiscarded + 1 }

end Stats

structure Ledger where
  pins : Pins := []
  stats : Stats := {}
deriving DecidableEq, Repr, Inhabited

namespace Ledger

def count (l : Ledger) (f : Stats → Stats) : Ledger := { l with stats := f l.stats }

def pin (l : Ledger) (segment : Nat) : Ledger := { l with pins := l.pins.pin segment }

def unpin (l : Ledger) (segment : Nat) : Ledger := { l with pins := l.pins.unpin segment }

/-- Move a pin from one segment to another. -/
def movePin (l : Ledger) (old new : Option Nat) : Ledger :=
  let l := new.elim l l.pin
  old.elim l l.unpin

/-- A session was opened: its segment is pinned. -/
def hold (l : Ledger) (s : Session) : Ledger := l.movePin none s.current?

/-- A session was closed: its segment is no longer pinned. -/
def release (l : Ledger) (s : Session) : Ledger := l.movePin s.current? none

/-- A session gave some records. -/
def follow (l : Ledger) (before : Session) (r : Reading) : Ledger :=
  let l := r.items.foldl (fun l item => l.count (·.replayed item.1.length)) l
  let l := if r.ending = some .tornTail then l.count .tailDiscarded else l
  l.movePin before.current? r.session.current?

end Ledger

end SegmentLog
