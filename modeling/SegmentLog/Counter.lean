import SegmentLog.Error
import SegmentLog.Runs
import SegmentLog.Snapshot

/-!
# Update counters

Every update of a partition has a number, from 1 on. A writer reserves numbers, logs the
updates, then reports them complete, and reports may come in any order. The counter keeps
`applied`, below and at which everything is complete; the completed runs above it, its gaps,
each waiting for a lower number; and `reserved`, the highest number handed out.

Numbers are below `limit`. `reserve` wraps there; `complete` refuses what would pass it. A call
that fails leaves the counter as it was, except that `next` keeps the numbers it reserved.
-/

namespace SegmentLog

namespace Counter

structure Config where
  /-- A completion that would leave more gaps than this is refused. -/
  maxGaps : Nat := 10000
  /-- The number of gaps from which growth is worth a warning. -/
  warnGaps : Nat := 1000
deriving DecidableEq, Repr, Inhabited

/-- What an observer of the counter is told. -/
inductive Event
  /-- A completed block was kept as a gap; there are now `gaps` of them. -/
  | gap (start len gaps : Nat)
  | applied (old new : Nat)
deriving DecidableEq, Repr

/-- Update numbers are 64-bit words. -/
def limit : Nat := UInt64.size

end Counter

structure Counter where
  config : Counter.Config := {}
  applied : Nat := 0
  gaps : Runs := []
  reserved : Nat := 0
  /-- The value of `applied` when the partition was opened or last rebalanced. -/
  initial : Nat := 0
deriving DecidableEq, Repr, Inhabited

namespace Counter

def isSequential (c : Counter) : Bool := c.gaps.isEmpty

def gapCount (c : Counter) : Nat := c.gaps.length

/-- The update is known to be complete. There is no update 0. -/
def isCompleted (c : Counter) (n : Nat) : Bool :=
  n ≠ 0 ∧ (n ≤ c.applied ∨ c.gaps.contains n)

def snapshot (c : Counter) : Snapshot where
  applied := .ofNat c.applied
  gaps := c.gaps.map fun r => ⟨.ofNat r.start, .ofNat r.len⟩

def setInitial (c : Counter) (value : Nat) : Counter := { c with initial := value }

/-- An empty counter with the same configuration. -/
def reset (c : Counter) : Counter := { config := c.config }

/-- Hand out `len` numbers; the answer is the first of them. -/
def reserve (c : Counter) (len : Nat) : Nat × Counter :=
  ((c.reserved + 1) % limit, { c with reserved := (c.reserved + len) % limit })

/-- Advance `applied` to `level` and on through the gaps it reaches. -/
def advance (c : Counter) (level : Nat) : Counter × Event :=
  let (level, gaps) := c.gaps.absorb level
  ({ c with applied := level, gaps }, .applied c.applied level)

/-- Keep a completed block above a number that is still missing. -/
def keepGap (c : Counter) (block : Run) : Except CounterFault (Counter × Event) :=
  if c.gaps.any block.touches ∨ c.gapCount < c.config.maxGaps then
    let gaps := c.gaps.add block
    .ok ({ c with gaps, reserved := max c.reserved (block.stop - 1) },
      .gap block.start block.len gaps.length)
  else .error (.tooManyGaps c.config.maxGaps block.start)

/-- Report `len` updates from `start` on complete. There is no event if all of them were
complete already. -/
def complete (c : Counter) (start len : Nat) : Except CounterFault (Counter × Option Event) :=
  let block : Run := ⟨start, start + len⟩
  if len = 0 then .error (.emptyCompletion start)
  else if start = 0 then .error .zeroStart
  else if limit ≤ block.stop then .error (.overflow start len)
  else if block.stop ≤ c.applied + 1 then .ok (c, none)
  else if start ≤ c.applied then .error (.straddles start len c.applied)
  else match (c.gaps.filter block.overlaps).getLast? with
    | some gap => .error (.overlaps start len gap.start gap.len)
    | none =>
      if start = c.applied + 1 then
        let (c, event) := c.advance (block.stop - 1)
        .ok ({ c with reserved := max c.reserved (block.stop - 1) }, some event)
      else (c.keepGap block).map fun (c, event) => (c, some event)

/-- Reserve numbers and report them complete at once; the answer is the first of them. -/
def next (c : Counter) (len : Nat) : Except CounterFault Nat × Counter × Option Event :=
  let (start, c) := c.reserve len
  match c.complete start len with
  | .ok (c, event) => (.ok start, c, event)
  | .error fault => (.error fault, c, none)

/-- Take over a snapshot. Gaps that touch become one, and gaps that reach `applied` advance it. No
gap is to have the last number of all: its end would be no word. -/
def restore (c : Counter) (s : Snapshot) : Except FormatFault Counter := do
  s.validate
  let runs := s.gaps.map fun g => (⟨g.start.toNat, g.start.toNat + g.len.toNat⟩ : Run)
  let (level, gaps) := (Runs.ofList runs).absorb s.applied.toNat
  return { c with applied := level, gaps, reserved := gaps.highest level, initial := level }

/-- A fresh counter that has read back the bytes of this one's snapshot. -/
def reload (c : Counter) : Except FormatFault Counter := do
  c.reset.restore (← Snapshot.decode c.snapshot.encode)

/-- What is missing below the last gap. The number after the last one of all is 0. -/
def missing (c : Counter) : List Run :=
  (c.gaps.holes c.applied).map fun r => ⟨r.start % limit, r.stop⟩

/-- Give up on everything missing below the last gap. The answer is what was given up. -/
def finalize (c : Counter) : List Run × Counter × Option Event :=
  let level := c.gaps.highest c.applied
  (c.missing, { c with applied := level, gaps := [] },
    if c.missing.isEmpty then none else some (.applied c.applied level))

/-- Move `applied` up to `level`, with the gaps that start at most one number later. The number
after the last one of all is 0, where no gap starts. -/
def jump (c : Counter) (level : Nat) : Counter × Event :=
  if level + 1 = limit then ({ c with applied := level }, .applied c.applied level)
  else c.advance level

/-- Move `applied` up to `value`, as after a copy of the whole partition. -/
def moveTo (c : Counter) (value : Nat) : Except CounterFault (Counter × Option Event) :=
  if value < c.applied then .error (.backwards c.applied value)
  else if value = c.applied then .ok (c, none)
  else
    let (c, event) := c.jump value
    .ok ({ c with reserved := max c.reserved c.applied }, some event)

end Counter

end SegmentLog
