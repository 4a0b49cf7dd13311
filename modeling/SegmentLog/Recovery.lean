import SegmentLog.Counter
import SegmentLog.Record.Reference
import SegmentLog.Session

/-!
# Recovery

After a crash the log is read from a pointer on. Its pages go to a page store, and the counter of
every partition is rebuilt: from its seed, from each checkpoint that names it, and from each
update in the log.

A checkpoint is taken while updates are being logged, so the log may repeat an update that the
last persisted state of its partition already has in a gap. Such an update confirms the gap and
is not completed again. Any other repetition is an error while a lower number is missing.
-/

namespace SegmentLog

/-- Receives the records of a log, page updates with their bytes. -/
abbrev PageStore (σ : Type) := Pointer → Record → EStateM Error σ Unit

namespace Recovery

/-- What a recovery is given. -/
structure Plan where
  /-- Where to start, if not at the oldest record. -/
  start : Option Pointer := none
  /-- For the counters. -/
  config : Counter.Config := {}
  /-- States that were persisted apart from the log. -/
  seeds : Table PartitionKey Snapshot := []
deriving DecidableEq, Repr, Inhabited

/-- What has been recovered. -/
structure State where
  counters : Table PartitionKey Counter := []
  /-- The last persisted state of each partition that has one. -/
  persisted : Table PartitionKey Snapshot := []
  lastPointer : Option Pointer := none
  lastCheckpoint : Option UInt64 := none
  /-- How many records went to the page store. -/
  applied : Nat := 0
deriving DecidableEq, Repr, Inhabited

namespace State

def counter (st : State) (config : Counter.Config) (key : PartitionKey) : Counter :=
  (st.counters.get? key).getD { config }

/-- The partitions whose counters wait for updates. -/
def withGaps (st : State) : List PartitionKey :=
  (st.counters.filter fun e => !e.2.isSequential).map (·.1)

/-- Take over the persisted state of a partition. -/
def restore (config : Counter.Config) (st : State) (key : PartitionKey) (s : Snapshot) :
    Except Error State := do
  let c ← ((st.counter config key).restore s).mapError .format
  return { st with counters := st.counters.insert key c, persisted := st.persisted.insert key s }

/-- The log repeats an update that the partition's persisted state has in a gap. -/
def confirmsGap (st : State) (config : Counter.Config) (key : PartitionKey) (number : UInt64) :
    Bool :=
  (st.persisted.get? key).any (·.inGap number) && (st.counter config key).isCompleted number.toNat

/-- Complete an update that is in the log. -/
def complete (config : Counter.Config) (st : State) (key : PartitionKey) (number : UInt64) :
    Except Error State := do
  let c := st.counter config key
  if st.confirmsGap config key number then
    return { st with counters := st.counters.insert key c }
  let (c, _) ← (c.complete number.toNat 1).mapError .counter
  return { st with counters := st.counters.insert key c }

/-- Account for a record. Those that are not markers go to the page store. -/
def absorb (config : Counter.Config) (st : State) : Record → Except Error (State × Bool)
  | .header _ => .ok (st, false)
  | .checkpoint id partitions => do
    let st ← partitions.foldlM (fun st p => st.restore config p.key p.counter) st
    return ({ st with lastCheckpoint := some id }, false)
  | .data key number _ => return (← st.complete config key number, true)
  | .pageInsert .. | .pageUpdate _ | .pageRemove .. => .ok (st, true)

end State

/-- The counters of the seeds. -/
def State.ofSeeds (plan : Plan) : Except Error State :=
  plan.seeds.foldlM (fun st e => st.restore plan.config e.1 e.2) {}

/-- Run a computation that leaves the page store alone. -/
def ofExcept {σ α : Type} : Except Error α → EStateM Error σ α
  | .ok a => return a
  | .error error => throw error

variable {σ : Type}

/-- Recover one record; `read` fetches the records that page updates refer to. -/
def step (read : Pointer → Except Error Record) (config : Counter.Config) (store : PageStore σ)
    (st : State) (item : Pointer × Record) : EStateM Error σ State := do
  let record ← ofExcept (item.2.resolve read)
  let (st, toStore) ← ofExcept ({ st with lastPointer := some item.1 }.absorb config record)
  if toStore then
    store item.1 record
    return { st with applied := st.applied + 1 }
  return st

/-- Recover from the log in a directory. -/
def run (d : Directory) (v : Volume) (plan : Plan) (store : PageStore σ) :
    EStateM Error σ State := do
  let st ← ofExcept (State.ofSeeds plan)
  let s ← ofExcept (Session.openRange d v Session.defaultBufferSize plan.start none)
  let r := s.drain v
  let read := d.readRecord v Session.defaultBufferSize
  let st ← r.items.foldlM (step read plan.config store) st
  match r.ending with
  | some (.failed error) => throw error
  | _ => return st

end Recovery

/-- A page store that keeps what it receives. It can be made to refuse a record: the one that
comes when it holds `refuseAt` of them. -/
def PageStore.recording (refuseAt : Option Nat) : PageStore (List (Pointer × Record)) :=
  fun p record => do
    let held ← get
    if refuseAt = some held.length then
      throw (.argument .refusedByStore)
    set (held ++ [(p, record)])

end SegmentLog
