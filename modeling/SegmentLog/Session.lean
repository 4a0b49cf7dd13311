import SegmentLog.Reader

/-!
# Reading a log

A session goes through the records of consecutive segments in log order. It covers the segments
that were there when it was opened, up to the segment of the pointer it stops at, if it has one.

Damage in the last segment it covers is taken for the torn end of the log and ends the session;
damage in an earlier one fails it. After either the session is exhausted, as it is after the last
record. Sessions only read, so `next` and what is built on it leave the volume alone.
-/

namespace SegmentLog

/-- Why a session gives no further record. -/
inductive Ending
  | finish
  /-- The last segment ends in damage. -/
  | tornTail
  | failed (error : Error)
deriving DecidableEq, Repr

structure Session where
  directory : Directory
  bufferSize : Nat
  /-- The segments that the session covers, in ascending order. -/
  segments : List Nat
  /-- Those after the one that is being read. -/
  ahead : List Nat
  /-- Stops before the record at this pointer or the first one after it. -/
  stop : Option Pointer
  /-- The reader on the current segment, unless the session is exhausted. -/
  reader : Option Reader
  /-- The record given last. -/
  last : Option Pointer
deriving DecidableEq, Repr

/-- Some records that a session gave, why there are no more if that is known, and the session
after them. -/
structure Reading where
  items : List (Pointer × Record)
  ending : Option Ending
  session : Session
deriving DecidableEq, Repr

def Reading.cons (item : Pointer × Record) (r : Reading) : Reading :=
  { r with items := item :: r.items }

namespace Session

/-- What a session fetches at a time where no log says otherwise. -/
def defaultBufferSize : Nat := 64 * 1024

def isExhausted (s : Session) : Bool := s.reader.isNone

/-- The segment that is being read, which must not be released. -/
def current? (s : Session) : Option Nat := s.reader.map (·.segment)

/-- The session without a reader. -/
def close (s : Session) : Session := { s with reader := none }

/-- The segments to read among those listed from the expected one on. -/
def coverage (stop : Option Pointer) : (expected : Nat) → List Nat → Except Error (List Nat)
  | _, [] => .ok []
  | expected, segment :: listed =>
    if stop.any (·.segment < segment) then .ok []
    else if segment ≠ expected then .error (.segmentMissing expected)
    else (coverage stop (expected + 1) listed).map (segment :: ·)

/-- Open a session before the record at `start`, or before the oldest record. The segment of
`start` must be there, and no segment after it may be missing. -/
def openRange (d : Directory) (v : Volume) (bufferSize : Nat) (start stop : Option Pointer) :
    Except Error Session := do
  let listed ← d.list v
  let some first := (start.map (·.segment)).or listed.head?
    | return { directory := d, bufferSize, segments := [], ahead := [], stop, reader := none,
               last := none }
  if !listed.contains first then
    throw (.segmentMissing first)
  let segments ← coverage stop first (listed.filter (first ≤ ·))
  let reader ← d.openReader v bufferSize first ((start.map (·.offset)).getD 0)
  return { directory := d, bufferSize, segments, ahead := segments.tail, stop,
           reader := some reader, last := none }

/-- Give a record, unless the session stops before it. -/
def give (s : Session) (reader : Reader) (ahead : List Nat) (p : Pointer) (record : Record) :
    Except Ending (Pointer × Record) × Session :=
  if s.stop.any fun stop => p.compare stop ≠ .lt then (.error .finish, s.close)
  else (.ok (p, record), { s with reader := some reader, ahead, last := some p })

/-- Damage ends the last segment and spoils any other. -/
def endingOf (fault : RecordFault) (reader : Reader) (ahead : List Nat) : Ending :=
  if ahead.isEmpty then .tornTail else .failed (.record reader.segment reader.position fault)

/-- Read on with `reader`, and with the segments ahead once it is done. -/
def readOn (v : Volume) (s : Session) (reader : Reader) (ahead : List Nat) :
    Except Ending (Pointer × Record) × Session :=
  match reader.next v with
  | .error fault => (.error (.failed (.storage fault)), s.close)
  | .ok (.record p record, reader) => s.give reader ahead p record
  | .ok (.damaged fault, reader) => (.error (endingOf fault reader ahead), s.close)
  | .ok (.finish, _) =>
    match ahead with
    | [] => (.error .finish, s.close)
    | segment :: ahead =>
      match s.directory.openReader v s.bufferSize segment 0 with
      | .error error => (.error (.failed error), s.close)
      | .ok reader => readOn v s reader ahead

/-- The next record, or why there is none. -/
def next (v : Volume) (s : Session) : Except Ending (Pointer × Record) × Session :=
  match s.reader with
  | none => (.error .finish, s)
  | some reader => s.readOn v reader s.ahead

/-- The next `count` records, if there are so many. -/
def take (v : Volume) : (count : Nat) → Session → Reading
  | 0, s => ⟨[], none, s⟩
  | count + 1, s =>
    match s.next v with
    | (.ok item, s) => (take v count s).cons item
    | (.error ending, s) => ⟨[], some ending, s⟩

/-- Bytes before a session that has these segments ahead of `reader`. -/
def bytesAhead (v : Volume) (s : Session) (reader : Reader) (ahead : List Nat) : Nat :=
  reader.remaining + ahead.foldr (fun segment len => s.directory.segmentSize v segment + len) 0

/-- Bytes that a session has not passed, as far as its segments can be read. -/
def remaining (v : Volume) (s : Session) : Nat :=
  s.reader.elim 0 (s.bytesAhead v · s.ahead)

theorem remaining_lt_of_give {v : Volume} {s s' : Session} {reader reader' : Reader}
    {ahead : List Nat} {p : Pointer} {record : Record} {item : Pointer × Record}
    (hn : reader.next v = .ok (.record p record, reader'))
    (h : s.give reader' ahead p record = (.ok item, s')) :
    s'.remaining v < s.bytesAhead v reader ahead := by
  have := Reader.remaining_lt_of_next hn
  unfold give at h
  split at h
  · simp at h
  · simp only [Prod.mk.injEq] at h
    obtain ⟨-, rfl⟩ := h
    simp only [remaining, Option.elim, bytesAhead]
    omega

theorem remaining_lt_of_readOn {v : Volume} {s s' : Session} {reader : Reader} {ahead : List Nat}
    {item : Pointer × Record} (h : s.readOn v reader ahead = (.ok item, s')) :
    s'.remaining v < s.bytesAhead v reader ahead := by
  induction ahead generalizing reader with
  | nil =>
    unfold readOn at h
    cases hn : reader.next v with
    | error fault => simp [hn] at h
    | ok found =>
      obtain ⟨outcome, reader'⟩ := found
      cases outcome with
      | record p record => exact remaining_lt_of_give hn (by simpa only [hn] using h)
      | damaged fault => simp [hn] at h
      | finish => simp [hn] at h
  | cons segment ahead ih =>
    unfold readOn at h
    cases hn : reader.next v with
    | error fault => simp [hn] at h
    | ok found =>
      obtain ⟨outcome, reader'⟩ := found
      cases outcome with
      | record p record => exact remaining_lt_of_give hn (by simpa only [hn] using h)
      | damaged fault => simp [hn] at h
      | finish =>
        simp only [hn] at h
        cases ho : s.directory.openReader v s.bufferSize segment 0 with
        | error error => simp [ho] at h
        | ok next =>
          have := @ih next (by simpa only [ho] using h)
          have := Directory.remaining_le_segmentSize ho
          simp only [bytesAhead, List.foldr_cons] at *
          omega

/-- A record takes bytes off what remains, so reading a log ends. -/
theorem remaining_lt_of_next {v : Volume} {s s' : Session} {item : Pointer × Record}
    (h : s.next v = (.ok item, s')) : s'.remaining v < s.remaining v := by
  unfold next at h
  cases hr : s.reader with
  | none => simp [hr] at h
  | some reader =>
    have := remaining_lt_of_readOn (by simpa only [hr] using h)
    simpa only [remaining, hr, Option.elim] using this

/-- All records that are left. -/
def drain (v : Volume) (s : Session) : Reading :=
  match _h : s.next v with
  | (.ok item, s') => (drain v s').cons item
  | (.error ending, s') => ⟨[], some ending, s'⟩
termination_by s.remaining v
decreasing_by exact remaining_lt_of_next _h

theorem drain_of_next_ok {v : Volume} {s s' : Session} {item : Pointer × Record}
    (h : s.next v = (.ok item, s')) : s.drain v = (s'.drain v).cons item := by
  rw [drain]
  split <;> simp_all

theorem drain_of_next_error {v : Volume} {s s' : Session} {ending : Ending}
    (h : s.next v = (.error ending, s')) : s.drain v = ⟨[], some ending, s'⟩ := by
  rw [drain]
  split <;> simp_all

/-- Asking for enough records gives all of them. -/
theorem take_eq_drain {v : Volume} {count : Nat} {s : Session}
    (h : (s.take v count).ending.isSome) : s.take v count = s.drain v := by
  induction count generalizing s with
  | zero => simp [take] at h
  | succ count ih =>
    unfold take at h ⊢
    split
    · rename_i item s' hn
      rw [drain_of_next_ok hn, ih (by simpa [hn, Reading.cons] using h)]
    · rename_i ending s' hn
      rw [drain_of_next_error hn]

end Session

end SegmentLog
