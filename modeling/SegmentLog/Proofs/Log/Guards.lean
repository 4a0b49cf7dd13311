import SegmentLog.Proofs.Ledger.Tidy
import SegmentLog.Proofs.Log.Replay

/-!
# Pins that are taken first

A segment is to be pinned before anything is looked up in it, so that it is not released meanwhile,
and whoever fails gives the pin back. The calls of a log look first and only enter what is kept in
the end. For a tidy pin table that comes to the same: a pin that is given back leaves no trace.
-/
namespace SegmentLog

namespace Ledger
variable {l : Ledger}

theorem unpin_pin (h : l.pins.Tidy) (k : ℕ) : (l.pin k).unpin k = l := by
  rw [Ledger.unpin, Ledger.pin, h.unpin_pin k]

end Ledger

namespace Log
open LogM
variable {α : Type}

/-- Take a pin, and give it back if what follows fails. -/
def guarding (segment : ℕ) (x : LogM α) : LogM α := do
  enter (·.pin segment)
  try
    x
  catch error =>
    enter (·.unpin segment)
    throw error

/-- Hold a pin while something goes on. -/
def holding (segment : ℕ) (x : LogM α) : LogM α := do
  let a ← guarding segment x
  enter (·.unpin segment)
  return a

variable {f : Volume → Log → Except Error α} {s : Volume × Log} {segment : ℕ}

/-- Nothing in the ledger makes a difference. -/
def Unledgered (f : Volume → Log → Except Error α) : Prop :=
  ∀ v log ledger, f v { log with ledger } = f v log

theorem book_unpin_pin (tidy : s.2.ledger.pins.Tidy) (segment : ℕ) :
    book s ((s.2.ledger.pin segment).unpin segment) = s := by
  rw [Ledger.unpin_pin tidy]
  rfl

theorem guarding_of_ok {a : α} (plain : Unledgered f) (h : f s.1 s.2 = .ok a) :
    guarding segment (read f) s = .ok a (book s (s.2.ledger.pin segment)) := by
  have found : read f (book s (s.2.ledger.pin segment)) =
    .ok a (book s (s.2.ledger.pin segment)) := read_of_ok ((plain ..).trans h)
  exact run_tryCatch_of_ok found

theorem guarding_of_error {e : Error} (plain : Unledgered f) (tidy : s.2.ledger.pins.Tidy)
    (h : f s.1 s.2 = .error e) : guarding segment (read f) s = .error e s := by
  have failed : read f (book s (s.2.ledger.pin segment)) =
    .error e (book s (s.2.ledger.pin segment)) := read_of_error ((plain ..).trans h)
  have undone : guarding segment (read f) s =
    .error e (book s ((s.2.ledger.pin segment).unpin segment)) := run_tryCatch_of_error failed
  rw [undone, book_unpin_pin tidy]

theorem holding_read (plain : Unledgered f) (tidy : s.2.ledger.pins.Tidy) (segment : ℕ) :
    holding segment (read f) s = read f s := by
  cases h : f s.1 s.2 with
  | ok a =>
      rw [read_of_ok h, holding, run_bind_of_ok (guarding_of_ok plain h)]
      exact congrArg (EStateM.Result.ok a) (book_unpin_pin tidy segment)
  | error e =>
      rw [read_of_error h, holding, run_bind_of_error (guarding_of_error plain tidy h)]

/-! ## Calls of a log -/

/-- A record is read while its segment is held. -/
theorem readRecord_holding (tidy : s.2.ledger.pins.Tidy) (p : Pointer) :
    holding p.segment (read fun v log => log.readRecord v p) s =
      read (fun v log => log.readRecord v p) s :=
  holding_read (fun _ _ _ => rfl) tidy p.segment

/-- Fail unless a segment is listed. -/
def listing (segment : ℕ) (v : Volume) (log : Log) : Except Error Unit := do
  let listed ← log.segments v
  if !listed.contains segment then
    throw (.segmentMissing segment)

theorem pin_guarding (tidy : s.2.ledger.pins.Tidy) (segment : ℕ) :
    guarding segment (read (listing segment)) s = Log.pin segment s := by
  have plain : Unledgered (listing segment) := fun _ _ _ => rfl
  unfold Log.pin
  cases listed : s.2.segments s.1 with
  | error e =>
      have failed := read_of_error (f := fun v log => log.segments v) listed
      have refused : listing segment s.1 s.2 = .error e := by rw [listing, listed]; rfl
      rw [guarding_of_error plain tidy refused, run_bind_of_error failed]
  | ok segments =>
      rw [run_bind_of_ok (read_of_ok (f := fun v log => log.segments v) listed)]
      cases there : segments.contains segment with
      | true =>
          have found : listing segment s.1 s.2 = .ok () := by
            rw [listing, listed]
            dsimp only [bind, Except.bind]
            rw [there]
            rfl
          rw [guarding_of_ok plain found]
          rfl
      | false =>
          have refused : listing segment s.1 s.2 = .error (.segmentMissing segment) := by
            rw [listing, listed]
            dsimp only [bind, Except.bind]
            rw [there]
            rfl
          rw [guarding_of_error plain tidy refused]
          rfl

end Log

theorem Directory.segment_of_openReader {d : Directory} {v : Volume} {bufferSize segment start : ℕ}
    {r : Reader} (h : d.openReader v bufferSize segment start = .ok r) : r.segment = segment := by
  obtain ⟨store, -, h⟩ := bind_eq_ok.mp h
  obtain ⟨head, -, h⟩ := bind_eq_ok.mp h
  obtain ⟨format, -, h⟩ := bind_eq_ok.mp h
  dsimp only at h
  split at h
  · cases h
  · cases h
    rfl

/-- A session is on the segment that it starts in. -/
theorem Session.current?_of_openRange {d : Directory} {v : Volume} {bufferSize : ℕ}
    {start stop : Option Pointer} {s : Session} (h : openRange d v bufferSize start stop = .ok s) :
    s.current? = (start.map (·.segment)).or ((d.list v).toOption.bind (·.head?)) := by
  obtain ⟨listed, found, h⟩ := bind_eq_ok.mp h
  rw [found]
  dsimp only [Except.toOption, Option.bind] at h ⊢
  cases first : (start.map (·.segment)).or listed.head? with
  | none =>
      rw [first] at h
      cases h
      rfl
  | some k =>
      rw [first] at h
      dsimp only at h
      split at h
      · cases h
      obtain ⟨segments, -, h⟩ := bind_eq_ok.mp h
      obtain ⟨reader, opened, h⟩ := bind_eq_ok.mp h
      cases h
      exact congrArg some (Directory.segment_of_openReader opened)

namespace Log
open LogM
variable {s : Volume × Log}

/-- Open a session, with the segment that it starts in pinned before anything else. -/
def replayRangeHeld (start stop : Option Pointer) : LogM Session := do
  enter (·.count .sessionOpened)
  let session := fun v log => Session.openRange log.directory v log.config.bufferSize start stop
  let (v, log) ← get
  match (start.map (·.segment)).or ((log.segments v).toOption.bind (·.head?)) with
  | some first => guarding first (read session)
  | none => read session

theorem replayRange_held (tidy : s.2.ledger.pins.Tidy) (start stop : Option Pointer) :
    replayRangeHeld start stop s = replayRange start stop s := by
  have counted : enter (·.count .sessionOpened) s =
    .ok () (book s (s.2.ledger.count .sessionOpened)) := rfl
  have tidy : (book s (s.2.ledger.count .sessionOpened)).2.ledger.pins.Tidy := tidy
  unfold replayRangeHeld replayRange
  rw [run_bind_of_ok counted, run_bind_of_ok counted]
  generalize book s (s.2.ledger.count .sessionOpened) = s at tidy
  dsimp only
  rw [run_get_bind]
  have plain : Unledgered fun v log =>
    Session.openRange log.directory v log.config.bufferSize start stop := fun _ _ _ => rfl
  cases opened : Session.openRange s.2.directory s.1 s.2.config.bufferSize start stop with
  | error e =>
      rw [run_bind_of_error (read_of_error opened)]
      cases (start.map (·.segment)).or ((s.2.segments s.1).toOption.bind (·.head?)) with
      | some first => exact guarding_of_error plain tidy opened
      | none => exact read_of_error opened
  | ok session =>
      have on : session.current? = (start.map (·.segment)).or
        ((s.2.segments s.1).toOption.bind (·.head?)) := Session.current?_of_openRange opened
      have held : enter (·.hold session) s = .ok () (book s (s.2.ledger.hold session)) := rfl
      rw [run_bind_of_ok (read_of_ok opened), run_bind_of_ok held, Ledger.hold, ← on]
      cases session.current? with
      | some first => exact guarding_of_ok plain opened
      | none => exact read_of_ok opened

/-- Calls that take their pins first do what the log does. -/
structure PinsFirst (s : Volume × Log) : Prop where
  readRecord : ∀ p : Pointer, holding p.segment (read fun v log => log.readRecord v p) s =
    read (fun v log => log.readRecord v p) s
  pin : ∀ segment, guarding segment (read (listing segment)) s = Log.pin segment s
  replayRange : ∀ start stop, replayRangeHeld start stop s = replayRange start stop s

theorem pinsFirst (tidy : s.2.ledger.pins.Tidy) : PinsFirst s :=
  ⟨readRecord_holding tidy, pin_guarding tidy, replayRange_held tidy⟩

end Log
end SegmentLog
