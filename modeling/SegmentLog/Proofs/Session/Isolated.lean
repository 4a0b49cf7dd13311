import SegmentLog.Proofs.Log.Work
import SegmentLog.Proofs.Reader.Sampled
import SegmentLog.Proofs.Session.Shown

/-!
# Sessions see a segment as it was when they came to it

A log and a session on its directory take turns. As soon as the session comes to the segment that is
written, what it will give from there is settled, if nothing is reserved behind the head of the log:
the records that are there by then, up to the pointer to stop at, one for each time it is asked. It
does not matter what the log does in between, nor how much the session fetches at a time. Where
space is reserved the reader covers that as well, and may come upon records that are written there
later.

Until it comes to that segment a session is `Along` the segments of its directory, so nothing is
ahead of it when it does; from then on it is `Due` certain records.
-/
namespace SegmentLog

namespace Session
variable {s s' : Session} {r : Reader} {v : Volume} {ahead : List ℕ}
  {answer : Except Ending (Pointer × Record)} {k newest : ℕ}

/-! ## How a session moves on -/

/-- A session that gives a record keeps the reader it has that from. -/
theorem give_moves {p : Pointer} {record : Record} (h : s.give r ahead p record = (answer, s')) :
    s'.directory = s.directory ∧ s'.stop = s.stop ∧
      ∀ r' ∈ s'.reader, r' = r ∧ s'.ahead = ahead := by
  unfold give at h
  split at h
  · cases h
    refine ⟨rfl, rfl, ?_⟩
    rintro _ ⟨⟩
  · cases h
    refine ⟨rfl, rfl, ?_⟩
    rintro _ ⟨⟩
    exact ⟨rfl, rfl⟩

theorem close_moves (ending : Ending) (h : (.error ending, s.close) = (answer, s')) :
    s'.directory = s.directory ∧ s'.stop = s.stop ∧ s'.reader = none := by
  cases h
  exact ⟨rfl, rfl, rfl⟩

/-- A session goes on with the segment it is on, or with one of those that were ahead. -/
theorem readOn_moves (h : s.readOn v r ahead = (answer, s')) :
    s'.directory = s.directory ∧ s'.stop = s.stop ∧
      ∀ r' ∈ s'.reader, r'.segment :: s'.ahead <:+ r.segment :: ahead := by
  have closed (ending : Ending) {r : Reader} {ahead : List ℕ}
      (h : (.error ending, s.close) = (answer, s')) :
      s'.directory = s.directory ∧ s'.stop = s.stop ∧
        ∀ r' ∈ s'.reader, r'.segment :: s'.ahead <:+ r.segment :: ahead := by
    obtain ⟨directory, stop, reader⟩ := close_moves ending h
    refine ⟨directory, stop, fun r' on => ?_⟩
    rw [reader] at on
    cases on
  fun_induction readOn v s r ahead with
  | case1 ahead r fault failed => exact closed _ h
  | case2 ahead r p record r₁ found =>
      obtain ⟨directory, stop, moves⟩ := give_moves h
      refine ⟨directory, stop, fun r' on => ?_⟩
      obtain ⟨rfl, same⟩ := moves r' on
      simp only [same, (Reader.stays_next found).segment, List.suffix_refl]
  | case3 ahead r fault r₁ found => exact closed _ h
  | case4 r r₁ found => exact closed _ h
  | case5 r r₁ found segment ahead error failed => exact closed _ h
  | case6 r r₁ found segment ahead next opened ih =>
      obtain ⟨directory, stop, moves⟩ := ih h
      refine ⟨directory, stop, fun r' on => ?_⟩
      have moves := moves r' on
      rw [Directory.segment_of_openReader opened] at moves
      exact moves.trans (List.suffix_cons ..)

/-- A session that gets to another segment has opened a reader for it. -/
theorem readOn_enters (h : s.readOn v r ahead = (answer, s')) (there : s'.current? = some k)
    (elsewhere : r.segment ≠ k) :
    ∃ r' later, s.directory.openReader v s.bufferSize k 0 = .ok r' ∧ k :: later <:+ ahead ∧
      s.readOn v r ahead = s.readOn v r' later := by
  obtain ⟨on, reader, segment⟩ : ∃ on, s'.reader = some on ∧ on.segment = k :=
    Option.map_eq_some_iff.mp there
  have open_ (ending : Ending) : (.error ending, s.close) ≠ (answer, s') := by
    intro h
    cases reader.symm.trans (close_moves ending h).2.2
  fun_induction readOn v s r ahead with
  | case1 ahead r fault failed => exact absurd h (open_ _)
  | case2 ahead r p record r₁ found =>
      obtain ⟨rfl, -⟩ := (give_moves h).2.2 on reader
      exact absurd ((Reader.stays_next found).segment.symm.trans segment) elsewhere
  | case3 ahead r fault r₁ found => exact absurd h (open_ _)
  | case4 r r₁ found => exact absurd h (open_ _)
  | case5 r r₁ found segment ahead error failed => exact absurd h (open_ _)
  | case6 r r₁ found index ahead next opened ih =>
      have first := Directory.segment_of_openReader opened
      by_cases here : index = k
      · subst here
        exact ⟨next, ahead, opened, List.suffix_refl _, rfl⟩
      · obtain ⟨r', rest, opened', suffix, same⟩ := ih h (first ▸ here)
        exact ⟨r', rest, opened', suffix.trans (List.suffix_cons ..), same⟩

/-- The session reads segments of a directory in ascending order, up to the newest at most. -/
structure Along (s : Session) (d : Directory) (newest : ℕ) : Prop where
  directory : s.directory = d
  ascending : ∀ r ∈ s.reader, (r.segment :: s.ahead).Pairwise (· < ·)
  covered : ∀ r ∈ s.reader, ∀ k ∈ r.segment :: s.ahead, k ≤ newest

variable {d : Directory}

theorem Along.mono {later : ℕ} (h : s.Along d newest) (le : newest ≤ later) : s.Along d later :=
  ⟨h.directory, h.ascending, fun r on k mem => (h.covered r on k mem).trans le⟩

theorem Along.next (h : s.Along d newest) (found : s.next v = (answer, s')) :
    s'.Along d newest := by
  rw [Session.next] at found
  cases reader : s.reader with
  | none =>
      rw [reader] at found
      cases found
      exact h
  | some r =>
      rw [reader] at found
      obtain ⟨directory, -, moves⟩ := readOn_moves found
      refine ⟨directory.trans h.directory, fun r' on => ?_, fun r' on k mem => ?_⟩
      · exact (h.ascending r reader).sublist (moves r' on).sublist
      · exact h.covered r reader k ((moves r' on).subset mem)

/-- Nothing is ahead of a session that is on the newest segment. -/
theorem last_of_suffix {first : ℕ} {later : List ℕ} (ascending : (first :: ahead).Pairwise (· < ·))
    (covered : ∀ k ∈ first :: ahead, k ≤ newest) (suffix : newest :: later <:+ first :: ahead) :
    later = [] := by
  cases later with
  | nil => rfl
  | cons k later =>
      have lt := (List.pairwise_cons.mp (ascending.sublist suffix.sublist)).1 k List.mem_cons_self
      have le := covered k (suffix.subset (List.mem_cons_of_mem _ List.mem_cons_self))
      exact absurd lt (Nat.not_lt.mpr le)

/-- A session that gets to the newest segment has opened a reader for it and has nothing ahead. -/
theorem Along.enters (h : s.Along d newest) (found : s.next v = (answer, s'))
    (elsewhere : s.current? ≠ some newest) (there : s'.current? = some newest) :
    ∃ r, d.openReader v s.bufferSize newest 0 = .ok r ∧ s.next v = s.readOn v r [] ∧
      s'.stop = s.stop := by
  rw [Session.next] at found ⊢
  cases reader : s.reader with
  | none =>
      rw [reader] at found
      cases found
      exact absurd there elsewhere
  | some r₀ =>
      rw [reader] at found
      have other : r₀.segment ≠ newest := by
        rintro same
        exact elsewhere (by rw [current?, reader, Option.map_some, same])
      obtain ⟨r, later, opened, suffix, same⟩ := readOn_enters found there other
      have last := last_of_suffix (h.ascending r₀ reader) (h.covered r₀ reader)
        (suffix.trans (List.suffix_cons ..))
      exact ⟨r, h.directory ▸ opened, last ▸ same, (readOn_moves found).2.1⟩

/-- A session that opens starts with a reader on its first segment, unless there is none. -/
theorem along_openRange {place : Place} {removed bufferSize : ℕ} {ids : List ContentId}
    {start stop : Option Pointer} (keeps : place.Keeps v removed ids)
    (count : newest + 1 = ids.length)
    (opened : openRange { place } v bufferSize start stop = .ok s) :
    s.Along { place } newest ∧ s.stop = stop ∧ ∀ r ∈ s.reader,
      Directory.openReader { place } v bufferSize r.segment (startOffset start) = .ok r := by
  have shows := keeps.shows
  rcases first_shown shows opened with ⟨nothing, rfl⟩ | ⟨older, first, bs, newer, shown, starts⟩
  · rw [openRange, shows.list, nothing] at opened
    cases opened
    refine ⟨⟨rfl, ?_, ?_⟩, rfl, ?_⟩
    all_goals rintro _ ⟨⟩
  · have indices : (older ++ (first, bs) :: newer).map (·.1) = _ :=
      shown ▸ Volume.map_fst_image v removed ids
    rw [shown] at shows
    rw [openRange_of_shown shows starts] at opened
    obtain ⟨segments, covered, opened⟩ := bind_eq_ok.mp opened
    obtain ⟨r, reader, opened⟩ := bind_eq_ok.mp opened
    cases opened
    obtain ⟨ascending, -⟩ := shows.onward
    obtain ⟨-, rfl⟩ := (coverage_eq_ok stop ascending).mp covered
    have segment := Directory.segment_of_openReader reader
    have part : (r.segment :: ((first :: newer.map (·.1)).takeWhile (InReach stop)).tail).Sublist
        (first :: newer.map (·.1)) := by
      rw [segment, tail_takeWhile_inReach stop ascending]
      exact (List.takeWhile_sublist _).cons_cons first
    refine ⟨⟨rfl, ?_, ?_⟩, rfl, ?_⟩
    · rintro _ ⟨⟩
      exact ascending.sublist part
    · rintro _ ⟨⟩ k mem
      have listed : k ∈ (older ++ (first, bs) :: newer).map (·.1) := by
        rw [List.map_append]
        exact List.mem_append_right _ (part.subset mem)
      rw [indices, List.mem_range'_1] at listed
      omega
    · rintro _ ⟨⟩
      rw [segment]
      exact reader

end Session

/-! ## Turns -/

namespace Duet

/-- What goes on at an open log: it works, or a session is asked for its next record. -/
inductive Move
  | work (work : Log.Work)
  | advance
deriving DecidableEq, Repr

/-- What goes on at a log from its beginning on. -/
inductive Turn
  /-- Open the log again, with another configuration. -/
  | openLog (config : Log.Config)
  /-- Open a session instead of the one there was, through the log or straight on its directory.
  What it pins is a matter of the log. -/
  | openSession (bufferSize : ℕ) (start stop : Option Pointer)
  | dropSession
  | move (move : Move)
deriving DecidableEq, Repr

namespace Turn

/-- Where a session that this turn brings to a segment starts in it. -/
def offset : Turn → ℕ
  | openSession _ start _ => Session.startOffset start
  | _ => 0

/-- How often the session is asked for a record. -/
def asks : Turn → ℕ
  | move .advance => 1
  | _ => 0

end Turn

end Duet

/-- A log and a session on its directory, and what sessions have given. -/
structure Duet where
  volume : Volume
  log : Log
  session : Option Session
  given : List (Pointer × Record)

namespace Duet

/-- A log to which no session has been opened. -/
def start (v : Volume) (log : Log) : Duet where
  volume := v
  log := log
  session := none
  given := []

def move (duet : Duet) : Move → Duet
  | .work work =>
    let (volume, log) := work.run (duet.volume, duet.log)
    { duet with volume, log }
  | .advance =>
    match duet.session with
    | none => duet
    | some s =>
      match s.next duet.volume with
      | (.ok item, session) =>
        { duet with session := some session, given := duet.given ++ [item] }
      | (.error _, session) => { duet with session := some session }

def turn (duet : Duet) : Turn → Duet
  | .openLog config =>
    match Log.openIn duet.log.directory config duet.volume with
    | .ok log volume => { duet with volume, log }
    | .error _ volume => { duet with volume }
  | .openSession bufferSize start stop =>
    { duet with
      session := (Session.openRange duet.log.directory duet.volume bufferSize start stop).toOption }
  | .dropSession => { duet with session := none }
  | .move move => duet.move move

/-- The segment that the session is reading. -/
def reads? (duet : Duet) : Option ℕ := duet.session.bind (·.current?)

/-- The pointer that the session stops at. -/
def stop? (duet : Duet) : Option Pointer := duet.session.bind (·.stop)

/-- No space is reserved behind the head of the log. -/
def Tight (duet : Duet) : Prop :=
  duet.log.config.preallocate = false ∨ duet.log.config.segmentSize ≤ duet.log.active.position

instance (duet : Duet) : Decidable duet.Tight := inferInstanceAs (Decidable (_ ∨ _))

/-- The records that are in the newest segment from an offset on, up to a pointer to stop at. -/
def found (duet : Duet) (offset : ℕ) (stop : Option Pointer) : List (Pointer × Record) :=
  (Segment.scan duet.log.format duet.log.active.segment
    (duet.volume.bytes duet.log.active.store.content) (max offset Header.size)).1.takeWhile
      (Session.InFront stop)

variable {place : Place} {duet : Duet} {sheets : List Sheet} {id : ContentId} {bs : Bytes}
  {rest : List (Pointer × Record)}

theorem move_advance {s s' : Session} {answer : Except Ending (Pointer × Record)}
    (session : duet.session = some s) (found : s.next duet.volume = (answer, s')) :
    duet.move .advance =
      { duet with session := some s', given := duet.given ++ answer.toOption.toList } := by
  rw [Duet.move, session]
  dsimp only
  rw [found]
  cases answer with
  | ok item => rfl
  | error ending =>
      dsimp only [Except.toOption, Option.toList]
      rw [List.append_nil]

/-! ### After the session has come to the segment -/

/-- The session is to give these records of a segment. -/
structure Due (place : Place) (sheets : List Sheet) (id : ContentId) (bs : Bytes)
    (rest : List (Pointer × Record)) (duet : Duet) : Prop where
  tends : Log.Tends place sheets (duet.volume, duet.log)
  there : ∃ sheet ∈ sheets, sheet.content = id ∧ bs <+: sheet.written
  session : ∃ s, duet.session = some s ∧ s.Owes id bs rest

theorem Due.front (h : duet.Due place sheets id bs rest) : bs <+: duet.volume.bytes id := by
  obtain ⟨sheet, mem, rfl, front⟩ := h.there
  exact front.trans (h.tends.written_prefix mem)

/-- What the log does leaves what is due, and an advance takes the first record off it. -/
theorem Due.move (h : duet.Due place sheets id bs rest) (room : Place.Room (sheets.length + 1))
    (move : Move) :
    ∃ sheets', (duet.move move).Due place sheets' id bs (rest.drop ([move].count .advance)) ∧
      sheets'.length ≤ sheets.length + 1 ∧
      (duet.move move).given = duet.given ++ rest.take ([move].count .advance) := by
  obtain ⟨s, session, owes⟩ := h.session
  cases move with
  | work work =>
      obtain ⟨sheets', tends, gains⟩ := h.tends.work room work
      obtain ⟨sheet, mem, content, front⟩ := h.there
      obtain ⟨sheet', mem', content', front'⟩ := gains.kept sheet mem
      refine ⟨sheets', ⟨tends, ⟨sheet', mem', content'.trans content, front.trans front'⟩,
        s, session, owes⟩, gains.few, (List.append_nil _).symm⟩
  | advance =>
      obtain ⟨answer, s', found⟩ : ∃ answer s', s.next duet.volume = (answer, s') := ⟨_, _, rfl⟩
      have pays := owes.next h.front
      rw [found] at pays
      rw [move_advance session found]
      cases pays with
      | record owes' =>
          exact ⟨sheets, ⟨h.tends, h.there, _, rfl, owes'⟩, Nat.le_succ _, rfl⟩
      | ended reader =>
          exact ⟨sheets, ⟨h.tends, h.there, _, rfl, .exhausted reader⟩, Nat.le_succ _, rfl⟩

/-- The session gives what is due, a record for each time it is asked. -/
theorem Due.given {moves : List Move} (h : duet.Due place sheets id bs rest)
    (room : Place.Room (sheets.length + moves.length)) :
    (moves.foldl Duet.move duet).given = duet.given ++ rest.take (moves.count .advance) := by
  induction moves generalizing duet sheets rest with
  | nil => exact (List.append_nil _).symm
  | cons move moves ih =>
      rw [List.length_cons] at room
      obtain ⟨sheets', due, few, given⟩ := h.move (room.mono (by omega)) move
      rw [List.foldl_cons, ih due (room.mono (by omega)), given, List.append_assoc,
        ← List.take_add, ← List.count_append, List.singleton_append]

/-! ### Until the session comes to the segment -/

/-- The log tends its segments, and the session only reads such as are there. -/
structure Attended (place : Place) (sheets : List Sheet) (duet : Duet) : Prop where
  tends : Log.Tends place sheets (duet.volume, duet.log)
  along : ∀ s ∈ duet.session, s.Along { place } duet.log.active.segment

theorem Attended.move (h : duet.Attended place sheets) (room : Place.Room (sheets.length + 1))
    (move : Move) :
    ∃ sheets', (duet.move move).Attended place sheets' ∧ sheets'.length ≤ sheets.length + 1 := by
  cases move with
  | work work =>
      obtain ⟨sheets', tends, gains⟩ := h.tends.work room work
      refine ⟨sheets', ⟨tends, fun s on => (h.along s on).mono ?_⟩, gains.few⟩
      have before := h.tends.segment
      have after := tends.segment
      have := gains.length
      dsimp only [Duet.move] at before after ⊢
      omega
  | advance =>
      refine ⟨sheets, ?_, Nat.le_succ _⟩
      cases session : duet.session with
      | none =>
          rw [Duet.move, session]
          exact h
      | some s =>
          obtain ⟨answer, s', found⟩ : ∃ answer s', s.next duet.volume = (answer, s') :=
            ⟨_, _, rfl⟩
          rw [move_advance session found]
          refine ⟨h.tends, ?_⟩
          rintro _ ⟨⟩
          exact (h.along s session).next found

theorem Attended.openLog (h : duet.Attended place sheets) (room : Place.Room (sheets.length + 1))
    (config : Log.Config) :
    ∃ sheets', (duet.turn (.openLog config)).Attended place sheets' ∧
      sheets'.length ≤ sheets.length + 1 := by
  have segment := h.tends.segment
  have directory := h.tends.directory
  obtain ⟨removed, older, newest, rfl, fills⟩ := h.tends.fills
  rcases Log.openIn_fills fills.keeps fills.bytes fills.filled room config with
    ⟨v', log, older', opened, resumed, fills', -, pins⟩ | ⟨fault, refused⟩
  · have length := resumed.length
    refine ⟨older' ++ [log.newSheet], ?_, by simp [length]⟩
    dsimp only at directory
    rw [turn, directory, opened]
    refine ⟨⟨⟨_, _, _, rfl, fills'⟩, ?_⟩, fun s on => (h.along s on).mono ?_⟩
    · dsimp only
      rw [pins]
      exact Pins.tidy_nil
    · have segment' := fills'.segment
      dsimp only at segment segment' ⊢
      omega
  · refine ⟨_, ?_, Nat.le_succ _⟩
    dsimp only at directory
    rw [turn, directory, refused]
    exact h

theorem Attended.openRange (h : duet.Attended place sheets) {bufferSize : ℕ}
    {start stop : Option Pointer} {s : Session}
    (opened : Session.openRange duet.log.directory duet.volume bufferSize start stop = .ok s) :
    s.Along { place } duet.log.active.segment ∧ s.stop = stop ∧ ∀ r ∈ s.reader,
      Directory.openReader { place } duet.volume bufferSize r.segment (Session.startOffset start) =
        .ok r := by
  have segment := h.tends.segment
  rw [show duet.log.directory = { place } from h.tends.directory] at opened
  obtain ⟨removed, older, newest, rfl, fills⟩ := h.tends.fills
  exact Session.along_openRange fills.keeps (by rwa [List.length_map]) opened

theorem Attended.turn (h : duet.Attended place sheets) (room : Place.Room (sheets.length + 1))
    (turn : Turn) :
    ∃ sheets', (duet.turn turn).Attended place sheets' ∧ sheets'.length ≤ sheets.length + 1 := by
  cases turn with
  | openLog config => exact h.openLog room config
  | openSession bufferSize start stop =>
      refine ⟨sheets, ⟨h.tends, fun s on => ?_⟩, Nat.le_succ _⟩
      cases opened : Session.openRange duet.log.directory duet.volume bufferSize start stop with
      | error e =>
          rw [Duet.turn, opened] at on
          cases on
      | ok s' =>
          rw [Duet.turn, opened] at on
          cases on
          exact (h.openRange opened).1
  | dropSession =>
      refine ⟨sheets, ⟨h.tends, ?_⟩, Nat.le_succ _⟩
      rintro _ ⟨⟩
  | move move => exact h.move room move

theorem Attended.turns (h : duet.Attended place sheets) (turns : List Turn)
    (room : Place.Room (sheets.length + turns.length)) :
    ∃ sheets', (turns.foldl Duet.turn duet).Attended place sheets' ∧
      sheets'.length ≤ sheets.length + turns.length := by
  induction turns generalizing duet sheets with
  | nil => exact ⟨sheets, h, Nat.le_refl _⟩
  | cons turn turns ih =>
      rw [List.length_cons] at room ⊢
      obtain ⟨sheets₁, first, few⟩ := h.turn (room.mono (by omega)) turn
      obtain ⟨sheets', later, few'⟩ := ih first (room.mono (by omega))
      exact ⟨sheets', later, by omega⟩

/-! ### When the session comes to the segment -/

/-- Nothing follows what is written of the newest segment. -/
theorem Attended.front (h : duet.Attended place sheets) (tight : duet.Tight) :
    ∃ sheet ∈ sheets, sheet.content = duet.log.active.store.content ∧
      duet.volume.bytes duet.log.active.store.content <+: sheet.written := by
  obtain ⟨removed, older, newest, rfl, fills⟩ := h.tends.fills
  have mem : newest ∈ older ++ [newest] := List.mem_append_right _ List.mem_cons_self
  have nothing : duet.log.config.reserve newest.image.stop = 0 := by
    rw [Log.Config.reserve]
    rcases tight with off | full
    · rw [off, if_neg Bool.false_ne_true]
    · rw [← fills.position, Nat.sub_eq_zero_of_le full, ite_self]
  have stored := fills.bytes newest mem
  rw [newest.bytes_eq, fills.tail, nothing, List.replicate_zero, List.append_nil,
    fills.content] at stored
  exact ⟨newest, mem, fills.content, stored ▸ List.prefix_refl _⟩

/-- A reader of the newest segment sees what is there when it is opened. -/
theorem Attended.sees (h : duet.Attended place sheets) {r : Reader} {bufferSize offset : ℕ}
    (opened : Directory.openReader { place } duet.volume bufferSize duet.log.active.segment offset =
      .ok r) :
    r.Sees duet.log.active.store.content (duet.volume.bytes duet.log.active.store.content) ∧
      r.segment = duet.log.active.segment ∧ r.format = duet.log.format ∧
      r.position = max offset Header.size := by
  obtain ⟨removed, older, newest, rfl, fills⟩ := h.tends.fills
  have stored := fills.bytes newest (List.mem_append_right _ List.mem_cons_self)
  have header := newest.image.header
  rw [← stored, fills.content, fills.format] at header
  refine Reader.sees_of_openReader fills.keeps ?_ header opened
  have segment : duet.log.active.segment = older.length := fills.segment
  rw [segment, ← fills.content, List.map_append, List.getElem?_append_right
    (by rw [List.length_map]), List.length_map, Nat.sub_self]
  rfl

/-- The session has given the first of these records, one for each time it was asked, and is to give
the others. -/
def Settled (place : Place) (sheets : List Sheet) (given items : List (Pointer × Record))
    (asked : ℕ) (duet : Duet) : Prop :=
  ∃ id bs rest, duet.Due place sheets id bs rest ∧
    ∀ count, duet.given ++ rest.take count = given ++ items.take (asked + count)

/-- The session is opened in the newest segment. -/
theorem Attended.settled_openSession (h : duet.Attended place sheets) (tight : duet.Tight)
    {bufferSize : ℕ} {start stop : Option Pointer}
    (there : (duet.turn (.openSession bufferSize start stop)).reads? =
      some duet.log.active.segment) :
    (duet.turn (.openSession bufferSize start stop)).Settled place sheets duet.given
      (duet.found (Session.startOffset start)
        (duet.turn (.openSession bufferSize start stop)).stop?) 0 := by
  cases opened : Session.openRange duet.log.directory duet.volume bufferSize start stop with
  | error e =>
      rw [Duet.turn, opened] at there
      cases there
  | ok s =>
      have same : duet.turn (.openSession bufferSize start stop) =
          { duet with session := some s } := by
        rw [Duet.turn, opened]
        rfl
      rw [same] at there ⊢
      obtain ⟨along, rfl, starts⟩ := h.openRange opened
      obtain ⟨r, reader, segment⟩ : ∃ r, s.reader = some r ∧
        r.segment = duet.log.active.segment := Option.map_eq_some_iff.mp there
      have last : s.ahead = [] := Session.last_of_suffix (along.ascending r reader)
        (along.covered r reader) (segment ▸ List.suffix_refl _)
      obtain ⟨sees, -, format, position⟩ := h.sees (segment ▸ starts r reader)
      have owes := Session.Owes.reading reader last sees
      rw [segment, format, position] at owes
      refine ⟨_, _, _, ⟨h.tends, h.front tight, s, rfl, owes⟩, fun count => ?_⟩
      rw [Nat.zero_add]
      rfl

/-- The session gets to the newest segment from an older one. -/
theorem Attended.settled_advance (h : duet.Attended place sheets) (tight : duet.Tight)
    (elsewhere : duet.reads? ≠ some duet.log.active.segment)
    (there : (duet.move .advance).reads? = some duet.log.active.segment) :
    (duet.move .advance).Settled place sheets duet.given
      (duet.found 0 (duet.move .advance).stop?) 1 := by
  cases session : duet.session with
  | none =>
      rw [Duet.move, session] at there
      exact absurd there elsewhere
  | some s =>
      obtain ⟨answer, s', found⟩ : ∃ answer s', s.next duet.volume = (answer, s') := ⟨_, _, rfl⟩
      have elsewhere : s.current? ≠ some duet.log.active.segment := by
        rwa [reads?, session] at elsewhere
      rw [move_advance session found] at there ⊢
      have on : s'.current? = some duet.log.active.segment := there
      obtain ⟨r, opened, reading, stop⟩ := (h.along s session).enters found elsewhere on
      obtain ⟨sees, segment, format, position⟩ := h.sees opened
      have pays := Session.readOn_pays sees (List.prefix_refl _) s
      rw [← reading, found, segment, format, position, ← stop] at pays
      have pays : Session.Pays _ _ (duet.found 0 s'.stop) (answer, s') := pays
      change Settled place sheets duet.given (duet.found 0 s'.stop) 1 _
      generalize duet.found 0 s'.stop = items at pays ⊢
      cases pays with
      | @record item rest _ owes =>
          refine ⟨_, _, rest, ⟨h.tends, h.front tight, s', rfl, owes⟩, fun count => ?_⟩
          rw [Nat.add_comm 1, List.take_succ_cons]
          exact List.append_assoc ..
      | ended reader =>
          rw [Session.current?, reader] at on
          cases on

/-- What the session is to give of the newest segment is what is there when it comes to it. -/
theorem Attended.settled (h : duet.Attended place sheets) (tight : duet.Tight) {turn : Turn}
    (elsewhere : duet.reads? ≠ some duet.log.active.segment)
    (there : (duet.turn turn).reads? = some duet.log.active.segment) :
    (duet.turn turn).Settled place sheets duet.given
      (duet.found turn.offset (duet.turn turn).stop?) turn.asks := by
  cases turn with
  | openLog config =>
      have same : (duet.turn (.openLog config)).reads? = duet.reads? := by
        rw [Duet.turn]
        split <;> rfl
      exact absurd (same.symm.trans there) elsewhere
  | openSession bufferSize start stop => exact h.settled_openSession tight there
  | dropSession => cases there
  | move move =>
      cases move with
      | work work => exact absurd there elsewhere
      | advance => exact h.settled_advance tight elsewhere there

/-! ### Runs -/

theorem attended_start {v v' : Volume} {config : Log.Config} {log : Log}
    (empty : place.Stocks v 0 []) (room : Place.Room 1)
    (opened : Log.openIn { place } config v = .ok log v') :
    (start v' log).Attended place [log.newSheet] := by
  have keeps : place.Keeps v 0 ([].map Sheet.content) :=
    ⟨empty, List.nodup_nil, List.forall_mem_nil _, .inl rfl⟩
  rcases Log.openIn_fills keeps (List.forall_mem_nil _) (List.forall_mem_nil _) room config with
    ⟨v₁, log₁, older, opened', resumed, fills, -, pins⟩ | ⟨fault, refused⟩
  · cases opened.symm.trans opened'
    obtain rfl : older = [] := List.length_eq_zero_iff.mp resumed.length
    refine ⟨⟨⟨_, _, _, rfl, fills⟩, ?_⟩, ?_⟩
    · dsimp only [start]
      rw [pins]
      exact Pins.tidy_nil
    · rintro _ ⟨⟩
  · cases opened.symm.trans refused

/-- A log is opened where no segment is yet, and then it and its sessions take turns, for which
there are enough indexes of segments. Say the session is not on the segment that is written, a turn
brings it there, and by then nothing is reserved in that segment. From then on it gives the records
that were in the segment, from where it starts and up to the pointer that it stops at, one for each
time it is asked: neither what the log does afterwards makes a difference, nor how much the session
fetches at a time. -/
theorem isolated {v v' : Volume} {config : Log.Config} {log : Log}
    (empty : place.Stocks v 0 []) (opened : Log.openIn { place } config v = .ok log v')
    {before : List Turn} (reached : duet = before.foldl turn (start v' log)) (tight : duet.Tight)
    {turn : Turn} (elsewhere : duet.reads? ≠ some duet.log.active.segment)
    (there : (duet.turn turn).reads? = some duet.log.active.segment) (after : List Move)
    (room : Place.Room (before.length + after.length + 1)) :
    (after.foldl move (duet.turn turn)).given = duet.given ++
      (duet.found turn.offset (duet.turn turn).stop?).take
        (turn.asks + after.count .advance) := by
  subst reached
  obtain ⟨sheets, attended, few⟩ := (attended_start empty (room.mono (by omega)) opened).turns
    before (room.mono (by rw [List.length_singleton]; omega))
  rw [List.length_singleton] at few
  obtain ⟨id, bs, rest, due, given⟩ := attended.settled tight elsewhere there
  rw [due.given (room.mono (by omega)), given]

/-- A log in memory that was just opened. -/
def opening (config : Log.Config) : Duet :=
  match Log.openIn { place := .memory } config {} with
  | .ok log v => start v log
  | .error _ v => start v default

def note (n : UInt64) : Record := .data ⟨⟨1⟩, ⟨0⟩⟩ n []

/-- A record is in either of two segments, and a session has given the first one. -/
def approach : List Turn := [
  .move (.work (.append (note 1))), .move (.work .rotate), .move (.work (.append (note 2))),
  .openSession 8 none none, .move .advance]

/-- Further records are written while the session is asked for more. -/
def overtaking : List Move := [
  .work (.append (note 3)), .advance, .work (.append (note 4)), .work .flush, .advance]

theorem isolated_overtaking :
    let duet := approach.foldl turn (opening {})
    let after := overtaking.foldl move (duet.turn (.move .advance))
    duet.reads? = some 0 ∧ (duet.turn (.move .advance)).reads? = some 1 ∧
      after.log.head.offset = 96 ∧
      after.given = duet.given ++ (duet.found 0 none).take 3 ∧
      after.given.map (·.2) = [note 1, note 2] := by
  have works : (outcome (Log.openIn { place := .memory } {}) {}).isSome := by decide +kernel
  obtain ⟨⟨log, v⟩, opened⟩ := Option.isSome_iff_exists.mp works
  have opened := outcome_eq_some.mp opened
  have fresh : opening {} = start v log := by rw [opening, opened]
  have elsewhere : (approach.foldl turn (opening {})).reads? ≠
      some (approach.foldl turn (opening {})).log.active.segment := by decide +kernel
  have there : ((approach.foldl turn (opening {})).turn (.move .advance)).reads? =
      some (approach.foldl turn (opening {})).log.active.segment := by decide +kernel
  have endless : ((approach.foldl turn (opening {})).turn (.move .advance)).stop? = none := by
    decide +kernel
  have given := isolated (Place.stocks_memory rfl) opened (congrArg (approach.foldl turn) fresh)
    (.inl (by decide +kernel)) elsewhere there overtaking (by decide)
  have thrice : (Turn.move .advance).asks + overtaking.count .advance = 3 := by decide
  rw [endless, thrice] at given
  exact ⟨by decide +kernel, by decide +kernel, by decide +kernel, given, by decide +kernel⟩

/-- The reader covers space that was reserved when the session was opened, and has not fetched it
when the session is asked for the first record. -/
theorem reserved_space_is_read :
    let duet := opening { segmentSize := 200, preallocate := true }
    let opened := duet.turn (.openSession 64 none none)
    duet.reads? = none ∧ opened.reads? = some duet.log.active.segment ∧ duet.found 0 none = [] ∧
      ([.advance, .work (.append (note 1))].foldl move opened).given = [] ∧
      ([.work (.append (note 1)), .advance].foldl move opened).given = [(⟨0, 15, 27⟩, note 1)] := by
  decide +kernel

end Duet
end SegmentLog
