import SegmentLog.Proofs.Log.Shelf
import SegmentLog.Proofs.Reader.Stale
import SegmentLog.Proofs.Segment.Order
import SegmentLog.Proofs.Session.Drain

/-!
# Sessions on a log that is being written

A session goes through the records of a shelf while the shelf grows. As long as the segment it is on
has not been removed, it gives the records one after the other, and it ends well and not before all
those that were there when it was opened: `take_tracks`.
-/
namespace SegmentLog

namespace Shelf
variable {shelf shelf' : Shelf} {k : ℕ}

theorem Extends.items_take (h : shelf.Extends shelf') (lt : k < shelf.length) :
    items (shelf.take (k + 1)) <+: items (shelf'.take (k + 1)) := by
  obtain ⟨e, he⟩ : ∃ e, shelf[k]? = some e := ⟨_, List.getElem?_eq_getElem lt⟩
  obtain ⟨image, he', extended, -⟩ := h.entry k e he
  rw [items_take_succ he, items_take_succ he', h.take lt]
  exact (List.prefix_append_right_inj _).mpr (Frames.items_prefix extended.frames)

end Shelf

open SegmentLog.Shelf

/-- The reader has come through `gone` of the records, with so many segments ahead of it, and it is
to come through all that are `known`. -/
structure Reader.Through (r : Reader) (v : Volume) (shelf : Shelf) (more : ℕ)
    (known gone : List (Pointer × Record)) : Prop where
  segment : ∃ id image passed due, shelf[r.segment]? = some (id, image) ∧
    r.Owing v id image passed due ∧
    gone = items (shelf.take r.segment) ++ passed.items r.segment Header.size ∧
    (more = 0 → known <+: items (shelf.take r.segment) ++ due.items r.segment Header.size) ∧
    (more ≠ 0 → due = image.frames)
  covered : r.segment + more < shelf.length
  known : more ≠ 0 → known <+: items (shelf.take (r.segment + more + 1))

variable {r : Reader} {v v' : Volume} {place : Place} {removed more : ℕ} {shelf shelf' : Shelf}
  {known gone : List (Pointer × Record)}

/-- What is written to the log does not concern the reader. -/
theorem Reader.Through.extends (h : r.Through v shelf more known gone)
    (extended : shelf.Extends shelf') (shelves : place.Shelves v' removed shelf') :
    r.Through v' shelf' more known gone := by
  obtain ⟨⟨id, image, passed, due, hk, owing, rfl, last, others⟩, covered, ahead⟩ := h
  obtain ⟨image', hk', images, settled⟩ := extended.entry _ _ hk
  have same := extended.take (List.getElem?_eq_some_iff.mp hk).1
  have stored := shelves.stored _ (List.mem_of_getElem? hk')
  refine ⟨⟨id, image', passed, due, hk', owing.extends images stored, ?_, ?_,
    ?_⟩, ?_, ?_⟩
  · rw [same]
  · rw [same]
    exact last
  · intro some_more
    rw [settled (by omega), others some_more]
  · exact lt_of_lt_of_le covered extended.length
  · intro some_more
    exact (ahead some_more).trans (extended.items_take covered)

/-- The records that the reader came through are among those of the shelf. -/
theorem Reader.Through.prefix (h : r.Through v shelf more known gone) : gone <+: shelf.items := by
  obtain ⟨⟨id, image, passed, due, hk, ⟨⟨_, amid, -⟩, -⟩, rfl, -, -⟩, -, -⟩ := h
  have front : passed <+: image.frames := (List.prefix_append _ _).trans amid.among
  apply List.IsPrefix.trans _ (items_take_isPrefix shelf (r.segment + 1))
  rw [items_take_succ hk]
  exact (List.prefix_append_right_inj _).mpr (Frames.items_prefix front)

/-- A reader on a segment that is there, behind any of its frames. -/
theorem Place.Shelves.openReader_through {k start : ℕ} {id : ContentId} {image : Image}
    {passed : Frames} (h : place.Shelves v removed shelf) (there : removed ≤ k)
    (hk : shelf[k]? = some (id, image)) (front : passed <+: image.frames)
    (position : max start Header.size = Header.size + passed.bytes.length) (bufferSize : ℕ)
    (covered : k + more < shelf.length) (ahead : known <+: items (shelf.take (k + more + 1))) :
    ∃ r, Directory.openReader { place } v bufferSize k start = .ok r ∧ r.segment = k ∧
      r.Through v shelf more known
        (items (shelf.take k) ++ passed.items k Header.size) := by
  obtain ⟨r, opened, rfl, owing⟩ :=
    h.openReader_owing there hk front position bufferSize
  refine ⟨r, opened, rfl, ⟨id, image, passed, image.frames, hk, owing, rfl, ?_,
    fun _ => rfl⟩, covered, fun _ => ahead⟩
  rintro rfl
  rwa [Nat.add_zero, items_take_succ hk] at ahead

/-- What a reader finds on its way through the log. -/
inductive Reader.Meets (r : Reader) (v : Volume) (shelf : Shelf) (more : ℕ)
    (known gone : List (Pointer × Record)) : Except StorageFault (Outcome × Reader) → Prop
  | record (item : Pointer × Record) {r' : Reader} (segment : r'.segment = r.segment)
      (through : r'.Through v shelf more known (gone ++ [item])) :
      Meets r v shelf more known gone (.ok (.record item.1 item.2, r'))
  /-- Its segment is done, and there is another one ahead. -/
  | turn {r' : Reader} (some_more : more ≠ 0) (passed : gone = items (shelf.take (r.segment + 1))) :
      Meets r v shelf more known gone (.ok (.finish, r'))
  /-- The last segment is done. -/
  | finish {r' : Reader} (last : more = 0) (given : known <+: gone) :
      Meets r v shelf more known gone (.ok (.finish, r'))
  /-- The last segment goes on where the reader cannot see the end of it. -/
  | damaged {fault : RecordFault} {r' : Reader} (last : more = 0) (given : known <+: gone) :
      Meets r v shelf more known gone (.ok (.damaged fault, r'))

theorem Reader.Through.meets (h : r.Through v shelf more known gone)
    (shelves : place.Shelves v removed shelf) :
    Meets r v shelf more known gone (r.next v) := by
  obtain ⟨⟨id, image, passed, due, hk, owing, rfl, last, others⟩, covered, ahead⟩ := h
  obtain ⟨sound, blank⟩ := shelves.sound _ (List.mem_of_getElem? hk)
  obtain ⟨_, amid, -⟩ := owing.amid
  have front : passed <+: image.frames := (List.prefix_append _ _).trans amid.among
  have finds := owing.finds sound blank
  have all (given : due <+: passed) (some_more : more ≠ 0) : passed = image.frames := by
    rw [others some_more] at given
    exact front.eq_of_length_le given.length_le
  have known_gone (given : due <+: passed) (none_more : more = 0) :
      known <+: items (shelf.take r.segment) ++ passed.items r.segment Header.size :=
    (last none_more).trans ((List.prefix_append_right_inj _).mpr (Frames.items_prefix given))
  generalize r.next v = found at finds
  cases finds with
  | @record frame record r' segment owing' =>
      apply Meets.record (⟨r.segment, r.position, frame.length⟩, record) segment
      rw [← segment] at hk last ahead covered ⊢
      refine ⟨⟨id, image, passed ++ [(frame, record)], due, hk, owing', ?_, last, others⟩, covered,
        ahead⟩
      rw [Frames.items_append, amid.position, List.append_assoc]
      rfl
  | finish given =>
      by_cases none_more : more = 0
      · exact .finish none_more (known_gone given none_more)
      · apply Meets.turn none_more
        rw [items_take_succ hk, all given none_more]
        rfl
  | damaged given further =>
      by_cases none_more : more = 0
      · exact .damaged none_more (known_gone given none_more)
      · exact absurd (all given none_more) further

namespace Session

/-- What comes of reading on: the next record, or an end after all records that were known. -/
inductive GoesOn (v : Volume) (removed : ℕ) (shelf : Shelf)
    (known gone : List (Pointer × Record)) (s : Session) :
    Except Ending (Pointer × Record) × Session → Prop
  | record {item : Pointer × Record} {r : Reader} {more : ℕ} (there : removed ≤ r.segment)
      (through : r.Through v shelf more known (gone ++ [item])) :
      GoesOn v removed shelf known gone s (.ok item,
        { s with reader := some r, ahead := List.range' (r.segment + 1) more, last := some item.1 })
  | ended {ending : Ending} (mild : ∀ error, ending ≠ .failed error) (given : known <+: gone) :
      GoesOn v removed shelf known gone s (.error ending, s.close)

theorem give_endless {s : Session} (stop : s.stop = none) (r : Reader) (ahead : List ℕ)
    (item : Pointer × Record) : s.give r ahead item.1 item.2 =
      (.ok item, { s with reader := some r, ahead, last := some item.1 }) := by
  unfold give
  rw [if_neg]
  rw [stop]
  exact Bool.false_ne_true

theorem readOn_goesOn {s : Session} (directory : s.directory = { place }) (stop : s.stop = none)
    (shelves : place.Shelves v removed shelf) (there : removed ≤ r.segment)
    (through : r.Through v shelf more known gone) :
    GoesOn v removed shelf known gone s
      (s.readOn v r (List.range' (r.segment + 1) more)) := by
  induction more generalizing r gone with
  | zero =>
      have meets := through.meets shelves
      unfold readOn
      generalize r.next v = found at meets ⊢
      cases meets with
      | @record item r' segment through' =>
          dsimp only
          rw [give_endless stop, ← segment]
          exact .record (segment ▸ there) through'
      | turn some_more => exact absurd rfl some_more
      | finish last given => exact .ended (by simp) given
      | damaged last given => exact .ended (by simp [endingOf]) given
  | succ more ih =>
      have meets := through.meets shelves
      unfold readOn
      generalize r.next v = found at meets ⊢
      cases meets with
      | @record item r' segment through' =>
          dsimp only
          rw [give_endless stop, ← segment]
          exact .record (segment ▸ there) through'
      | turn some_more passed =>
          have covered := through.covered
          obtain ⟨e, hk⟩ : ∃ e, shelf[r.segment + 1]? = some e :=
            ⟨_, List.getElem?_eq_getElem (by omega)⟩
          have known := through.known some_more
          rw [← Nat.add_assoc, Nat.add_right_comm r.segment] at known
          have there' : removed ≤ r.segment + 1 := Nat.le_succ_of_le there
          obtain ⟨next, opened, segment, through'⟩ := shelves.openReader_through
            there' hk List.nil_prefix (show max 0 Header.size = Header.size from rfl) s.bufferSize
            (by omega) known
          rw [List.range'_succ]
          dsimp only
          rw [directory, opened, ← segment]
          apply ih (segment ▸ there')
          rw [Frames.items, List.append_nil, ← passed] at through'
          exact through'
      | finish last => cases last
      | damaged last => cases last

/-- The session has come through `gone` of the records, and it is exhausted only if these are all
that are `known`. -/
inductive Tracks (place : Place) (v : Volume) (shelf : Shelf)
    (known gone : List (Pointer × Record)) (s : Session) : Prop
  | reading {r : Reader} {more : ℕ} (directory : s.directory = { place }) (stop : s.stop = none)
      (reader : s.reader = some r) (ahead : s.ahead = List.range' (r.segment + 1) more)
      (through : r.Through v shelf more known gone)
  | exhausted (reader : s.reader = none) (given : known <+: gone) (among : gone <+: shelf.items)

variable {s : Session}

theorem Tracks.prefix (h : s.Tracks place v shelf known gone) : gone <+: shelf.items := by
  cases h with
  | reading _ _ _ _ through => exact through.prefix
  | exhausted _ _ among => exact among

/-- What is written to the log does not concern the session. -/
theorem Tracks.extends (h : s.Tracks place v shelf known gone) (extended : shelf.Extends shelf')
    (items : shelf.items <+: shelf'.items) (shelves : place.Shelves v' removed shelf') :
    s.Tracks place v' shelf' known gone := by
  cases h with
  | reading directory stop reader ahead through =>
      exact .reading directory stop reader ahead (through.extends extended shelves)
  | exhausted reader given among => exact .exhausted reader given (among.trans items)

/-- The segment that is being read has not been removed. -/
def Safe (s : Session) (removed : ℕ) : Prop := ∀ k ∈ s.current?, removed ≤ k

/-- What was read, if the session is to give the records of a shelf. -/
structure Serves (place : Place) (v : Volume) (removed : ℕ) (shelf : Shelf)
    (known gone : List (Pointer × Record)) (r : Reading) : Prop where
  tracks : r.session.Tracks place v shelf known (gone ++ r.items)
  safe : r.session.Safe removed
  mild : ∀ error, r.ending ≠ some (.failed error)
  given : r.ending.isSome → known <+: gone ++ r.items

theorem next_cases (shelves : place.Shelves v removed shelf)
    (h : s.Tracks place v shelf known gone) (safe : s.Safe removed) :
    (∃ item s', s.next v = (.ok item, s') ∧ s'.Tracks place v shelf known (gone ++ [item]) ∧
      s'.Safe removed) ∨
    ∃ ending s', s.next v = (.error ending, s') ∧ (∀ error, ending ≠ .failed error) ∧
      known <+: gone ∧ s'.reader = none := by
  cases h with
  | exhausted reader given among =>
      right
      refine ⟨.finish, s, ?_, by simp, given, reader⟩
      rw [next, reader]
  | @reading r more directory stop reader ahead through =>
      have there : removed ≤ r.segment := safe r.segment (by rw [current?, reader]; rfl)
      have goesOn := readOn_goesOn directory stop shelves there through
      have step : s.next v = s.readOn v r (List.range' (r.segment + 1) more) := by
        rw [next, reader, ← ahead]
      rw [← step] at goesOn
      generalize s.next v = found at goesOn
      cases goesOn with
      | @record item r' more' there' through' =>
          left
          refine ⟨item, _, rfl, .reading directory stop rfl rfl through', ?_⟩
          rintro _ ⟨⟩
          exact there'
      | @ended ending mild given => exact .inr ⟨ending, _, rfl, mild, given, rfl⟩

/-- A session on a segment that has not been removed gives the next records, and ends well and not
before all that were known. -/
theorem take_serves (shelves : place.Shelves v removed shelf)
    (h : s.Tracks place v shelf known gone) (safe : s.Safe removed) (count : ℕ) :
    Serves place v removed shelf known gone (s.take v count) := by
  induction count generalizing s gone with
  | zero =>
      refine ⟨?_, safe, by simp [take], by simp [take]⟩
      simpa [take] using h
  | succ count ih =>
      unfold take
      rcases next_cases shelves h safe with
        ⟨item, s', found, tracks, safe'⟩ | ⟨ending, s', found, mild, given, closed⟩
      · rw [found]
        obtain ⟨tracks', safe'', mild, given⟩ := ih tracks safe'
        rw [List.append_assoc] at tracks' given
        exact ⟨tracks', safe'', mild, given⟩
      · rw [found]
        refine ⟨?_, ?_, by simpa using mild, ?_⟩
        · dsimp only
          rw [List.append_nil]
          exact .exhausted closed given h.prefix
        · intro k hk
          rw [current?, closed] at hk
          cases hk
        · dsimp only
          rw [List.append_nil]
          exact fun _ => given

end Session
end SegmentLog
