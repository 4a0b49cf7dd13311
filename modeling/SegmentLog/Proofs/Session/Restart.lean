import SegmentLog.Pointer.External
import SegmentLog.Proofs.Session.Shown

/-!
# Sessions that start where another one was

A session that starts at a record which another session gave, or right behind it, gives what the
other one gave from there on, and ends as it did: main statement `restart`. It may cover fewer
segments and fetch by another buffer, and the segments may hold anything. What makes it so is that
what is read from a position on does not depend on how the position was reached (`Parses.split`).
-/
namespace SegmentLog

namespace Segment
variable {f : Format} {segment position stop : ℕ} {bs : Bytes} {ahead : List (ℕ × Bytes)}
  {items before after : List (Pointer × Record)} {p : Pointer} {record : Record} {ending : Ending}

/-- A run that goes through a record goes on from it, and from behind it. -/
structure Run.Through (f : Format) (segment : ℕ) (bs : Bytes) (position stop : ℕ) (p : Pointer)
    (record : Record) (after : List (Pointer × Record)) : Prop where
  at_record : Run f segment bs p.offset ((p, record) :: after) stop
  behind : Run f segment bs (p.offset + p.length) after stop
  here : p.segment = segment
  le : position ≤ p.offset
  full : 0 < p.length
  within : p.offset + p.length ≤ bs.length
  inReach : p.offset + p.length ≤ Pointer.maxOffset

theorem Run.through (h : Run f segment bs position items stop)
    (split : items = before ++ (p, record) :: after) :
    Run.Through f segment bs position stop p record after := by
  induction h generalizing before with
  | stop none_there =>
      rw [List.nil_eq, List.append_eq_nil_iff] at split
      cases split.2
  | @frame position stop frame record' items here later ih =>
      obtain ⟨full, within⟩ := here.within
      cases before with
      | nil =>
          cases split
          exact ⟨.frame here later, later, rfl, Nat.le_refl _, full, within, here.inReach⟩
      | cons item before =>
          obtain ⟨-, split⟩ := List.cons.inj split
          have through := ih split
          exact { through with le := Nat.le_trans (Nat.le_add_right ..) through.le }

/-- What a session gives is the run of its first segment, whatever leads to where that stops, and
what it gives of the segments ahead. -/
theorem Parses.run_later (h : Parses f segment bs position ahead items ending) :
    ∃ here stop later, items = here ++ later ∧ Run f segment bs position here stop ∧
      (∀ position here, Run f segment bs position here stop →
        Parses f segment bs position ahead (here ++ later) ending) ∧
      (later = [] ∨ ∃ g index next ahead', ahead = (index, next) :: ahead' ∧
        Header.encode g <+: next ∧ Parses g index next Header.size ahead' later ending) := by
  cases h with
  | finish run ends =>
      refine ⟨_, _, [], (List.append_nil _).symm, run, fun _ here run => ?_, .inl rfl⟩
      rw [List.append_nil]
      exact .finish run ends
  | passOn run ends header rest =>
      exact ⟨_, _, _, rfl, run, fun _ here run => .passOn run ends header rest,
        .inr ⟨_, _, _, _, rfl, header, rest⟩⟩
  | badHeader run ends header =>
      refine ⟨_, _, [], (List.append_nil _).symm, run, fun _ here run => ?_, .inl rfl⟩
      rw [List.append_nil]
      exact .badHeader run ends header
  | torn run goes_on =>
      refine ⟨_, _, [], (List.append_nil _).symm, run, fun _ here run => ?_, .inl rfl⟩
      rw [List.append_nil]
      exact .torn run goes_on
  | damaged run goes_on why =>
      refine ⟨_, _, [], (List.append_nil _).symm, run, fun _ here run => ?_, .inl rfl⟩
      rw [List.append_nil]
      exact .damaged run goes_on why

/-- An entry of a concatenation is in one of its parts. -/
theorem split_append {α : Type} {here later before after : List α} {a : α}
    (h : here ++ later = before ++ a :: after) :
    (∃ before', later = before' ++ a :: after) ∨
      ∃ after', here = before ++ a :: after' ∧ after = after' ++ later := by
  rcases List.append_eq_append_iff.mp h with ⟨before', -, split⟩ | ⟨rest, split, same⟩
  · exact .inl ⟨before', split⟩
  · cases rest with
    | nil => exact .inl ⟨[], same.symm⟩
    | cons b rest =>
        obtain ⟨rfl, rfl⟩ := List.cons.inj same
        exact .inr ⟨rest, split, rfl⟩

/-- What is read from a record of these segments on, and from behind it. -/
structure ParsesFrom (segments : List (ℕ × Bytes)) (p : Pointer) (record : Record)
    (after : List (Pointer × Record)) (ending : Ending) : Prop where
  full : 0 < p.length
  inReach : p.offset + p.length ≤ Pointer.maxOffset
  inBody : Header.size ≤ p.offset
  parses : ∃ older g bs ahead, segments = older ++ (p.segment, bs) :: ahead ∧
    Header.encode g <+: bs ∧ p.offset + p.length ≤ bs.length ∧
    Parses g p.segment bs p.offset ahead ((p, record) :: after) ending ∧
    Parses g p.segment bs (p.offset + p.length) ahead after ending

/-- A record in the run of the first segment. -/
theorem Run.Through.parsesFrom {later : List (Pointer × Record)}
    (h : Run.Through f segment bs position stop p record after)
    (header : Header.encode f <+: bs) (inBody : Header.size ≤ position)
    (again : ∀ position here, Run f segment bs position here stop →
      Parses f segment bs position ahead (here ++ later) ending) :
    ParsesFrom ((segment, bs) :: ahead) p record (after ++ later) ending := by
  obtain rfl := h.here
  exact ⟨h.full, h.inReach, Nat.le_trans inBody h.le, [], f, bs, ahead, rfl, header, h.within,
    again _ _ h.at_record, again _ _ h.behind⟩

/-- A record is in the run of the first segment or in the segments ahead. -/
theorem Parses.split_cases (h : Parses f segment bs position ahead items ending)
    (header : Header.encode f <+: bs) (inBody : Header.size ≤ position)
    (split : items = before ++ (p, record) :: after) :
    ParsesFrom ((segment, bs) :: ahead) p record after ending ∨
      ∃ g index next ahead' before', ahead = (index, next) :: ahead' ∧
        Header.encode g <+: next ∧
        Parses g index next Header.size ahead' (before' ++ (p, record) :: after) ending := by
  obtain ⟨here, stop, later, rfl, run, again, rest⟩ := h.run_later
  rcases split_append split with ⟨before', rfl⟩ | ⟨after', found, rfl⟩
  · rcases rest with empty | ⟨g, index, next, ahead', rfl, header', rest⟩
    · cases (List.append_eq_nil_iff.mp empty).2
    · exact .inr ⟨g, index, next, ahead', before', rfl, header', rest⟩
  · exact .inl ((run.through found).parsesFrom header inBody again)

/-- What is read goes on from each of its records, and from behind it. -/
theorem Parses.split (h : Parses f segment bs position ahead items ending)
    (header : Header.encode f <+: bs) (inBody : Header.size ≤ position)
    (split : items = before ++ (p, record) :: after) :
    ParsesFrom ((segment, bs) :: ahead) p record after ending := by
  induction ahead generalizing f segment bs position items before with
  | nil =>
      rcases h.split_cases header inBody split with
        here | ⟨g, index, next, ahead', before', shown, -⟩
      · exact here
      · cases shown
  | cons e ahead ih =>
      rcases h.split_cases header inBody split with
        here | ⟨g, index, next, ahead', before', shown, header', rest⟩
      · exact here
      · cases shown
        obtain ⟨full, inReach, inBody, older, g, bs', ahead', shown, parses⟩ :=
          ih rest header' (Nat.le_refl _) rfl
        exact ⟨full, inReach, inBody, (segment, bs) :: older, g, bs', ahead', by rw [shown]; rfl,
          parses⟩

end Segment

namespace Session
variable {image : List (ℕ × Bytes)} {start : Option Pointer} {items : List (Pointer × Record)}
  {ending : Ending} {p : Pointer} {record : Record}

theorem consecutive_tail {older ahead : List ℕ} {first index len : ℕ}
    (h : older ++ index :: ahead = List.range' first len) :
    ahead = List.range' (index + 1) ahead.length := by
  obtain ⟨k, -, -, rest⟩ := List.range'_eq_append_iff.mp h.symm
  obtain ⟨-, -, tail⟩ := List.range'_eq_cons_iff.mp rest.symm
  rw [tail, List.length_range']

/-- What a session gives from a record on that was given, and from behind it. -/
theorem Replayed.split {before after : List (Pointer × Record)}
    (h : Replayed image start items ending) (split : items = before ++ (p, record) :: after) :
    Replayed image (some p) ((p, record) :: after) ending ∧
      ∃ q, p.next = .ok q ∧ Replayed image (some q) after ending := by
  cases h with
  | empty nothing no_start =>
      rw [List.nil_eq, List.append_eq_nil_iff] at split
      cases split.2
  | @reads older ahead first bs f items ending shown starts consecutive header within parses =>
      obtain ⟨full, inReach, inBody, newer, g, bs', ahead', suffix, header', within', at_record,
        behind⟩ := parses.split header (Nat.le_max_right ..) split
      have consecutive' : ahead'.map (·.1) = List.range' (p.segment + 1) ahead'.length := by
        have all : ((first, bs) :: ahead).map (·.1) = List.range' first (ahead.length + 1) := by
          rw [List.map_cons, consecutive, List.range'_succ]
        rw [suffix, List.map_append, List.map_cons] at all
        have := consecutive_tail all
        rwa [List.length_map] at this
      have next : p.next = .ok { segment := p.segment, offset := p.offset + p.length } := by
        have small : p.offset + p.length < UInt32.size := by
          unfold Pointer.maxOffset at inReach
          omega
        have some_bytes : p.length ≠ 0 := by omega
        simp only [Pointer.next, Pointer.endOffset, if_neg some_bytes, if_pos small]
        rfl
      have shown' : image = (older ++ newer) ++ (p.segment, bs') :: ahead' := by
        rw [shown, suffix, List.append_assoc]
      rw [← Nat.max_eq_left inBody] at at_record
      refine ⟨.reads shown' rfl consecutive' header' (by simp [startOffset]; omega) at_record,
        _, next, .reads shown' rfl consecutive' header' within' ?_⟩
      have offset : Header.size ≤ p.offset + p.length := by omega
      rwa [startOffset, Option.map_some, Option.getD_some, Nat.max_eq_left offset]

variable {d : Directory} {v : Volume} {bufferSize : ℕ} {s : Session}

/-- Whatever the segments of a directory in memory hold, a session that is opened at a record which
another one gave, or behind it, gives what that one gave from there on, and ends as it did. -/
theorem restart (place : d.place = .memory) (sorted : v.segments.Sorted)
    (opened : openRange d v bufferSize start none = .ok s) {i : ℕ}
    (given : (s.drain v).items[i]? = some (p, record)) (bufferSize' : ℕ) :
    (∃ s', openRange d v bufferSize' (some p) none = .ok s' ∧
      (s'.drain v).items = (s.drain v).items.drop i ∧
      (s'.drain v).ending = (s.drain v).ending) ∧
    ∃ q, p.next = .ok q ∧ ∃ s', openRange d v bufferSize' (some q) none = .ok s' ∧
      (s'.drain v).items = (s.drain v).items.drop (i + 1) ∧
      (s'.drain v).ending = (s.drain v).ending := by
  have shows := Directory.shows_memory place sorted
  obtain ⟨items, ending, replayed⟩ := replayed_of_openRange shows opened
  obtain ⟨s', opened', found, ended⟩ := openRange_of_replayed shows replayed bufferSize
  cases opened.symm.trans opened'
  rw [found, ended]
  rw [found] at given
  obtain ⟨lt, here⟩ := List.getElem?_eq_some_iff.mp given
  have split : items = items.take i ++ (p, record) :: items.drop (i + 1) := by
    rw [← here, ← List.drop_eq_getElem_cons, List.take_append_drop]
  have rest : items.drop i = (p, record) :: items.drop (i + 1) := by
    rw [← here, ← List.drop_eq_getElem_cons]
  obtain ⟨at_record, q, next, behind⟩ := replayed.split split
  rw [rest]
  exact ⟨openRange_of_replayed shows at_record bufferSize', q, next,
    openRange_of_replayed shows behind bufferSize'⟩

/-- The record before a damaged byte is given again, and behind it there is only the damage. -/
theorem restart_spoiled :
    let p : Pointer := ⟨3, 15, 19⟩
    let ending := some (.failed (.record 3 34 .truncatedPrefix))
    (∃ s, openRange { place := .memory } spoiled 7 (some p) none = .ok s ∧
      (s.drain spoiled).items = [(p, .pageRemove ⟨1⟩ ⟨2⟩ 7)] ∧
      (s.drain spoiled).ending = ending) ∧
    ∃ q, p.next = .ok q ∧ ∃ s, openRange { place := .memory } spoiled 7 (some q) none = .ok s ∧
      (s.drain spoiled).items = [] ∧ (s.drain spoiled).ending = ending := by
  have sorted : spoiled.segments.Sorted := by
    unfold Table.Sorted
    decide
  have replayed : (openRange { place := .memory } spoiled 5 none none).map
      (fun s => ((s.drain spoiled).items, (s.drain spoiled).ending)) =
        .ok ([(⟨3, 15, 19⟩, .pageRemove ⟨1⟩ ⟨2⟩ 7)],
          some (.failed (.record 3 34 .truncatedPrefix))) := by decide +kernel
  obtain ⟨s, opened, found⟩ := map_eq_ok.mp replayed
  obtain ⟨items, ending⟩ := Prod.mk.inj found
  have given : (s.drain spoiled).items[0]? = some (⟨3, 15, 19⟩, .pageRemove ⟨1⟩ ⟨2⟩ 7) := by
    rw [items]
    rfl
  have again := restart rfl sorted opened given 7
  rwa [items, ending] at again

end Session
end SegmentLog
