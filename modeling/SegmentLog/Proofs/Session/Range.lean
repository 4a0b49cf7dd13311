import SegmentLog.Proofs.Segment.Placed
import SegmentLog.Proofs.Session.Shown
import SegmentLog.Proofs.Session.Transcript

/-!
# What sessions give of a range

A session may start anywhere, be it in the middle of a record, stop anywhere, and find any bytes.
What it gives are pointers that a caller can keep, in the order in which the records stand, none of
them at the pointer where the session stops or behind it: `drain_addressed`.

Where a session that does not stop comes to its end without an error, one that stops gives the part
of its records that is in front of the pointer: `delivers_range`. For this the pointer may be
anything, too. The session that stops reads fewer segments, and the last of these ends it also if
it is damaged, but then the other session fails there.
-/
namespace SegmentLog

/-- Where what comes first has a property if something behind it does, the elements with the
property are found by looking no further than to the first one without it. -/
theorem filter_eq_takeWhile {α : Type} {p : α → Bool} {l : List α}
    (closed : l.Pairwise fun a b => p b → p a) : l.filter p = l.takeWhile p := by
  induction l with
  | nil => rfl
  | cons a l ih =>
      obtain ⟨first, closed⟩ := List.pairwise_cons.mp closed
      rw [List.takeWhile_cons]
      split
      · rename_i here
        rw [List.filter_cons_of_pos here, ih closed]
      · rename_i missing
        rw [List.filter_cons_of_neg missing, List.filter_eq_nil_iff]
        exact fun b mem there => missing (first b mem there)

theorem Address.lt_trans {a b c : Address} (hab : a < b) (hbc : b < c) : a < c := by
  rw [Address.lt_iff] at *
  omega

namespace Segment
variable {f : Format} {segment position : ℕ} {bs : Bytes} {near far : List (ℕ × Bytes)}
  {items : List (Pointer × Record)} {ending : Ending}

/-- What is given of segments without an error is given of the first few of them without one. The
rest is in the segments that were left out. -/
theorem Parses.of_near (h : Parses f segment bs position (near ++ far) items ending)
    (calm : ending.error? = none) :
    ∃ items' later ending', items = items' ++ later ∧
      Parses f segment bs position near items' ending' ∧ ending'.error? = none ∧
      ∀ item ∈ later, item.1.segment ∈ far.map (·.1) := by
  induction near generalizing f segment position bs items with
  | nil =>
      rw [List.nil_append] at h
      cases h with
      | finish run ends => exact ⟨_, [], _, (List.append_nil _).symm, .finish run ends, rfl, nofun⟩
      | torn run goes_on =>
          exact ⟨_, [], _, (List.append_nil _).symm, .torn run goes_on, rfl, nofun⟩
      | passOn run ends header rest =>
          exact ⟨_, _, _, rfl, .finish run ends, rfl,
            fun item mem => (rest.placed (Nat.le_refl _) item mem).segment_mem⟩
      | badHeader run ends header => cases calm
      | damaged run goes_on why => cases calm
  | cons e near ih =>
      rw [List.cons_append] at h
      cases h with
      | passOn run ends header rest =>
          obtain ⟨items', later, ending', rfl, parses, calm', beyond⟩ := ih rest
          exact ⟨_, later, ending', (List.append_assoc ..).symm, .passOn run ends header parses,
            calm', beyond⟩
      | badHeader run ends header => cases calm
      | damaged run goes_on why => cases calm

end Segment

namespace Session
variable {d : Directory} {v : Volume} {start stop : Option Pointer} {bufferSize : ℕ}
  {image : List (ℕ × Bytes)} {items : List (Pointer × Record)} {ending : Ending}

/-! ## Addresses -/

/-- What a session gives that is to stop at a pointer lies in the segments, in order, in front of
the pointer. -/
theorem Ranged.addressed (h : Ranged image start stop items ending)
    (ascending : (image.map (·.1)).Pairwise (· < ·)) :
    items.Pairwise (·.1.Precedes ·.1) ∧
      ∀ item ∈ items, Segment.Placed image item.1 ∧ InFront stop item := by
  cases h with
  | empty nothing no_start => exact ⟨.nil, nofun⟩
  | @reads older newer near first bs f items ending shown starts up_to consecutive header within
      parses =>
      subst shown up_to
      have part : ((first, bs) :: newer.takeWhile (InReach stop ·.1)).Sublist
          (older ++ (first, bs) :: newer) :=
        ((List.takeWhile_sublist _).cons_cons _).trans (List.sublist_append_right ..)
      have ordered := parses.ordered (ascending.sublist (part.map _))
      refine ⟨ordered.sublist (List.takeWhile_sublist _), fun item mem => ⟨?_, ?_⟩⟩
      · have placed := parses.placed (Nat.le_max_right ..) item
          ((List.takeWhile_sublist _).subset mem)
        exact placed.mono part.subset
      · simpa using List.mem_takeWhile_imp mem

/-- Whatever a session finds, it comes to its end, and it does so before it has been asked as often
as there are bytes. Its pointers are in order and can be kept. They lie in the segments of the
directory, in front of the pointer where the session stops. -/
theorem drain_addressed {s : Session} (place : d.place = .memory) (sorted : v.segments.Sorted)
    (opened : openRange d v bufferSize start stop = .ok s) :
    (∃ ending, (s.drain v).ending = some ending) ∧ s.take v (s.remaining v + 1) = s.drain v ∧
    ((s.drain v).items.Pairwise fun item later => item.1.address < later.1.address ∧
      (item.1.segment = later.1.segment →
        ∃ behind, item.1.endOffset = .ok behind ∧ behind ≤ later.1.offset)) ∧
    ∀ item ∈ (s.drain v).items,
      0 < item.1.length ∧ Header.size ≤ item.1.offset ∧
      item.1.offset + item.1.length ≤ Pointer.maxOffset ∧
      (∃ bs, v.segment? item.1.segment = some bs ∧ item.1.offset + item.1.length ≤ bs.length) ∧
      (item.1.segment < UInt64.size / 2 →
        ∃ external, item.1.toBytes = .ok external ∧ Pointer.ofBytes external = .ok item.1) ∧
      ∀ e ∈ stop, item.1.address < e.address := by
  have shows := Directory.shows_memory place sorted
  obtain ⟨items, ending, ranged⟩ := ranged_of_openRange shows opened
  obtain ⟨s', opened', rfl, ended⟩ := delivers_of_ranged shows ranged bufferSize
  cases opened.symm.trans opened'
  obtain ⟨ordered, addressed⟩ := ranged.addressed shows.ascending
  refine ⟨⟨ending, ended⟩, take_remaining v s, ordered.imp_of_mem ?_, fun item mem => ?_⟩
  · intro item later mem _ precedes
    have placed := (addressed item mem).1
    refine ⟨placed.lt_of_precedes precedes, fun same => ⟨_, placed.endOffset, ?_⟩⟩
    rcases precedes with older | ⟨-, before⟩
    · exact absurd same (Nat.ne_of_lt older)
    · exact before
  · obtain ⟨placed, front⟩ := addressed item mem
    obtain ⟨bs, there, within⟩ := placed.within
    exact ⟨placed.full, placed.inBody, placed.inReach,
      ⟨bs, Volume.segment?_of_mem there, within⟩, placed.external, front⟩

/-- Two segments. The payload of the record in the first one is the frame of another record, and
behind the records of the second one there is damage. -/
def nested : Volume where
  contents := #[Header.encode .unchecked ++
      ([3, 35, 0, 0, 0, 1, 0, 0, 0, 2, 0, 0, 0, 0, 0, 0, 0, 19, 0, 0, 0] ++
        [5, 14, 0, 0, 0, 1, 0, 0, 0, 2, 0, 0, 0, 0, 0, 0, 0, 6, 0]),
    Header.encode .unchecked ++
      ([5, 14, 0, 0, 0, 1, 0, 0, 0, 2, 0, 0, 0, 0, 0, 0, 0, 7, 0] ++
        [5, 14, 0, 0, 0, 1, 0, 0, 0, 2, 0, 0, 0, 0, 0, 0, 0, 8, 0] ++ [9])]
  segments := [(3, 0), (4, 1)]

theorem sorted_nested : nested.segments.Sorted := by
  unfold Table.Sorted
  decide

/-- A session that starts at the frame in the payload and stops in the middle of a record. -/
theorem drain_addressed_nested :
    nested.segments.Sorted ∧ ∃ s,
      openRange { place := .memory } nested 8 (some ⟨3, 36, 0⟩) (some ⟨4, 20, 0⟩) = .ok s ∧
      (s.drain nested).items =
        [(⟨3, 36, 19⟩, .pageRemove ⟨1⟩ ⟨2⟩ 6), (⟨4, 15, 19⟩, .pageRemove ⟨1⟩ ⟨2⟩ 7)] ∧
      s.take nested (s.remaining nested + 1) = s.drain nested ∧
      (⟨3, 36⟩ : Address) < ⟨4, 15⟩ ∧ (⟨4, 15⟩ : Address) < ⟨4, 20⟩ ∧
      ∃ external, Pointer.toBytes ⟨4, 15, 19⟩ = .ok external ∧
        Pointer.ofBytes external = .ok ⟨4, 15, 19⟩ := by
  have given : (openRange { place := .memory } nested 8 (some ⟨3, 36, 0⟩) (some ⟨4, 20, 0⟩)).map
      (fun s => (s.drain nested).items) =
      .ok [(⟨3, 36, 19⟩, .pageRemove ⟨1⟩ ⟨2⟩ 6), (⟨4, 15, 19⟩, .pageRemove ⟨1⟩ ⟨2⟩ 7)] := by
    decide +kernel
  obtain ⟨s, opened, items⟩ := map_eq_ok.mp given
  obtain ⟨-, enough, ordered, addressed⟩ := drain_addressed rfl sorted_nested opened
  rw [items] at ordered addressed
  obtain ⟨-, -, -, -, external, front⟩ :=
    addressed (⟨4, 15, 19⟩, .pageRemove ⟨1⟩ ⟨2⟩ 7) (List.mem_cons_of_mem _ List.mem_cons_self)
  exact ⟨sorted_nested, s, opened, items, enough,
    ((List.pairwise_cons.mp ordered).1 _ List.mem_cons_self).1, front _ rfl, external (by decide)⟩

/-! ## The part in front of a pointer -/

theorem inFront_some {e : Pointer} {item : Pointer × Record} :
    InFront (some e) item ↔ item.1.address < e.address := by
  simp [InFront]

theorem inReach_some {e : Pointer} {segment : ℕ} :
    InReach (some e) segment ↔ segment ≤ e.segment := by
  simp [InReach]

/-- Of consecutive segments those that are not behind the pointer are consecutive, and all others
are behind it. -/
theorem takeWhile_inReach {ahead : List (ℕ × Bytes)} {next : ℕ} (e : Pointer)
    (consecutive : ahead.map (·.1) = List.range' next ahead.length) :
    ∃ near far, ahead = near ++ far ∧ near = ahead.takeWhile (InReach (some e) ·.1) ∧
      near.map (·.1) = List.range' next near.length ∧
      ∀ segment ∈ far.map (·.1), e.segment < segment := by
  obtain ⟨near, up_to⟩ : ∃ near, near = ahead.takeWhile (InReach (some e) ·.1) := ⟨_, rfl⟩
  obtain ⟨far, rest⟩ : ∃ far, far = ahead.dropWhile (InReach (some e) ·.1) := ⟨_, rfl⟩
  have parts : ahead = near ++ far := by rw [up_to, rest, List.takeWhile_append_dropWhile]
  rw [parts, List.map_append, List.length_append, ← List.range'_append_1] at consecutive
  obtain ⟨follow, beyond⟩ := List.append_inj consecutive (by simp)
  refine ⟨near, far, parts, up_to, follow, fun segment mem => ?_⟩
  cases far with
  | nil => cases mem
  | cons first far =>
      have out := List.head?_dropWhile_not (fun x => decide (InReach (some e) x.1)) ahead
      rw [← rest] at out
      simp only [List.head?_cons, decide_eq_false_iff_not, inReach_some, Nat.not_le] at out
      rw [beyond, List.mem_range'_1] at mem
      rw [List.map_cons, List.length_cons, List.range'_succ] at beyond
      have := (List.cons.inj beyond).1
      omega

/-- The records in front of a pointer are the first ones, as records are in order. -/
theorem filter_front {items : List (Pointer × Record)} (e : Pointer)
    (ordered : items.Pairwise (·.1.address < ·.1.address)) :
    items.filter (·.1.address < e.address) = items.takeWhile (InFront (some e)) := by
  have same : (fun item : Pointer × Record => decide (item.1.address < e.address)) =
      fun item => decide (InFront (some e) item) :=
    funext fun item => decide_eq_decide.mpr inFront_some.symm
  rw [same]
  refine filter_eq_takeWhile (ordered.imp fun lt front => ?_)
  rw [decide_eq_true_eq, inFront_some] at front ⊢
  exact Address.lt_trans lt front

/-- The session that stops gives what the other one gives in front of the pointer. -/
theorem Replayed.ranged (h : Replayed image start items ending)
    (ascending : (image.map (·.1)).Pairwise (· < ·)) (calm : ending.error? = none) (e : Pointer) :
    ∃ ending', ending'.error? = none ∧
      Ranged image start (some e) (items.filter (·.1.address < e.address)) ending' := by
  cases h with
  | empty nothing no_start => exact ⟨_, rfl, .empty nothing no_start⟩
  | @reads older ahead first bs f items ending shown starts consecutive header within parses =>
      subst shown
      obtain ⟨near, far, parts, up_to, follow, behind⟩ := takeWhile_inReach e consecutive
      rw [parts] at parses
      obtain ⟨items', later, ending', rfl, parses, calm', beyond⟩ := parses.of_near calm
      have left_out : later.filter (·.1.address < e.address) = [] := by
        refine List.filter_eq_nil_iff.mpr fun item mem => ?_
        have := behind _ (beyond item mem)
        rw [decide_eq_true_eq, Address.lt_iff]
        dsimp only [Pointer.address]
        omega
      have part : ((first, bs) :: near).Sublist (older ++ (first, bs) :: ahead) := by
        rw [parts]
        exact ((List.sublist_append_left ..).cons_cons _).trans (List.sublist_append_right ..)
      have placed := parses.placed (Nat.le_max_right ..)
      have ordered := (parses.ordered (ascending.sublist (part.map _))).imp_of_mem
        fun mem _ precedes => (placed _ mem).lt_of_precedes precedes
      rw [List.filter_append, left_out, List.append_nil, filter_front e ordered]
      refine ⟨_, ?_, .reads rfl starts up_to follow header within parses⟩
      split
      · exact calm'
      · rfl

/-- Where a session without a pointer to stop at comes to its end without an error, a session with
any pointer opens, comes to its end without an error, too, and gives what is in front of the
pointer. -/
theorem delivers_range (place : d.place = .memory) (sorted : v.segments.Sorted)
    (full : Delivers (openRange d v bufferSize start none) v items ending)
    (calm : ending.error? = none) (e : Pointer) (bufferSize' : ℕ) :
    ∃ ending', ending'.error? = none ∧ Delivers (openRange d v bufferSize' start (some e)) v
      (items.filter (·.1.address < e.address)) ending' := by
  have shows := Directory.shows_memory place sorted
  have replayed := ranged_none.mp ((delivers_iff shows).mp full)
  obtain ⟨ending', calm', ranged⟩ := replayed.ranged shows.ascending calm e
  exact ⟨ending', calm', delivers_of_ranged shows ranged bufferSize'⟩

/-- The records of the two segments, which the middle of the first one separates. -/
theorem delivers_range_nested :
    let place : Directory := { place := .memory }
    let inner : Bytes := [5, 14, 0, 0, 0, 1, 0, 0, 0, 2, 0, 0, 0, 0, 0, 0, 0, 6, 0]
    nested.segments.Sorted ∧
    Delivers (openRange place nested 8 none none) nested
      [(⟨3, 15, 40⟩, .pageInsert ⟨1⟩ ⟨2⟩ inner), (⟨4, 15, 19⟩, .pageRemove ⟨1⟩ ⟨2⟩ 7),
        (⟨4, 34, 19⟩, .pageRemove ⟨1⟩ ⟨2⟩ 8)] .tornTail ∧
    ∃ ending, ending.error? = none ∧
      Delivers (openRange place nested 5 none (some ⟨3, 36, 0⟩)) nested
        [(⟨3, 15, 40⟩, .pageInsert ⟨1⟩ ⟨2⟩ inner)] ending := by
  intro place inner
  have full : Delivers (openRange place nested 8 none none) nested
      [(⟨3, 15, 40⟩, .pageInsert ⟨1⟩ ⟨2⟩ inner), (⟨4, 15, 19⟩, .pageRemove ⟨1⟩ ⟨2⟩ 7),
        (⟨4, 34, 19⟩, .pageRemove ⟨1⟩ ⟨2⟩ 8)] .tornTail := by
    decide +kernel
  exact ⟨sorted_nested, full, delivers_range rfl sorted_nested full rfl ⟨3, 36, 0⟩ 5⟩

end Session
end SegmentLog
