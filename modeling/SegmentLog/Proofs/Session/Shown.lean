import SegmentLog.Proofs.Directory.Kept
import SegmentLog.Proofs.Session.Replay
import SegmentLog.Proofs.Session.Stop

/-!
# Replaying what a directory shows

A directory shows segments with their bytes, wherever it keeps them. Which sessions open on it, and
what they give when they are read to their end, follows from what it shows: `delivers_iff` for
those that stop at a pointer, and `openRange_iff` for those that do not.
-/
namespace SegmentLog

/-- The directory lists these segments, in ascending order, and opens each of them on its bytes, and
no others. -/
structure Directory.Shows (d : Directory) (v : Volume) (image : List (ℕ × Bytes)) : Prop where
  list : d.list v = .ok (image.map (·.1))
  ascending : (image.map (·.1)).Pairwise (· < ·)
  stores : ∀ e ∈ image, d.Stores v e.1 e.2
  missing : ∀ index, index ∉ image.map (·.1) → d.openRead v index = .error (.segmentMissing index)

theorem Volume.segment?_of_mem {v : Volume} {e : ℕ × Bytes}
    (h : e ∈ v.segments.keys.map fun i => (i, (v.segment? i).getD [])) :
    v.segment? e.1 = some e.2 := by
  obtain ⟨i, hi, rfl⟩ := List.mem_map.mp h
  obtain ⟨bs, hbs⟩ := Option.ne_none_iff_exists'.mp (Volume.mem_keys.mp hi)
  rw [hbs, Option.getD_some]

/-- A directory in memory shows its segments with their contents. -/
theorem Directory.shows_memory {d : Directory} {v : Volume} (place : d.place = .memory)
    (sorted : v.segments.Sorted) :
    d.Shows v (v.segments.keys.map fun i => (i, (v.segment? i).getD [])) := by
  have indices : (v.segments.keys.map fun i => (i, (v.segment? i).getD [])).map (·.1) =
      v.segments.keys := by
    rw [List.map_map]
    exact List.map_id _
  refine ⟨?_, ?_, fun e he => ?_, fun index absent => ?_⟩
  · rw [indices, Directory.list, place]
    rfl
  · rw [indices]
    exact List.pairwise_map.mpr sorted
  · exact Directory.stores_memory place (Volume.segment?_of_mem he)
  · rw [indices, Volume.mem_keys, not_not, Volume.segment?, Option.map_eq_none_iff] at absent
    simp only [Directory.openRead, place, Place.openSegment, absent]

/-- A directory shows what its place keeps. -/
theorem Place.Keeps.shows {place : Place} {v : Volume} {removed : ℕ} {ids : List ContentId}
    (h : place.Keeps v removed ids) : Directory.Shows { place } v (v.image removed ids) := by
  refine ⟨?_, ?_, fun e he => ?_, fun k absent => ?_⟩
  · rw [Volume.map_fst_image]
    exact h.stocks.list
  · rw [Volume.map_fst_image]
    exact List.pairwise_lt_range'
  · obtain ⟨id, there, hid, bytes⟩ := Volume.mem_image he
    obtain ⟨s, opened, opens⟩ := h.stocks.openSegment there hid true
    exact ⟨s, opened, bytes ▸ opens.holds⟩
  · rw [Volume.map_fst_image, List.mem_range'_1] at absent
    exact h.stocks.openSegment_missing (by omega) true

/-- The segments from one on that is shown are in order and can be read. -/
theorem Directory.Shows.onward {d : Directory} {v : Volume} {older newer : List (ℕ × Bytes)}
    {first : ℕ} {bs : Bytes} (h : d.Shows v (older ++ (first, bs) :: newer)) :
    (first :: newer.map (·.1)).Pairwise (· < ·) ∧ d.Stores v first bs ∧
      ∀ e ∈ newer, d.Stores v e.1 e.2 := by
  have ascending := h.ascending
  rw [List.map_append, List.map_cons, List.pairwise_append] at ascending
  exact ⟨ascending.2.1, List.forall_mem_cons.mp (List.forall_mem_append.mp h.stores).2⟩

namespace Session

/-- A session from `start` on through the segments of an image gives these records and ends so. -/
inductive Replayed (image : List (ℕ × Bytes)) (start : Option Pointer) :
    List (Pointer × Record) → Ending → Prop
  | empty (nothing : image = []) (no_start : start = none) : Replayed image start [] .finish
  | reads {older ahead : List (ℕ × Bytes)} {first : ℕ} {bs : Bytes} {f : Format}
      {items : List (Pointer × Record)} {ending : Ending}
      (shown : image = older ++ (first, bs) :: ahead)
      (starts : start.elim (older = []) (·.segment = first))
      (consecutive : ahead.map (·.1) = List.range' (first + 1) ahead.length)
      (header : Header.encode f <+: bs) (within : startOffset start ≤ bs.length)
      (parses :
        Segment.Parses f first bs (max (startOffset start) Header.size) ahead items ending) :
      Replayed image start items ending

/-- A session from `start` on that stops at a pointer gives these records of an image and ends so.
It covers the segments up to that of the pointer, and the first one in any case. -/
inductive Ranged (image : List (ℕ × Bytes)) (start stop : Option Pointer) :
    List (Pointer × Record) → Ending → Prop
  | empty (nothing : image = []) (no_start : start = none) : Ranged image start stop [] .finish
  | reads {older newer near : List (ℕ × Bytes)} {first : ℕ} {bs : Bytes} {f : Format}
      {items : List (Pointer × Record)} {ending : Ending}
      (shown : image = older ++ (first, bs) :: newer)
      (starts : start.elim (older = []) (·.segment = first))
      (up_to : near = newer.takeWhile (InReach stop ·.1))
      (consecutive : near.map (·.1) = List.range' (first + 1) near.length)
      (header : Header.encode f <+: bs) (within : startOffset start ≤ bs.length)
      (parses :
        Segment.Parses f first bs (max (startOffset start) Header.size) near items ending) :
      Ranged image start stop (items.takeWhile (InFront stop))
        (if ∀ item ∈ items, InFront stop item then ending else .finish)

/-- A session opens, gives these records and ends like this. -/
def Delivers (opened : Except Error Session) (v : Volume) (items : List (Pointer × Record))
    (ending : Ending) : Prop :=
  ∃ s, opened = .ok s ∧ (s.drain v).items = items ∧ (s.drain v).ending = some ending

variable {d : Directory} {v : Volume} {start stop : Option Pointer} {first bufferSize : ℕ}
  {bs : Bytes} {image older ahead : List (ℕ × Bytes)} {items : List (Pointer × Record)}
  {ending : Ending}

theorem delivers_iff_map {opened : Except Error Session} :
    Delivers opened v items ending ↔
      opened.map (fun s => ((s.drain v).items, (s.drain v).ending)) = .ok (items, some ending) := by
  simp only [Delivers, map_eq_ok, Prod.mk.injEq]

instance (opened : Except Error Session) (v : Volume) (items : List (Pointer × Record))
    (ending : Ending) : Decidable (Delivers opened v items ending) :=
  decidable_of_iff _ delivers_iff_map.symm

theorem Delivers.unique {opened : Except Error Session} {items' : List (Pointer × Record)}
    {ending' : Ending} (h : Delivers opened v items ending)
    (h' : Delivers opened v items' ending') : items = items' ∧ ending = ending' := by
  rw [delivers_iff_map] at h h'
  cases h.symm.trans h'
  exact ⟨rfl, rfl⟩

/-! ## The first segment -/

theorem listed_from (ascending : ((older ++ (first, bs) :: ahead).map (·.1)).Pairwise (· < ·)) :
    ((older ++ (first, bs) :: ahead).map (·.1)).filter (first ≤ ·) = first :: ahead.map (·.1) := by
  rw [List.map_append, List.map_cons, List.pairwise_append] at ascending
  obtain ⟨-, later, before⟩ := ascending
  rw [List.map_append, List.map_cons, List.filter_append, List.filter_eq_nil_iff.mpr,
    List.filter_eq_self.mpr, List.nil_append]
  · refine List.forall_mem_cons.mpr ⟨by simp, fun i hi => ?_⟩
    have := (List.pairwise_cons.mp later).1 i hi
    simp only [decide_eq_true_eq]
    omega
  · intro i hi
    have := before i hi first List.mem_cons_self
    simp only [decide_eq_true_eq]
    omega

/-- A session opens on its first segment and covers the segments that are listed from there on. -/
theorem openRange_of_shown (shows : d.Shows v (older ++ (first, bs) :: ahead))
    (starts : start.elim (older = []) (·.segment = first)) (stop : Option Pointer) :
    openRange d v bufferSize start stop = do
      let segments ← coverage stop first (first :: ahead.map (·.1))
      let reader ← d.openReader v bufferSize first (startOffset start)
      return { directory := d, bufferSize, segments, ahead := segments.tail, stop,
               reader := some reader, last := none } := by
  have named : (start.map (·.segment)).or
      ((older ++ (first, bs) :: ahead).map (·.1)).head? = some first := by
    cases start with
    | some p => exact congrArg some starts
    | none =>
        obtain rfl : older = [] := starts
        rfl
  have listed : ((older ++ (first, bs) :: ahead).map (·.1)).contains first = true := by simp
  simp only [openRange, shows.list, bind, Except.bind, named, listed, listed_from shows.ascending]
  rfl

/-- If a session opens, its first segment is one of those that are shown. -/
theorem first_shown {s : Session} (shows : d.Shows v image)
    (opened : openRange d v bufferSize start stop = .ok s) :
    (image = [] ∧ start = none) ∨ ∃ older first bs newer,
      image = older ++ (first, bs) :: newer ∧ start.elim (older = []) (·.segment = first) := by
  cases start with
  | none =>
      cases image with
      | nil => exact .inl ⟨rfl, rfl⟩
      | cons e newer => exact .inr ⟨[], e.1, e.2, newer, rfl, rfl⟩
  | some p =>
      by_cases mem : p.segment ∈ image.map (·.1)
      · obtain ⟨e, he, same⟩ := List.mem_map.mp mem
        obtain ⟨older, newer, rfl⟩ := List.append_of_mem he
        exact .inr ⟨older, e.1, e.2, newer, rfl, same.symm⟩
      · have unlisted : (image.map (·.1)).contains p.segment = false := by
          rw [List.contains_eq_mem]
          simpa using mem
        simp only [openRange, shows.list, bind, Except.bind, Option.map_some, Option.some_or,
          unlisted] at opened
        cases opened

/-! ## Sessions that stop at a pointer -/

/-- What a session gives that has opened on its first segment. -/
theorem drain_of_shown (stores : ∀ e ∈ ahead, d.Stores v e.1 e.2) {r : Reader} (on : r.On v bs)
    (parses : Segment.Parses r.format r.segment bs r.position ahead items ending)
    (segments : List ℕ) (bufferSize : ℕ) (stop : Option Pointer) :
    let s : Session := { directory := d, bufferSize, segments, ahead := ahead.map (·.1),
                         stop, reader := some r, last := none }
    (s.drain v).items = items.takeWhile (InFront stop) ∧
      (s.drain v).ending =
        some (if ∀ item ∈ items, InFront stop item then ending else .finish) := by
  intro s
  have before : (s.stoppingAt none).Before v r.format r.segment bs r.position ahead :=
    ⟨rfl, ⟨r, rfl, on, rfl, rfl, rfl⟩, rfl, stores⟩
  obtain ⟨found, ended⟩ := drain_spec before
  rw [Segment.scanFrom_of_parses parses] at found ended
  obtain ⟨items', ending'⟩ := drain_stoppingAt (v := v) before.stop stop
  rw [found] at items' ending'
  rw [ended, ← apply_ite some] at ending'
  exact ⟨items', ending'⟩

theorem delivers_of_ranged (shows : d.Shows v image) (h : Ranged image start stop items ending)
    (bufferSize : ℕ) : Delivers (openRange d v bufferSize start stop) v items ending := by
  cases h with
  | empty nothing no_start =>
      subst nothing no_start
      refine ⟨_, by simp only [openRange, shows.list, bind, Except.bind]; rfl, ?_⟩
      rw [drain]
      exact ⟨rfl, rfl⟩
  | @reads older newer near first bs f items ending shown starts up_to consecutive header within
      parses =>
      subst shown up_to
      have header := Header.decode_eq_ok_iff.mpr header
      obtain ⟨ascending, there, later⟩ := shows.onward
      obtain ⟨r, opened, on, rfl, rfl, position⟩ :=
        Directory.openReader_of_ok there header (startOffset start)
          (Nat.max_le.mpr ⟨within, Header.size_le_of_decode header⟩) bufferSize
      rw [← position] at parses
      obtain ⟨segments, covered, tail⟩ : ∃ segments,
          coverage stop r.segment (r.segment :: newer.map (·.1)) = .ok segments ∧
            segments.tail = (newer.takeWhile (InReach stop ·.1)).map (·.1) := by
        refine ⟨_, (coverage_eq_ok stop ascending).mpr ⟨?_, rfl⟩, ?_⟩
        · rwa [List.takeWhile_map, List.length_map]
        · rw [tail_takeWhile_inReach stop ascending, List.takeWhile_map]
          rfl
      have near : ∀ e ∈ newer.takeWhile (InReach stop ·.1), d.Stores v e.1 e.2 :=
        fun e he => later e ((List.takeWhile_sublist _).subset he)
      refine ⟨_, ?_, drain_of_shown near on parses segments bufferSize stop⟩
      rw [openRange_of_shown shows starts, covered]
      simp only [bind, Except.bind, opened, tail]
      rfl

theorem ranged_of_openRange {s : Session} (shows : d.Shows v image)
    (opened : openRange d v bufferSize start stop = .ok s) :
    ∃ items ending, Ranged image start stop items ending := by
  rcases first_shown shows opened with ⟨nothing, no_start⟩ | ⟨older, first, bs, newer, rfl, starts⟩
  · exact ⟨_, _, .empty nothing no_start⟩
  rw [openRange_of_shown shows starts] at opened
  obtain ⟨segments, covered, opened⟩ := bind_eq_ok.mp opened
  obtain ⟨reader, opened, -⟩ := bind_eq_ok.mp opened
  obtain ⟨ascending, there, -⟩ := shows.onward
  obtain ⟨follow, -⟩ := (coverage_eq_ok stop ascending).mp covered
  rw [List.takeWhile_map, List.length_map] at follow
  cases header : Header.decode bs with
  | error fault =>
      rw [Directory.openReader_of_error there header] at opened
      cases opened
  | ok f =>
      by_cases past : bs.length < startOffset start
      · rw [Directory.openReader_of_past there header past] at opened
        cases opened
      · obtain ⟨items, ending, parses⟩ := Segment.exists_parses f first bs
          (max (startOffset start) Header.size) (newer.takeWhile (InReach stop ·.1))
        exact ⟨_, _, .reads rfl starts rfl follow (Header.decode_eq_ok_iff.mp header)
          (Nat.le_of_not_lt past) parses⟩

/-- Whether a session opens and what it gives is a matter of what the directory shows. -/
theorem delivers_iff (shows : d.Shows v image) :
    Delivers (openRange d v bufferSize start stop) v items ending ↔
      Ranged image start stop items ending := by
  constructor
  · intro delivers
    obtain ⟨items', ending', ranged⟩ := ranged_of_openRange shows delivers.choose_spec.1
    obtain ⟨rfl, rfl⟩ := delivers.unique (delivers_of_ranged shows ranged bufferSize)
    exact ranged
  · intro ranged
    exact delivers_of_ranged shows ranged bufferSize

/-! ## Sessions that do not -/

theorem inFront_none (item : Pointer × Record) : InFront none item := nofun

theorem inReach_none (segment : ℕ) : InReach none segment := nofun

theorem ranged_none :
    Ranged image start none items ending ↔ Replayed image start items ending := by
  have whole (items : List (Pointer × Record)) : items.takeWhile (InFront none) = items :=
    List.takeWhile_eq_self_iff.mpr fun item _ => decide_eq_true (inFront_none item)
  have all (newer : List (ℕ × Bytes)) : newer.takeWhile (InReach none ·.1) = newer :=
    List.takeWhile_eq_self_iff.mpr fun e _ => decide_eq_true (inReach_none e.1)
  constructor
  · intro h
    cases h with
    | empty nothing no_start => exact .empty nothing no_start
    | reads shown starts up_to consecutive header within parses =>
        rw [whole, if_pos fun item _ => inFront_none item]
        rw [all] at up_to
        subst up_to
        exact .reads shown starts consecutive header within parses
  · intro h
    cases h with
    | empty nothing no_start => exact .empty nothing no_start
    | reads shown starts consecutive header within parses =>
        have ranged : Ranged image start none _ _ :=
          .reads shown starts (all _).symm consecutive header within parses
        rwa [whole, if_pos fun item _ => inFront_none item] at ranged

theorem openRange_of_replayed (shows : d.Shows v image) (h : Replayed image start items ending)
    (bufferSize : ℕ) :
    ∃ s, openRange d v bufferSize start none = .ok s ∧ (s.drain v).items = items ∧
      (s.drain v).ending = some ending :=
  delivers_of_ranged shows (ranged_none.mpr h) bufferSize

theorem replayed_of_openRange {s : Session} (shows : d.Shows v image)
    (opened : openRange d v bufferSize start none = .ok s) :
    ∃ items ending, Replayed image start items ending := by
  obtain ⟨items, ending, ranged⟩ := ranged_of_openRange shows opened
  exact ⟨items, ending, ranged_none.mp ranged⟩

theorem openRange_iff (shows : d.Shows v image) :
    (∃ s, openRange d v bufferSize start none = .ok s ∧ (s.drain v).items = items ∧
      (s.drain v).ending = some ending) ↔ Replayed image start items ending :=
  (delivers_iff shows).trans ranged_none

/-- What a session gives whose first segment has a header, if it starts in front of the records. -/
theorem openRange_scanAll {oldest segments : List (ℕ × Bytes)} (some_segment : segments ≠ [])
    (shows : d.Shows v (oldest ++ segments))
    (starts : start.elim (oldest = []) (·.segment = first))
    (in_header : startOffset start ≤ Header.size)
    (follow : segments.map (·.1) = List.range' first segments.length)
    (header : ∀ e ∈ segments.head?, ∃ f, Header.encode f <+: e.2) (bufferSize : ℕ) :
    Delivers (openRange d v bufferSize start none) v (Segment.scanAll segments).1
      (Segment.scanAll segments).2 := by
  cases segments with
  | nil => exact absurd rfl some_segment
  | cons e ahead =>
      obtain ⟨index, bs⟩ := e
      obtain ⟨f, header⟩ := header _ rfl
      have decoded := Header.decode_eq_ok_iff.mpr header
      rw [List.map_cons, List.length_cons, List.range'_succ] at follow
      obtain ⟨rfl, consecutive⟩ := List.cons.inj follow
      refine openRange_of_replayed shows (.reads rfl starts consecutive header
        (Nat.le_trans in_header (Header.size_le_of_decode decoded)) (Segment.parses_iff.mpr ?_))
        bufferSize
      rw [Nat.max_eq_right in_header, Segment.scanAll_of_header decoded, Segment.scanFrom]

end Session
end SegmentLog
