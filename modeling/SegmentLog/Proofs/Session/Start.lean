import SegmentLog.Proofs.Session.Live

/-!
# Where a session starts

A session that is opened on an undamaged log is to give the records that are there from its start
on, and these are a back part of all records there have been: `openRange_cases`.
-/
namespace SegmentLog

theorem Place.Shelves.ascending {place : Place} {v : Volume} {removed : ℕ} {shelf : Shelf}
    (h : place.Shelves v removed shelf) : shelf.items.Pairwise (·.1.address < ·.1.address) := by
  apply Image.itemsFrom_ascending
  intro i hi
  obtain ⟨e, he, rfl⟩ := List.mem_map.mp hi
  exact (h.sound e he).1

namespace Session
open SegmentLog.Shelf

/-- The records of the listed segments that are not before the start. -/
def due (listed : List ℕ) (start : Option Pointer) (items : List (Pointer × Record)) :
    List (Pointer × Record) :=
  items.filter fun item =>
    listed.contains item.1.segment && start.all fun p => item.1.compare p ≠ .lt

variable {v : Volume} {place : Place} {removed k : ℕ} {shelf : Shelf} {id : ContentId}
  {image : Image} {passed : Frames} {start : Option Pointer}

theorem filter_range' (le : removed ≤ k) (n : ℕ) (within : k ≤ removed + n) :
    (List.range' removed n).filter (k ≤ ·) = List.range' k (removed + n - k) := by
  have parts : List.range' removed n =
      List.range' removed (k - removed) ++ List.range' k (removed + n - k) := by
    have := List.range'_append_1 (s := removed) (m := k - removed) (n := removed + n - k)
    rw [show removed + (k - removed) = k by omega,
      show k - removed + (removed + n - k) = n by omega] at this
    exact this.symm
  rw [parts, List.filter_append, List.filter_eq_nil_iff.mpr, List.filter_eq_self.mpr,
    List.nil_append]
  · intro i hi
    have := (List.mem_range'_1.mp hi).1
    simpa using this
  · intro i hi
    have := (List.mem_range'_1.mp hi).2
    simp
    omega

/-- A session opens behind any frames of a segment that is there. -/
theorem openRange_tracks (start : Option Pointer) (shelves : place.Shelves v removed shelf)
    (there : removed ≤ k) (hk : shelf[k]? = some (id, image)) (front : passed <+: image.frames)
    (first : (start.map (·.segment)).or
      (List.range' removed (shelf.length - removed)).head? = some k)
    (position : max ((start.map (·.offset)).getD 0) Header.size =
      Header.size + passed.bytes.length) (bufferSize : ℕ) :
    ∃ s, openRange { place } v bufferSize start none = .ok s ∧
      s.Tracks place v shelf shelf.items
        (items (shelf.take k) ++ passed.items k Header.size) ∧ s.Safe removed := by
  have lt := (List.getElem?_eq_some_iff.mp hk).1
  have all : shelf.items <+: items (shelf.take (k + (shelf.length - k - 1) + 1)) := by
    simp only [show k + (shelf.length - k - 1) + 1 = shelf.length by omega, List.take_length,
      List.prefix_refl]
  obtain ⟨r, opened, segment, through⟩ := shelves.openReader_through there hk front position
    bufferSize (by omega) all
  have listed : Directory.list { place } v = .ok (List.range' removed (shelf.length - removed)) :=
    shelves.list
  have contained : (List.range' removed (shelf.length - removed)).contains k = true := by
    rw [List.contains_iff_mem, List.mem_range'_1]
    omega
  have covered : coverage none k ((List.range' removed (shelf.length - removed)).filter (k ≤ ·)) =
      .ok (List.range' k (shelf.length - k)) := by
    rw [filter_range' there _ (by omega), show removed + (shelf.length - removed) - k =
      shelf.length - k by omega]
    exact coverage_none ..
  have ahead : (List.range' k (shelf.length - k)).tail =
      List.range' (r.segment + 1) (shelf.length - k - 1) := by
    rw [segment, List.tail_range']
  have result : openRange { place } v bufferSize start none = .ok
      { directory := { place }, bufferSize, segments := List.range' k (shelf.length - k),
        ahead := (List.range' k (shelf.length - k)).tail, stop := none, reader := some r,
        last := none } := by
    simp only [openRange, listed, bind, Except.bind, first, contained, covered, opened]
    rfl
  refine ⟨_, result, .reading rfl rfl rfl ahead through, ?_⟩
  intro _ hr
  cases hr
  exact le_of_le_of_eq there segment.symm

/-- Only the records before a session are missing from what is due to it. -/
theorem append_due {items skipped rest : List (Pointer × Record)} {listed : List ℕ}
    (parts : items = skipped ++ rest)
    (before : ∀ item ∈ skipped, item.1.segment ∉ listed ∨ ∃ p ∈ start, item.1.address < p.address)
    (behind : ∀ item ∈ rest, item.1.segment ∈ listed ∧
      ∀ p ∈ start, ¬item.1.address < p.address) :
    skipped ++ due listed start items = items := by
  have none_before : due listed start skipped = [] := by
    apply List.filter_eq_nil_iff.mpr
    intro item hi
    rcases before item hi with gone | ⟨p, rfl, earlier⟩
    · simp [gone]
    · simp [Pointer.compare_eq_lt.mpr earlier]
  have all_behind : due listed start rest = rest := by
    apply List.filter_eq_self.mpr
    intro item hi
    obtain ⟨there, late⟩ := behind item hi
    have reached : (start.all fun p => !decide (item.1.compare p = .lt)) = true := by
      rw [Option.all_eq_true]
      intro p hp
      simpa [Pointer.compare_eq_lt] using late p hp
    simp [there, reached]
  rw [parts, due, List.filter_append]
  rw [due] at none_before all_behind
  rw [none_before, all_behind, List.nil_append]

/-- A record divides the others into those before it and those behind it. -/
theorem exists_split {item : Pointer × Record} (mem : item ∈ shelf.items) :
    ∃ (e : ContentId × Image) (passed : Frames) (rest : List (Pointer × Record)),
      shelf[item.1.segment]? = some e ∧ passed <+: e.2.frames ∧
      item.1.offset = Header.size + passed.bytes.length ∧
      shelf.items = items (shelf.take item.1.segment) ++ passed.items item.1.segment Header.size ++
        item :: rest := by
  obtain ⟨k, image, hk, mem⟩ := Image.mem_itemsFrom mem
  rw [images, List.getElem?_map] at hk
  obtain ⟨e, there, rfl⟩ := Option.map_eq_some_iff.mp hk
  obtain ⟨front, frame, later, frames, pointer⟩ := Frames.split_of_mem_items mem
  obtain ⟨more, all⟩ := items_take_isPrefix shelf (k + 1)
  obtain ⟨p, record⟩ := item
  dsimp only at pointer
  subst pointer
  rw [Nat.zero_add] at *
  refine ⟨e, front, later.items k (Header.size + front.bytes.length + frame.length) ++ more, there,
    ?_, rfl, ?_⟩
  · rw [frames]
    exact List.prefix_append _ _
  · rw [← all, items_take_succ there, Image.items, frames, Frames.items_append, Frames.items]
    simp only [List.append_assoc, List.cons_append]

/-- The session is to give what is there from its start on, and has come through what is before. -/
structure Starts (s : Session) (place : Place) (v : Volume) (removed : ℕ) (shelf : Shelf)
    (start : Option Pointer) (skipped : List (Pointer × Record)) : Prop where
  due : skipped ++ due (List.range' removed (shelf.length - removed)) start shelf.items =
    shelf.items
  tracks : s.Tracks place v shelf shelf.items skipped
  safe : s.Safe removed

/-- Without a start a session is to give everything that is there. -/
theorem openRange_oldest (shelves : place.Shelves v removed shelf)
    (some_left : removed < shelf.length) (bufferSize : ℕ) :
    ∃ s skipped, openRange { place } v bufferSize none none = .ok s ∧
      s.Starts place v removed shelf none skipped := by
  obtain ⟨e, hk⟩ : ∃ e, shelf[removed]? = some e := ⟨_, List.getElem?_eq_getElem some_left⟩
  have first : (List.range' removed (shelf.length - removed)).head? = some removed := by
    rw [List.head?_range', if_neg (by omega)]
  obtain ⟨s, opened, tracks, safe⟩ := openRange_tracks none shelves (Nat.le_refl _) hk
    List.nil_prefix first rfl bufferSize
  rw [Frames.items, List.append_nil] at tracks
  have parts : shelf.items =
      items (shelf.take removed) ++ Image.itemsFrom removed (images (shelf.drop removed)) := by
    conv_lhs => rw [← List.take_append_drop removed shelf, items_append]
    rw [List.length_take_of_le (Nat.le_of_lt some_left)]
  refine ⟨s, _, opened, ⟨append_due parts ?_ ?_, tracks, safe⟩⟩
  · intro item hi
    have := (Image.segment_of_mem_itemsFrom hi).2
    left
    rw [images, List.length_map, List.length_take, Nat.zero_add] at this
    rw [List.mem_range'_1]
    omega
  · intro item hi
    have := Image.segment_of_mem_itemsFrom hi
    rw [images, List.length_map, List.length_drop] at this
    exact ⟨List.mem_range'_1.mpr this, by simp⟩

/-- From the start at a record on a session is to give that record and what is behind it. -/
theorem openRange_record (shelves : place.Shelves v removed shelf) {p : Pointer}
    {item : Pointer × Record} (mem : item ∈ shelf.items) (same : item.1.address = p.address)
    (there : removed ≤ p.segment) (bufferSize : ℕ) :
    ∃ s skipped, openRange { place } v bufferSize (some p) none = .ok s ∧
      s.Starts place v removed shelf (some p) skipped := by
  obtain ⟨e, passed, rest, hk, front, offset, parts⟩ := exists_split mem
  rw [show item.1.segment = p.segment from congrArg Address.segment same] at hk parts
  rw [show item.1.offset = p.offset from congrArg Address.offset same] at offset
  obtain ⟨s, opened, tracks, safe⟩ := openRange_tracks (some p) shelves there hk front rfl
    (by simp [offset]) bufferSize
  have ascending := shelves.ascending
  rw [parts, List.pairwise_append, List.pairwise_cons] at ascending
  obtain ⟨-, ⟨later, -⟩, earlier⟩ := ascending
  have late : ∀ other ∈ item :: rest, ¬other.1.address < p.address := by
    intro other ho
    rcases List.mem_cons.mp ho with rfl | ho
    · rw [same, Address.lt_iff]
      omega
    · have := later other ho
      rw [same] at this
      rw [Address.lt_iff] at *
      omega
  refine ⟨s, _, opened, ⟨append_due parts ?_ ?_, tracks, safe⟩⟩
  · intro other ho
    exact .inr ⟨p, rfl, same ▸ earlier other ho item List.mem_cons_self⟩
  · intro other ho
    have among : other ∈ shelf.items := by
      rw [parts]
      exact List.mem_append_right _ ho
    have := Image.segment_of_mem_itemsFrom among
    have after := late other ho
    refine ⟨?_, by simpa using after⟩
    rw [images, List.length_map, Nat.zero_add] at this
    rw [Address.lt_iff] at after
    dsimp only [Pointer.address] at after
    rw [List.mem_range'_1]
    omega

/-- A session does not open where its segment is gone. -/
theorem openRange_gone (shelves : place.Shelves v removed shelf) {p : Pointer}
    (gone : p.segment < removed) (bufferSize : ℕ) :
    openRange { place } v bufferSize (some p) none = .error (.segmentMissing p.segment) := by
  have listed : Directory.list { place } v = .ok (List.range' removed (shelf.length - removed)) :=
    shelves.list
  have absent : (List.range' removed (shelf.length - removed)).contains p.segment = false := by
    rw [← Bool.not_eq_true, List.contains_iff_mem, List.mem_range'_1]
    omega
  simp only [openRange, listed, bind, Except.bind, Option.map_some, Option.some_or, absent]
  rfl

/-- A session that opens is to give what is there from its start on. -/
theorem openRange_cases (shelves : place.Shelves v removed shelf)
    (some_left : removed < shelf.length)
    (real : ∀ p ∈ start, ∃ item ∈ shelf.items, item.1.address = p.address) (bufferSize : ℕ) :
    (∃ s skipped, openRange { place } v bufferSize start none = .ok s ∧
      s.Starts place v removed shelf start skipped) ∨
    ∃ e, openRange { place } v bufferSize start none = .error e := by
  cases start with
  | none => exact .inl (openRange_oldest shelves some_left bufferSize)
  | some p =>
      obtain ⟨item, mem, same⟩ := real p rfl
      by_cases there : removed ≤ p.segment
      · exact .inl (openRange_record shelves mem same there bufferSize)
      · exact .inr ⟨_, openRange_gone shelves (Nat.lt_of_not_le there) bufferSize⟩

end Session
end SegmentLog
