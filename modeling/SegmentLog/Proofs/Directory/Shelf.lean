import SegmentLog.Proofs.Directory.Kept
import SegmentLog.Proofs.Log.Write

/-!
# The segments of an undamaged log

A shelf has the image of every segment that a log has ever had, with the number of its contents. A
place `Shelves` it if its segments hold the images, but for those at the front that were removed. A
log only ever `Extends` its shelf: it writes behind the frames of the newest image and puts further
images behind that one. So whoever reads an older image may rely on it, and the records of a shelf
are only ever followed by others.
-/
namespace SegmentLog

/-- The image of every segment there has been, with the number of its contents. -/
abbrev Shelf := List (ContentId × Image)

namespace Shelf

def images (shelf : Shelf) : List Image := shelf.map (·.2)

/-- The records of all segments there have been. -/
def items (shelf : Shelf) : List (Pointer × Record) := Image.itemsFrom 0 shelf.images

theorem items_append (shelf later : Shelf) :
    (shelf ++ later).items = shelf.items ++ Image.itemsFrom shelf.length later.images := by
  rw [items, images, List.map_append, Image.itemsFrom_append, Nat.zero_add, List.length_map]
  rfl

theorem items_concat (shelf : Shelf) (e : ContentId × Image) :
    (shelf ++ [e]).items = shelf.items ++ e.2.items shelf.length := by
  rw [items_append, images, List.map_singleton, Image.itemsFrom, Image.itemsFrom, List.append_nil]

/-- The records up to a segment and those in it. -/
theorem items_take_succ {shelf : Shelf} {k : ℕ} {e : ContentId × Image} (h : shelf[k]? = some e) :
    items (shelf.take (k + 1)) = items (shelf.take k) ++ e.2.items k := by
  have lt := (List.getElem?_eq_some_iff.mp h).1
  rw [List.take_add_one, h, Option.toList_some, items_concat, List.length_take_of_le (by omega)]

theorem items_take_isPrefix (shelf : Shelf) (k : ℕ) : items (shelf.take k) <+: shelf.items := by
  conv_rhs => rw [← List.take_append_drop k shelf, items_append]
  exact List.prefix_append _ _

end Shelf

/-! ## What readers may rely on -/

/-- The image with further frames where it had zeros or nothing. -/
structure Image.Extends (i j : Image) : Prop where
  format : j.format = i.format
  frames : i.frames <+: j.frames
  length : i.bytes.length ≤ j.bytes.length

theorem Image.Extends.refl (i : Image) : i.Extends i := ⟨rfl, List.prefix_refl _, Nat.le_refl _⟩

theorem Image.Extends.trans {i j k : Image} (h : i.Extends j) (h' : j.Extends k) : i.Extends k :=
  ⟨h'.format.trans h.format, h.frames.trans h'.frames, h.length.trans h'.length⟩

theorem Image.extends_push (i : Image) (frame : Bytes) (record : Record) :
    i.Extends (i.push frame record) := by
  refine ⟨rfl, List.prefix_append _ _, ?_⟩
  rw [bytes_push]
  simp only [bytes_eq, withTail, List.length_append, List.length_drop]
  omega

namespace Shelf

/-- The shelf with further frames in its newest image and further images behind it. -/
structure Extends (shelf shelf' : Shelf) : Prop where
  length : shelf.length ≤ shelf'.length
  entry : ∀ k e, shelf[k]? = some e → ∃ image, shelf'[k]? = some (e.1, image) ∧ e.2.Extends image ∧
    (k + 1 < shelf.length → image = e.2)

variable {shelf shelf' : Shelf}

theorem Extends.refl (shelf : Shelf) : shelf.Extends shelf :=
  ⟨Nat.le_refl _, fun _ e hk => ⟨e.2, hk, .refl _, fun _ => rfl⟩⟩

theorem Extends.trans {shelf'' : Shelf} (h : shelf.Extends shelf') (h' : shelf'.Extends shelf'') :
    shelf.Extends shelf'' := by
  refine ⟨h.length.trans h'.length, ?_⟩
  intro k e hk
  obtain ⟨image, hk', extended, settled⟩ := h.entry k e hk
  obtain ⟨image', hk'', extended', settled'⟩ := h'.entry k _ hk'
  refine ⟨image', hk'', extended.trans extended', fun older => ?_⟩
  have length := h.length
  exact (settled' (by omega)).trans (settled older)

/-- Another segment is started. -/
theorem extends_concat (shelf : Shelf) (e : ContentId × Image) : shelf.Extends (shelf ++ [e]) := by
  refine ⟨by simp, ?_⟩
  intro k e' hk
  have lt := (List.getElem?_eq_some_iff.mp hk).1
  exact ⟨e'.2, by rwa [List.getElem?_append_left lt], .refl _, fun _ => rfl⟩

/-- Another frame is written. -/
theorem extends_push (older : Shelf) (id : ContentId) (image : Image) (frame : Bytes)
    (record : Record) :
    Extends (older ++ [(id, image)]) (older ++ [(id, image.push frame record)]) := by
  refine ⟨by simp, ?_⟩
  intro k e hk
  have lt := (List.getElem?_eq_some_iff.mp hk).1
  rw [List.length_append, List.length_singleton] at lt ⊢
  by_cases newest : k = older.length
  · subst newest
    rw [List.getElem?_concat_length] at hk
    cases hk
    exact ⟨_, List.getElem?_concat_length, image.extends_push .., fun older => by omega⟩
  · rw [List.getElem?_append_left (by omega)] at hk
    exact ⟨e.2, by rwa [List.getElem?_append_left (by omega)], .refl _, fun _ => rfl⟩

/-- An older image stays, and so do the records before it. -/
theorem Extends.take (h : shelf.Extends shelf') {k : ℕ} (lt : k < shelf.length) :
    shelf'.take k = shelf.take k := by
  have length := h.length
  apply List.ext_getElem?
  intro i
  rw [List.getElem?_take, List.getElem?_take]
  split
  · rename_i before
    obtain ⟨e, he⟩ : ∃ e, shelf[i]? = some e := ⟨_, List.getElem?_eq_getElem (by omega)⟩
    obtain ⟨image, hi, -, settled⟩ := h.entry i e he
    rw [hi, he, settled (by omega)]
  · rfl

end Shelf

/-! ## What is stored -/

/-- The segments of the place hold the images of the shelf, but for those that were removed. -/
structure Place.Shelves (place : Place) (v : Volume) (removed : ℕ) (shelf : Shelf) : Prop where
  stocks : place.Stocks v removed (shelf.map (·.1))
  distinct : (shelf.map (·.1)).Nodup
  known : ∀ e ∈ shelf, e.1 < v.contents.size
  stored : ∀ e ∈ shelf, v.bytes e.1 = e.2.bytes
  sound : ∀ e ∈ shelf, e.2.Sound ∧ e.2.Blank
  present : removed = 0 ∨ removed < shelf.length

theorem Volume.image_eq_numbered {v : Volume} {shelf : Shelf}
    (stored : ∀ e ∈ shelf, v.bytes e.1 = e.2.bytes) (first : ℕ) :
    v.image first (shelf.map (·.1)) = Image.numbered first (Shelf.images (shelf.drop first)) := by
  rw [Volume.image, Image.numbered_eq_mapIdx]
  refine List.ext_getElem (by simp [Shelf.images]) fun i _ _ => ?_
  simp [Shelf.images, stored]

/-- A place shows the images that it keeps. -/
theorem Place.Keeps.shows_shelf {place : Place} {v : Volume} {removed : ℕ} {shelf : Shelf}
    (h : place.Keeps v removed (shelf.map (·.1))) (stored : ∀ e ∈ shelf, v.bytes e.1 = e.2.bytes) :
    Directory.Shows { place } v (Image.numbered removed (Shelf.images (shelf.drop removed))) :=
  Volume.image_eq_numbered stored removed ▸ h.shows

/-- A reader starts with an empty buffer. -/
theorem Reader.store_of_openAt {v : Volume} {segment start bufferSize : ℕ} {store : Store}
    {r : Reader} (h : openAt v segment store start bufferSize = .ok r) :
    r.store = store ∧ r.buffered = [] := by
  unfold openAt at h
  obtain ⟨head, -, h⟩ := bind_eq_ok.mp h
  obtain ⟨format, -, h⟩ := bind_eq_ok.mp h
  dsimp only at h
  split at h
  · cases h
  · cases h
    exact ⟨rfl, rfl⟩

namespace Place
variable {place : Place} {v v' : Volume} {removed : ℕ} {shelf older : Shelf} {id : ContentId}
  {image : Image}

theorem Shelves.list (h : place.Shelves v removed shelf) :
    place.list v = .ok (List.range' removed (shelf.length - removed)) := by
  rw [h.stocks.list, List.length_map]

theorem Shelves.openSegment (h : place.Shelves v removed shelf) {k : ℕ} (there : removed ≤ k)
    (hk : shelf[k]? = some (id, image)) (readOnly : Bool) :
    ∃ s, place.openSegment v readOnly k = .ok s ∧ Opens s v readOnly id :=
  h.stocks.openSegment there (by rw [List.getElem?_map, hk]; rfl) readOnly

/-- A segment that is there opens where reading does not start past its end. -/
theorem Shelves.openReader (h : place.Shelves v removed shelf) {k : ℕ} (there : removed ≤ k)
    (hk : shelf[k]? = some (id, image)) {start : ℕ}
    (within : max start Header.size ≤ image.bytes.length) (bufferSize : ℕ) :
    ∃ r, Directory.openReader { place } v bufferSize k start = .ok r ∧ r.On v image.bytes ∧
      r.segment = k ∧ r.format = image.format ∧ r.position = max start Header.size ∧
      Opens r.store v true id ∧ r.buffered = [] := by
  obtain ⟨s, opened, opens⟩ := h.openSegment there hk true
  have stored : v.bytes id = image.bytes := h.stored _ (List.mem_of_getElem? hk)
  obtain ⟨r, started, on, segment, format, position⟩ := Reader.openAt_of_ok
    (stored ▸ opens.holds) image.header start within k bufferSize
  obtain ⟨store, buffered⟩ := Reader.store_of_openAt started
  refine ⟨r, ?_, on, segment, format, position, store ▸ opens, buffered⟩
  unfold Directory.openReader Directory.openRead
  rw [opened]
  exact started

theorem Shelves.keeps (h : place.Shelves v removed shelf) :
    place.Keeps v removed (shelf.map (·.1)) :=
  ⟨h.stocks, h.distinct, List.forall_mem_map.mpr h.known, by simpa using h.present⟩

/-- The images of the segments that are there are shown. -/
theorem Shelves.shows (h : place.Shelves v removed shelf) :
    Directory.Shows { place } v (Image.numbered removed (Shelf.images (shelf.drop removed))) :=
  h.keeps.shows_shelf h.stored

/-- From any segment on the records are found, and nothing else. -/
theorem Shelves.scanAll (h : place.Shelves v removed shelf) (first : ℕ) :
    Segment.scanAll (Image.numbered first (Shelf.images (shelf.drop first))) =
      (Image.itemsFrom first (Shelf.images (shelf.drop first)), .finish) := by
  have sound : ∀ i ∈ Shelf.images (shelf.drop first), i.Sound ∧ i.Blank :=
    List.forall_mem_map.mpr fun e mem => h.sound e (List.mem_of_mem_drop mem)
  have all := Image.scanAll_append sound first []
  rwa [List.append_nil, Segment.scanAll, List.append_nil] at all

/-- Reading everything gives the records of the segments that are there. -/
theorem Shelves.drain (h : place.Shelves v removed shelf) (bufferSize : ℕ) :
    Session.Delivers (Session.openRange { place } v bufferSize none none) v
      (Image.itemsFrom removed (Shelf.images (shelf.drop removed))) .finish := by
  have drained := h.shows.drain bufferSize
  rwa [h.scanAll] at drained

theorem Shelves.stores (h : place.Shelves v removed shelf) {k : ℕ} (there : removed ≤ k)
    (hk : shelf[k]? = some (id, image)) : Directory.Stores { place } v k image.bytes := by
  obtain ⟨s, opened, opens⟩ := h.openSegment there hk true
  exact ⟨s, opened, h.stored _ (List.mem_of_getElem? hk) ▸ opens.holds⟩

/-- Reading one record of a segment that is there. -/
theorem Shelves.readRecord (h : place.Shelves v removed shelf) {p : Pointer} {record : Record}
    (mem : (p, record) ∈ shelf.items) (there : removed ≤ p.segment) (bufferSize : ℕ) :
    Directory.readRecord { place } v bufferSize p = .ok record := by
  obtain ⟨k, i, hk, mem⟩ := Image.mem_itemsFrom mem
  rw [Nat.zero_add] at mem
  rw [Shelf.images, List.getElem?_map] at hk
  obtain ⟨⟨id, image⟩, found, rfl⟩ := Option.map_eq_some_iff.mp hk
  have sound := (h.sound _ (List.mem_of_getElem? found)).1
  obtain ⟨read, rfl, le⟩ := Image.read_item sound mem
  exact Directory.readRecord_of_read (h.stores there found) image.header le read bufferSize

/-- A place that keeps the contents, which hold the images. -/
theorem Keeps.shelves (keeps : place.Keeps v removed (shelf.map (·.1)))
    (stored : ∀ e ∈ shelf, v.bytes e.1 = e.2.bytes) (sound : ∀ e ∈ shelf, e.2.Sound ∧ e.2.Blank) :
    place.Shelves v removed shelf :=
  ⟨keeps.stocks, keeps.distinct, List.forall_mem_map.mp keeps.known, stored, sound,
    by simpa using keeps.present⟩

/-- The newest segment is rewritten. -/
theorem Shelves.write (h : place.Shelves v removed (older ++ [(id, image)])) {image' : Image}
    (sound : image'.Sound) (blank : image'.Blank) :
    place.Shelves (v.setBytes id image'.bytes) removed (older ++ [(id, image')]) := by
  have keeps := h.keeps
  rw [List.map_append] at keeps
  have known := keeps.known id (List.mem_append_right _ List.mem_cons_self)
  obtain ⟨stored, -⟩ := List.forall_mem_append.mp h.stored
  obtain ⟨others, -⟩ := List.forall_mem_append.mp h.sound
  refine Keeps.shelves (by rw [List.map_append]; exact keeps.setBytes ..)
    (List.forall_mem_append.mpr ⟨fun e he => ?_,
      List.forall_mem_singleton.mpr (Volume.bytes_setBytes known _)⟩)
    (List.forall_mem_append.mpr ⟨others, List.forall_mem_singleton.mpr ⟨sound, blank⟩⟩)
  rw [Volume.bytes_setBytes_of_ne (keeps.other (List.mem_map_of_mem he)), stored e he]

/-- The oldest segment is removed, unless it is the newest as well. -/
theorem Shelves.remove (h : place.Shelves v removed shelf) (lt : removed + 1 < shelf.length) :
    ∃ v', place.remove removed v = .ok () v' ∧ place.Shelves v' (removed + 1) shelf := by
  obtain ⟨v', done, stocks, contents⟩ := h.stocks.remove (by rw [List.length_map]; omega)
  refine ⟨v', done, stocks, h.distinct, contents ▸ h.known, ?_, h.sound, .inr lt⟩
  intro e he
  rw [Volume.bytes, contents]
  exact h.stored e he

end Place
end SegmentLog
