import SegmentLog.Proofs.Segment.Image
import SegmentLog.Proofs.Session.Shown
import SegmentLog.Proofs.Store.Fused

/-!
# Volumes that a log has to itself

A volume `Holds` images if their bytes are its segments and all it stores. Reading such a volume
gives the records of the frames, all of them (`Holds.drain`) or each through the pointer to it
(`Holds.readRecord`), and writing to it changes one image or adds one.
-/
namespace SegmentLog

/-- Reading everything in a directory that shows images without a gap. -/
theorem Directory.Shows.drain {d : Directory} {v : Volume} {first : ℕ} {images : List Image}
    (h : d.Shows v (Image.numbered first images)) (bufferSize : ℕ) :
    Session.Delivers (Session.openRange d v bufferSize none none) v
      (Segment.scanAll (Image.numbered first images)).1
      (Segment.scanAll (Image.numbered first images)).2 := by
  cases images with
  | nil => exact Session.openRange_of_replayed h (.empty rfl rfl) bufferSize
  | cons i is =>
      have shows : d.Shows v ([] ++ Image.numbered first (i :: is)) := h
      have follow : (Image.numbered first (i :: is)).map (·.1) =
          List.range' first (Image.numbered first (i :: is)).length := by
        rw [Image.numbered_keys, Image.length_numbered]
      have header : ∀ e ∈ (Image.numbered first (i :: is)).head?,
          ∃ f, Header.encode f <+: e.2 := by
        rintro _ ⟨⟩
        exact ⟨i.format, Header.decode_eq_ok_iff.mp i.header⟩
      have starts : (none : Option Pointer).elim ([] = ([] : List (ℕ × Bytes)))
          (·.segment = first) := rfl
      exact Session.openRange_scanAll (List.cons_ne_nil _ _) shows starts (Nat.zero_le _) follow
        header bufferSize

namespace Volume

/-- The images are the segments, and all that is stored. -/
structure Holds (v : Volume) (images : List Image) : Prop where
  segments : v.segments = (List.range images.length).map fun i => (i, i)
  contents : v.contents = (images.map Image.bytes).toArray

/-- There are as many segments as indexes. -/
def Full (v : Volume) : Prop := UInt64.size ≤ v.segments.length

theorem Holds.full_iff {v : Volume} {images : List Image} (h : v.Holds images) :
    v.Full ↔ UInt64.size ≤ images.length := by
  rw [Full, h.segments, List.length_map, List.length_range]

theorem get?_numbers (n k : ℕ) :
    Table.get? ((List.range n).map fun i => (i, i)) k = if k < n then some k else none := by
  induction n with
  | zero => rfl
  | succ n ih =>
      unfold Table.get? at ih ⊢
      rw [List.range_succ, List.map_append, List.find?_append, Option.map_or, ih]
      by_cases h : k < n
      · rw [if_pos h, if_pos (by omega)]
        rfl
      · by_cases e : n = k
        · subst e
          simp
        · rw [if_neg h, if_neg (by omega)]
          simp [e]

variable {v : Volume} {images : List Image}

theorem Holds.keys (h : v.Holds images) : v.segments.keys = List.range images.length := by
  rw [h.segments, Table.keys, List.map_map]
  exact List.map_id _

theorem Holds.bytes (h : v.Holds images) {k : ℕ} {i : Image} (hk : images[k]? = some i) :
    v.bytes k = i.bytes := by
  simp [Volume.bytes, h.contents, Array.getD_eq_getD_getElem?, hk]

theorem Holds.segment? (h : v.Holds images) {k : ℕ} {i : Image} (hk : images[k]? = some i) :
    v.segment? k = some i.bytes := by
  have := (List.getElem?_eq_some_iff.mp hk).1
  rw [Volume.segment?, h.segments, get?_numbers, if_pos this, Option.map_some, h.bytes hk]

theorem Holds.numbered (h : v.Holds images) :
    ∀ e ∈ Image.numbered 0 images, v.segment? e.1 = some e.2 := by
  intro e he
  obtain ⟨k, i, hk, rfl⟩ := Image.mem_numbered he
  rw [Nat.zero_add]
  exact h.segment? hk

theorem insert_numbers (n : ℕ) :
    Table.insert n n ((List.range n).map fun i => (i, i)) =
      (List.range (n + 1)).map fun i => (i, i) := by
  have go (k n : ℕ) : Table.insert (k + n) (k + n) ((List.range' k n).map fun i => (i, i)) =
      (List.range' k (n + 1)).map fun i => (i, i) := by
    induction n generalizing k with
    | zero => rfl
    | succ n ih =>
        have later := ih (k + 1)
        rw [Nat.add_right_comm, Nat.add_assoc] at later
        rw [List.range'_succ, List.map_cons, Table.insert, if_neg (by simp), if_neg (by simp), later]
        rfl
  have := go 0 n
  rwa [Nat.zero_add, ← List.range_eq_range', ← List.range_eq_range'] at this

theorem Holds.alike {v' : Volume} (h : v.Holds images) (alike : v.Alike v') : v'.Holds images :=
  ⟨alike.segments.trans h.segments, alike.contents.trans h.contents⟩

/-- Rewriting the newest segment. -/
theorem Holds.setBytes {older : List Image} {image : Image} (h : v.Holds (older ++ [image]))
    (image' : Image) : (v.setBytes older.length image'.bytes).Holds (older ++ [image']) := by
  refine ⟨by simpa [Volume.setBytes] using h.segments, ?_⟩
  simp [Volume.setBytes, h.contents]

/-- Storing the next segment. -/
theorem Holds.push (h : v.Holds images) (image : Image) :
    Holds { v with
      contents := v.contents.push image.bytes
      segments := v.segments.insert images.length images.length } (images ++ [image]) := by
  constructor
  · simp only [h.segments, insert_numbers, List.length_append, List.length_singleton]
  · simp [h.contents]

theorem Holds.shows (h : v.Holds images) {d : Directory} (place : d.place = .memory) :
    d.Shows v (Image.numbered 0 images) := by
  have sorted : v.segments.Sorted := by
    rw [Table.Sorted, h.segments, List.pairwise_map]
    exact List.pairwise_lt_range
  rw [eq_of_stored h.numbered, Image.numbered_keys, ← List.range_eq_range', ← h.keys]
  exact Directory.shows_memory place sorted

/-- Reading everything. -/
theorem Holds.drain (h : v.Holds images) {d : Directory} (place : d.place = .memory)
    (bufferSize : ℕ) :
    ∃ s, Session.openRange d v bufferSize none none = .ok s ∧
      (s.drain v).items = (Segment.scanAll (Image.numbered 0 images)).1 ∧
      (s.drain v).ending = some (Segment.scanAll (Image.numbered 0 images)).2 :=
  (h.shows place).drain bufferSize

/-- Reading one record. -/
theorem Holds.readRecord (h : v.Holds images) {d : Directory} (place : d.place = .memory)
    (sound : ∀ i ∈ images, i.Sound) {p : Pointer} {record : Record}
    (mem : (p, record) ∈ Image.itemsFrom 0 images) (bufferSize : ℕ) :
    d.readRecord v bufferSize p = .ok record := by
  obtain ⟨k, i, hk, mem⟩ := Image.mem_itemsFrom mem
  rw [Nat.zero_add] at mem
  obtain ⟨read, rfl, le⟩ := Image.read_item (sound i (List.mem_of_getElem? hk)) mem
  exact Directory.readRecord_of_read (Directory.stores_memory place (h.segment? hk)) i.header le
    read bufferSize

end Volume
end SegmentLog
