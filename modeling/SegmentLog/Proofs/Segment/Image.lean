import SegmentLog.Proofs.Segment.Scan

/-!
# What a log writes

A segment that a log has written is an `Image`: frames after a header, then zeros, or the front of a
frame whose end was lost. The bytes of images in sequence hold the records of all their frames
(`Image.Kept.scanAll`), and each record is found where it was written (`Image.read_item`).
-/
namespace SegmentLog

structure Image where
  format : Format
  frames : Frames
  /-- What follows the frames. -/
  tail : Bytes

namespace Image

def bytes (i : Image) : Bytes := Header.encode i.format ++ (i.frames.bytes ++ i.tail)

/-- Where the frames end. -/
def stop (i : Image) : ℕ := Header.size + i.frames.bytes.length

def items (i : Image) (segment : ℕ) : List (Pointer × Record) := i.frames.items segment Header.size

/-- Every frame holds its record and can be pointed at. -/
structure Sound (i : Image) : Prop where
  readable : i.frames.Readable i.format
  fits : i.stop ≤ Pointer.maxOffset

/-- Only zeros follow the frames. -/
def Blank (i : Image) : Prop := ∃ n, i.tail = List.replicate n 0

/-- The front of a frame follows the frames. -/
def Torn (i : Image) : Prop := SegmentLog.Torn i.format i.tail

theorem header (i : Image) : Header.decode i.bytes = .ok i.format := by
  rw [← Header.decode_take, bytes, List.take_left' (Header.length_encode _)]
  exact Header.decode_encode _

theorem Blank.headD {i : Image} (h : i.Blank) : i.tail.headD 0 = 0 := by
  obtain ⟨n, hn⟩ := h
  rw [hn]
  cases n <;> rfl

theorem scan_blank {i : Image} (h : i.Sound) (blank : i.Blank) (segment : ℕ) :
    Segment.scan i.format segment i.bytes Header.size = (i.items segment, none) := by
  have length := Header.length_encode i.format
  have := Segment.scan_blank segment (Header.encode i.format) h.readable
    (by rw [length]; exact h.fits) blank.headD
  rwa [length] at this

theorem scan_torn {i : Image} (h : i.Sound) (torn : i.Torn) (segment : ℕ) :
    ∃ fault, Segment.scan i.format segment i.bytes Header.size =
      (i.items segment, some (i.stop, fault)) := by
  have length := Header.length_encode i.format
  have := Segment.scan_torn segment (Header.encode i.format) h.readable
    (by rw [length]; exact h.fits) torn
  rwa [length] at this

theorem read_of_mem {f : Format} {segment : ℕ} {front rest : Bytes} {fs : Frames}
    (h : fs.Readable f) (fits : front.length + fs.bytes.length ≤ Pointer.maxOffset) {p : Pointer}
    {record : Record} (mem : (p, record) ∈ fs.items segment front.length) :
    Segment.read f segment (front ++ (fs.bytes ++ rest)) p.offset = .record p record ∧
      p.segment = segment ∧ front.length ≤ p.offset := by
  induction fs generalizing front with
  | nil => cases mem
  | cons e fs ih =>
      obtain ⟨frame, r⟩ := e
      obtain ⟨head, tail⟩ := List.forall_mem_cons.mp h
      rw [Frames.bytes_cons, List.length_append] at fits
      dsimp only at fits
      rcases List.mem_cons.mp mem with e | mem
      · cases e
        rw [Frames.bytes_cons, List.append_assoc]
        have within : front.length + frame.length ≤ Pointer.maxOffset := by omega
        exact ⟨Segment.read_frame segment front head within, rfl, Nat.le_refl _⟩
      · rw [← List.length_append] at mem
        obtain ⟨read, same, le⟩ := ih tail (by rw [List.length_append]; omega) mem
        rw [List.length_append] at le
        rw [Frames.bytes_cons, List.append_assoc]
        rw [List.append_assoc] at read
        exact ⟨read, same, by omega⟩

theorem read_item {i : Image} (h : i.Sound) {segment : ℕ} {p : Pointer} {record : Record}
    (mem : (p, record) ∈ i.items segment) :
    Segment.read i.format segment i.bytes p.offset = .record p record ∧
      p.segment = segment ∧ Header.size ≤ p.offset := by
  have length := Header.length_encode i.format
  unfold items at mem
  rw [← length] at mem ⊢
  exact read_of_mem h.readable (by rw [length]; exact h.fits) mem

/-! ## Images in sequence -/

/-- The bytes of images, numbered as their segments are. -/
def numbered : (first : ℕ) → List Image → List (ℕ × Bytes)
  | _, [] => []
  | first, i :: is => (first, i.bytes) :: numbered (first + 1) is

/-- All records with pointers to them. -/
def itemsFrom : (first : ℕ) → List Image → List (Pointer × Record)
  | _, [] => []
  | first, i :: is => i.items first ++ itemsFrom (first + 1) is

theorem itemsFrom_append (first : ℕ) (is js : List Image) :
    itemsFrom first (is ++ js) = itemsFrom first is ++ itemsFrom (first + is.length) js := by
  induction is generalizing first with
  | nil => rfl
  | cons i is ih =>
      rw [List.cons_append, itemsFrom, ih, itemsFrom, List.append_assoc, List.length_cons,
        Nat.add_assoc, Nat.add_comm 1]

theorem numbered_eq_mapIdx (first : ℕ) (is : List Image) :
    numbered first is = is.mapIdx fun k i => (first + k, i.bytes) := by
  induction is generalizing first with
  | nil => rfl
  | cons i is ih => simp only [numbered, ih, List.mapIdx_cons, Nat.add_zero, Nat.add_comm,
      Nat.add_left_comm]

theorem numbered_keys (first : ℕ) (is : List Image) :
    (numbered first is).map (·.1) = List.range' first is.length := by
  induction is generalizing first with
  | nil => rfl
  | cons i is ih => rw [numbered, List.map_cons, ih, List.length_cons, List.range'_succ]

theorem length_numbered (first : ℕ) (is : List Image) : (numbered first is).length = is.length := by
  rw [← List.length_map (·.1), numbered_keys, List.length_range']

theorem mem_numbered {first : ℕ} {is : List Image} {e : ℕ × Bytes} (h : e ∈ numbered first is) :
    ∃ k i, is[k]? = some i ∧ e = (first + k, i.bytes) := by
  induction is generalizing first with
  | nil => cases h
  | cons i is ih =>
      rcases List.mem_cons.mp h with rfl | h
      · exact ⟨0, i, rfl, rfl⟩
      · obtain ⟨k, j, hj, rfl⟩ := ih h
        exact ⟨k + 1, j, hj, by rw [Nat.add_assoc, Nat.add_comm 1]⟩

theorem mem_itemsFrom {first : ℕ} {is : List Image} {e : Pointer × Record}
    (h : e ∈ itemsFrom first is) : ∃ k, ∃ i : Image, is[k]? = some i ∧ e ∈ i.items (first + k) := by
  induction is generalizing first with
  | nil => cases h
  | cons i is ih =>
      rcases List.mem_append.mp h with h | h
      · exact ⟨0, i, rfl, h⟩
      · obtain ⟨k, j, hj, he⟩ := ih h
        exact ⟨k + 1, j, hj, by rwa [Nat.add_assoc, Nat.add_comm 1] at he⟩

theorem numbered_append (first : ℕ) (is js : List Image) :
    numbered first (is ++ js) = numbered first is ++ numbered (first + is.length) js := by
  induction is generalizing first with
  | nil => rfl
  | cons i is ih =>
      rw [List.cons_append, numbered, ih, numbered, List.cons_append, List.length_cons,
        Nat.add_assoc, Nat.add_comm 1]

/-- Images that end in zeros are passed through on the way to what comes after them. -/
theorem scanAll_append {older : List Image} (h : ∀ i ∈ older, i.Sound ∧ i.Blank) (first : ℕ)
    (rest : List (ℕ × Bytes)) : Segment.scanAll (numbered first older ++ rest) =
      (itemsFrom first older ++ (Segment.scanAll rest).1, (Segment.scanAll rest).2) := by
  induction older generalizing first with
  | nil => rfl
  | cons i older ih =>
      obtain ⟨⟨sound, blank⟩, later⟩ := List.forall_mem_cons.mp h
      rw [numbered, List.cons_append, Segment.scanAll_of_header i.header, scan_blank sound blank,
        Segment.chain, ih later, itemsFrom, List.append_assoc]

theorem scanAll_concat {older : List Image} (h : ∀ i ∈ older, i.Sound ∧ i.Blank) (first : ℕ)
    (newest : Image) : Segment.scanAll (numbered first (older ++ [newest])) =
      (itemsFrom first older ++
          (Segment.scanAll [(first + older.length, newest.bytes)]).1,
        (Segment.scanAll [(first + older.length, newest.bytes)]).2) := by
  rw [numbered_append, scanAll_append h]
  rfl

/-- Images as a log leaves them: only the newest one may end in the front of a frame. -/
structure Kept (older : List Image) (newest : Image) : Prop where
  older : ∀ i ∈ older, i.Sound ∧ i.Blank
  sound : newest.Sound
  tail : newest.Blank ∨ newest.Torn

theorem Kept.scanAll {older : List Image} {newest : Image} (h : Kept older newest) (first : ℕ) :
    (Segment.scanAll (numbered first (older ++ [newest]))).1 =
        itemsFrom first (older ++ [newest]) ∧
      (newest.Blank → (Segment.scanAll (numbered first (older ++ [newest]))).2 = .finish) ∧
      (newest.Torn → (Segment.scanAll (numbered first (older ++ [newest]))).2 = .tornTail) := by
  have items : itemsFrom first (older ++ [newest]) =
      itemsFrom first older ++ newest.items (first + older.length) := by
    rw [itemsFrom_append, itemsFrom, itemsFrom, List.append_nil]
  have finish (blank : newest.Blank) :
      Segment.scanAll [(first + older.length, newest.bytes)] =
        (newest.items (first + older.length), .finish) := by
    rw [Segment.scanAll_of_header newest.header, scan_blank h.sound blank, Segment.chain,
      Segment.scanAll, List.append_nil]
  have stops (torn : newest.Torn) :
      Segment.scanAll [(first + older.length, newest.bytes)] =
        (newest.items (first + older.length), .tornTail) := by
    obtain ⟨fault, found⟩ := scan_torn h.sound torn (first + older.length)
    rw [Segment.scanAll_of_header newest.header, found]
    rfl
  rw [scanAll_concat h.older, items]
  refine ⟨?_, ?_, ?_⟩
  · rcases h.tail with blank | torn
    · rw [finish blank]
    · rw [stops torn]
  · intro blank
    rw [finish blank]
  · intro torn
    rw [stops torn]

end Image

end SegmentLog
