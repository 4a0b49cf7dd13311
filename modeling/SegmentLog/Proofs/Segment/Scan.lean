import SegmentLog.Proofs.Frame.RoundTrip
import SegmentLog.Session

/-!
# Segments as byte strings

What a segment holds is a matter of its bytes alone, without readers and their buffers: `read` says
what is at a position, `scan` what is from a position on, and `scanAll` what several segments hold
one after the other. Frames that were written in sequence are found in sequence (`scan_frames`). The
segment ends where they are followed by a zero or by nothing (`scan_blank`), and it is damaged where
they are followed by the front of a frame (`scan_torn`).
-/
namespace SegmentLog

/-- Frames as they follow each other, and the records in them. -/
abbrev Frames := List (Bytes × Record)

namespace Frames

def bytes (fs : Frames) : Bytes := fs.flatMap (·.1)

/-- Every frame is read as the record that it is said to hold. -/
def Readable (f : Format) (fs : Frames) : Prop := ∀ e ∈ fs, Frame.decode f e.1 = .ok e.2

/-- The records with pointers to them, if the first frame starts at `offset`. -/
def items (segment : ℕ) : (offset : ℕ) → Frames → List (Pointer × Record)
  | _, [] => []
  | offset, (frame, record) :: fs =>
    (⟨segment, offset, frame.length⟩, record) :: items segment (offset + frame.length) fs

@[simp] theorem bytes_nil : bytes [] = [] := rfl

@[simp] theorem bytes_cons (e : Bytes × Record) (fs : Frames) : bytes (e :: fs) = e.1 ++ bytes fs :=
  List.flatMap_cons

@[simp] theorem bytes_append (fs gs : Frames) : bytes (fs ++ gs) = bytes fs ++ bytes gs :=
  List.flatMap_append

theorem items_append (segment offset : ℕ) (fs gs : Frames) :
    items segment offset (fs ++ gs) =
      items segment offset fs ++ items segment (offset + fs.bytes.length) gs := by
  induction fs generalizing offset with
  | nil => rfl
  | cons e fs ih =>
      simp only [List.cons_append, items, ih, bytes_cons, List.length_append, Nat.add_assoc]

end Frames

/-- The bytes are the front of a frame whose end is missing. -/
def Torn (f : Format) (bs : Bytes) : Prop :=
  bs ≠ [] ∧ ∃ rest record, rest ≠ [] ∧ Frame.decode f (bs ++ rest) = .ok record

theorem torn_take {f : Format} {frame : Bytes} {record : Record} {len : ℕ}
    (h : Frame.decode f frame = .ok record) (some_bytes : 0 < len) (short : len < frame.length) :
    Torn f (frame.take len) := by
  refine ⟨?_, frame.drop len, record, ?_, by rwa [List.take_append_drop]⟩
  · apply List.ne_nil_of_length_pos
    rw [List.length_take]
    omega
  · apply List.ne_nil_of_length_pos
    rw [List.length_drop]
    omega

namespace Segment

/-- What the bytes of a segment hold at a position. -/
def read (f : Format) (segment : ℕ) (bs : Bytes) (position : ℕ) : Outcome :=
  if (bs.drop position).headD 0 = 0 then .finish
  else if bs.length < position + Frame.leadSize then .damaged .truncatedPrefix
  else
    let n := Frame.size f (Frame.declared (bs.drop position))
    if bs.length < position + n then .damaged (.pastSegmentEnd n bs.length)
    else if Pointer.maxOffset < position + n then .damaged .beyondAddressing
    else
      match Frame.decode f (bs.slice position n) with
      | .error fault => .damaged fault
      | .ok record => .record ⟨segment, position, n⟩ record

theorem read_eq_record {f : Format} {segment position : ℕ} {bs : Bytes} {p : Pointer}
    {record : Record} (h : read f segment bs position = .record p record) :
    p.segment = segment ∧ p.offset = position ∧ 0 < p.length ∧
      position + p.length ≤ bs.length ∧ Frame.decode f (bs.slice position p.length) = .ok record := by
  unfold read at h
  split at h
  · cases h
  split at h
  · cases h
  dsimp only at h
  split at h
  · cases h
  split at h
  · cases h
  split at h
  · cases h
  rename_i found
  cases h
  have := Frame.leadSize_le_size f (Frame.declared (bs.drop position))
  unfold Frame.leadSize at this
  exact ⟨rfl, rfl, by dsimp only; omega, by dsimp only; omega, found⟩

/-- The records from a position on, and where and why they do not end well if they do not. -/
def scan (f : Format) (segment : ℕ) (bs : Bytes) (position : ℕ) :
    List (Pointer × Record) × Option (ℕ × RecordFault) :=
  match _h : read f segment bs position with
  | .finish => ([], none)
  | .damaged fault => ([], some (position, fault))
  | .record p record =>
    let later := scan f segment bs (position + p.length)
    ((p, record) :: later.1, later.2)
termination_by bs.length - position
decreasing_by
  have := read_eq_record _h
  omega

theorem scan_of_finish {f : Format} {segment position : ℕ} {bs : Bytes}
    (h : read f segment bs position = .finish) : scan f segment bs position = ([], none) := by
  rw [scan]
  split <;> simp_all

theorem scan_of_damaged {f : Format} {segment position : ℕ} {bs : Bytes} {fault : RecordFault}
    (h : read f segment bs position = .damaged fault) :
    scan f segment bs position = ([], some (position, fault)) := by
  rw [scan]
  split <;> simp_all

theorem scan_of_record {f : Format} {segment position : ℕ} {bs : Bytes} {p : Pointer}
    {record : Record} (h : read f segment bs position = .record p record) :
    scan f segment bs position = ((p, record) :: (scan f segment bs (position + p.length)).1,
      (scan f segment bs (position + p.length)).2) := by
  rw [scan]
  split <;> simp_all

/-! ## Frames in sequence -/

variable {f : Format} (segment : ℕ) (front : Bytes)

/-- What is found where a whole frame stands is a matter of the frame alone. -/
theorem read_whole {frame rest : Bytes} (whole : Frame.Whole f frame)
    (fits : front.length + frame.length ≤ Pointer.maxOffset) :
    read f segment (front ++ (frame ++ rest)) front.length =
      match Frame.decode f frame with
      | .error fault => .damaged fault
      | .ok record => .record ⟨segment, front.length, frame.length⟩ record := by
  obtain ⟨starts, lead, length⟩ := whole
  have first : (frame ++ rest).headD 0 ≠ 0 := by
    cases frame with
    | nil => exact absurd rfl starts
    | cons b frame => exact starts
  have size : Frame.size f (Frame.declared (frame ++ rest)) = frame.length := by
    rw [Frame.declared_append lead, ← length]
  unfold read
  rw [List.drop_left, if_neg first]
  simp only [size, List.length_append]
  rw [if_neg (by omega), if_neg (by omega), if_neg (by omega), Bytes.slice_append _ rfl rfl]

theorem read_frame {frame rest : Bytes} {record : Record} (h : Frame.decode f frame = .ok record)
    (fits : front.length + frame.length ≤ Pointer.maxOffset) :
    read f segment (front ++ (frame ++ rest)) front.length =
      .record ⟨segment, front.length, frame.length⟩ record := by
  rw [read_whole segment front (Frame.whole_of_decode h) fits, h]

theorem read_blank {rest : Bytes} (h : rest.headD 0 = 0) :
    read f segment (front ++ rest) front.length = .finish := by
  unfold read
  rw [List.drop_left, if_pos h]

theorem read_torn {rest : Bytes} (h : Torn f rest) :
    ∃ fault, read f segment (front ++ rest) front.length = .damaged fault := by
  obtain ⟨some_bytes, missing, record, more, h⟩ := h
  obtain ⟨⟨later, start⟩, -, length⟩ := Frame.decode_eq_ok h
  have first : rest.headD 0 ≠ 0 := by
    cases rest with
    | nil => exact absurd rfl some_bytes
    | cons b rest =>
        cases start
        exact RecordKind.toByte_ne_zero _
  have := List.length_pos_of_ne_nil more
  unfold read
  rw [List.drop_left, if_neg first]
  split
  · exact ⟨_, rfl⟩
  · rename_i lead
    rw [List.length_append] at lead
    rw [List.length_append, Frame.declared_append (by omega)] at length
    dsimp only
    rw [if_pos (by rw [List.length_append]; omega)]
    exact ⟨_, rfl⟩

theorem scan_frames {fs : Frames} {rest : Bytes} (h : fs.Readable f)
    (fits : front.length + fs.bytes.length ≤ Pointer.maxOffset) :
    scan f segment (front ++ (fs.bytes ++ rest)) front.length =
      (fs.items segment front.length ++
        (scan f segment ((front ++ fs.bytes) ++ rest) (front ++ fs.bytes).length).1,
        (scan f segment ((front ++ fs.bytes) ++ rest) (front ++ fs.bytes).length).2) := by
  induction fs generalizing front with
  | nil => simp [Frames.items]
  | cons e fs ih =>
      obtain ⟨frame, record⟩ := e
      obtain ⟨head, tail⟩ := List.forall_mem_cons.mp h
      rw [Frames.bytes_cons, List.length_append] at fits
      dsimp only at fits
      have found (rest : Bytes) : read f segment (front ++ (frame ++ rest)) front.length = _ :=
        read_frame segment front head (by omega)
      have later := ih (front ++ frame) tail (by rw [List.length_append]; omega)
      rw [Frames.bytes_cons, List.append_assoc, scan_of_record (found _)]
      simp only [List.append_assoc, List.length_append, Frames.items] at later ⊢
      rw [later]
      rfl

theorem scan_blank {fs : Frames} {rest : Bytes} (h : fs.Readable f)
    (fits : front.length + fs.bytes.length ≤ Pointer.maxOffset) (blank : rest.headD 0 = 0) :
    scan f segment (front ++ (fs.bytes ++ rest)) front.length =
      (fs.items segment front.length, none) := by
  rw [scan_frames segment front h fits, scan_of_finish (read_blank _ _ blank), List.append_nil]

theorem scan_damaged {fs : Frames} {rest : Bytes} {fault : RecordFault} (h : fs.Readable f)
    (fits : front.length + fs.bytes.length ≤ Pointer.maxOffset)
    (why : read f segment ((front ++ fs.bytes) ++ rest) (front ++ fs.bytes).length =
      .damaged fault) :
    scan f segment (front ++ (fs.bytes ++ rest)) front.length =
      (fs.items segment front.length, some (front.length + fs.bytes.length, fault)) := by
  rw [scan_frames segment front h fits, scan_of_damaged why, List.append_nil, List.length_append]

theorem scan_torn {fs : Frames} {rest : Bytes} (h : fs.Readable f)
    (fits : front.length + fs.bytes.length ≤ Pointer.maxOffset) (torn : Torn f rest) :
    ∃ fault, scan f segment (front ++ (fs.bytes ++ rest)) front.length =
      (fs.items segment front.length, some (front.length + fs.bytes.length, fault)) := by
  obtain ⟨fault, found⟩ := read_torn segment (front ++ fs.bytes) torn
  exact ⟨fault, scan_damaged segment front h fits found⟩

/-! ## Segments in sequence -/

/-- What follows a segment, or the damage in it, decides how the segments end. -/
def chain (segment : ℕ) (found : List (Pointer × Record) × Option (ℕ × RecordFault))
    (ahead : List (ℕ × Bytes)) (later : List (Pointer × Record) × Ending) :
    List (Pointer × Record) × Ending :=
  match found.2 with
  | none => (found.1 ++ later.1, later.2)
  | some (position, fault) =>
    (found.1, if ahead.isEmpty then .tornTail else .failed (.record segment position fault))

/-- What the segments of these bytes hold, each from its start. -/
def scanAll : List (ℕ × Bytes) → List (Pointer × Record) × Ending
  | [] => ([], .finish)
  | (segment, bs) :: ahead =>
    match Header.decode bs with
    | .error fault => ([], .failed (.header segment fault))
    | .ok f => chain segment (scan f segment bs Header.size) ahead (scanAll ahead)

theorem scanAll_of_header {f : Format} {segment : ℕ} {bs : Bytes} (h : Header.decode bs = .ok f)
    (ahead : List (ℕ × Bytes)) : scanAll ((segment, bs) :: ahead) =
      chain segment (scan f segment bs Header.size) ahead (scanAll ahead) := by
  rw [scanAll, h]

/-- What is from a position of the first segment on. -/
def scanFrom (f : Format) (segment : ℕ) (bs : Bytes) (position : ℕ) (ahead : List (ℕ × Bytes)) :
    List (Pointer × Record) × Ending :=
  chain segment (scan f segment bs position) ahead (scanAll ahead)

end Segment
end SegmentLog
