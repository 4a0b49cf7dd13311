import SegmentLog.Proofs.Frame.Damage
import SegmentLog.Proofs.Segment.Order
import SegmentLog.Proofs.Segment.Runs

/-!
# Segments that are cut off

A segment of frames may be cut off at any byte behind its header, be it in the first byte of a
frame, in its length, its payload or its checksum. What is left holds the records whose frames are
left, and its run stops where the cut goes through a frame: there the bytes do not end, for the
front of a frame is neither blank nor a frame (`cutOff_take`).
-/
namespace SegmentLog

/-- Each frame is what is written for its record. -/
def Frames.Written (f : Format) (fs : Frames) : Prop :=
  ∀ e ∈ fs, e.2.WellFormed ∧ Frame.encode f e.2 = .ok e.1

namespace Segment

/-- The frame of the record ends at the cut or before it. -/
def EndsBy (cut : ℕ) (item : Pointer × Record) : Prop := item.1.offset + item.1.length ≤ cut

instance (cut : ℕ) : DecidablePred (EndsBy cut) := fun _ => inferInstanceAs (Decidable (_ ≤ _))

/-- The cut goes through the frame of the record, which loses its end but not its start. -/
def GoesThrough (cut : ℕ) (item : Pointer × Record) : Prop :=
  item.1.offset < cut ∧ cut < item.1.offset + item.1.length

/-- What is left of the records of a segment that was cut off, and where its frames stop. -/
structure CutOff (f : Format) (segment : ℕ) (bs : Bytes) (position cut : ℕ)
    (items : List (Pointer × Record)) (stop : ℕ) : Prop where
  run : Run f segment bs position (items.filter (EndsBy cut)) stop
  clean : (∀ item ∈ items, ¬GoesThrough cut item) → EndsAt bs stop
  torn : ∀ item ∈ items, GoesThrough cut item → stop = item.1.offset ∧ ¬EndsAt bs stop

variable {f : Format} {segment position cut : ℕ} {front bs frame : Bytes} {record : Record}
  {fs : Frames} {items : List (Pointer × Record)}

theorem Run.stop_of_ends (ends : EndsAt bs position) : Run f segment bs position [] position := by
  apply Run.stop
  intro frame record here
  have found := read_of_frameAt segment here
  rw [read_eq_finish.mpr ends] at found
  cases found

theorem Run.stop_of_damaged {fault : RecordFault}
    (why : read f segment bs position = .damaged fault) :
    Run f segment bs position [] position := by
  apply Run.stop
  intro frame record here
  rw [read_of_frameAt segment here] at why
  cases why

theorem not_endsAt_of_damaged {fault : RecordFault}
    (why : read f segment bs position = .damaged fault) : ¬EndsAt bs position := by
  intro ends
  rw [read_eq_finish.mpr ends] at why
  cases why

theorem le_offset_of_mem_items {start : ℕ} {item : Pointer × Record}
    (h : item ∈ fs.items segment start) : start ≤ item.1.offset := by
  obtain ⟨before, frame, later, -, there⟩ := Frames.split_of_mem_items h
  rw [there]
  exact Nat.le_add_right ..

/-- Nothing is left of frames that start behind the cut. -/
theorem filter_endsBy_eq_nil {start : ℕ} (behind : cut < start) :
    (fs.items segment start).filter (EndsBy cut) = [] := by
  apply List.filter_eq_nil_iff.mpr
  intro item mem
  have := le_offset_of_mem_items mem
  rw [decide_eq_true_eq, EndsBy]
  omega

/-- A cut in front of the end of the first frame goes through no other. -/
theorem first_of_goesThrough {start len : ℕ} (short : len < frame.length)
    {item : Pointer × Record} (mem : item ∈ Frames.items segment start ((frame, record) :: fs))
    (through : GoesThrough (start + len) item) :
    item = (⟨segment, start, frame.length⟩, record) ∧ 0 < len := by
  rcases List.mem_cons.mp mem with rfl | later
  · exact ⟨rfl, Nat.lt_add_right_iff_pos.mp through.1⟩
  · have := le_offset_of_mem_items later
    have := through.1
    omega

/-- The cut leaves at most the front of the first frame. -/
theorem cutOff_first (fs : Frames) {len : ℕ} (decoded : Frame.decode f frame = .ok record)
    (short : len < frame.length) : CutOff f segment (front ++ frame.take len) front.length
      (front.length + len) (Frames.items segment front.length ((frame, record) :: fs))
      front.length := by
  have left : (Frames.items segment front.length ((frame, record) :: fs)).filter
      (EndsBy (front.length + len)) = [] := by
    have first : ¬EndsBy (front.length + len) (⟨segment, front.length, frame.length⟩, record) := by
      rw [EndsBy]
      dsimp only
      omega
    rw [Frames.items, List.filter_cons, if_neg (by rwa [decide_eq_true_eq])]
    exact filter_endsBy_eq_nil (by omega)
  rcases Nat.eq_zero_or_pos len with rfl | some_bytes
  · -- nothing is left of it
    rw [List.take_zero, List.append_nil]
    have ends : EndsAt front front.length := .inl (Nat.le_refl _)
    refine ⟨by rw [left]; exact .stop_of_ends ends, fun _ => ends, fun item mem through => ?_⟩
    exact absurd (first_of_goesThrough short mem through).2 (Nat.lt_irrefl _)
  · obtain ⟨fault, damaged⟩ := read_torn segment front (torn_take decoded some_bytes short)
    refine ⟨by rw [left]; exact .stop_of_damaged damaged, fun whole => ?_,
      fun item mem through => ?_⟩
    · exact absurd ⟨Nat.lt_add_of_pos_right some_bytes, Nat.add_lt_add_left short _⟩
        (whole _ List.mem_cons_self)
    · obtain ⟨rfl, -⟩ := first_of_goesThrough short mem through
      exact ⟨rfl, not_endsAt_of_damaged damaged⟩

/-- A frame in front of the cut is left, and so is what is left of the frames behind it. -/
theorem CutOff.cons {stop : ℕ} (here : FrameAt f bs position frame record)
    (whole : position + frame.length ≤ cut)
    (h : CutOff f segment bs (position + frame.length) cut items stop) :
    CutOff f segment bs position cut ((⟨segment, position, frame.length⟩, record) :: items)
      stop := by
  constructor
  · have first : EndsBy cut (⟨segment, position, frame.length⟩, record) := whole
    rw [List.filter_cons, if_pos (decide_eq_true first)]
    exact .frame here h.run
  · intro clean
    exact h.clean fun item mem => clean item (List.mem_cons_of_mem _ mem)
  · intro item mem through
    rcases List.mem_cons.mp mem with rfl | mem
    · exact absurd through.2 (Nat.not_lt.mpr whole)
    · exact h.torn item mem through

theorem cutOff_frames (written : fs.Written f)
    (fits : front.length + fs.bytes.length ≤ Pointer.maxOffset) {len : ℕ}
    (within : len ≤ fs.bytes.length) :
    ∃ stop, CutOff f segment (front ++ fs.bytes.take len) front.length (front.length + len)
      (fs.items segment front.length) stop := by
  induction fs generalizing front len with
  | nil =>
      obtain rfl : len = 0 := Nat.eq_zero_of_le_zero within
      have ends : EndsAt (front ++ []) front.length := .inl (by simp)
      exact ⟨front.length, .stop_of_ends ends, fun _ => ends, nofun⟩
  | cons e fs ih =>
      obtain ⟨frame, record⟩ := e
      obtain ⟨⟨wf, encoded⟩, written⟩ := List.forall_mem_cons.mp written
      dsimp only at wf encoded
      rw [Frames.bytes_cons, List.length_append] at fits within
      dsimp only at fits within
      rw [Frames.bytes_cons]
      by_cases whole : frame.length ≤ len
      · rw [List.take_append, List.take_of_length_le whole, ← List.append_assoc]
        have rest : ∃ stop, CutOff f segment
            (front ++ frame ++ (Frames.bytes fs).take (len - frame.length)) (front ++ frame).length
            ((front ++ frame).length + (len - frame.length))
            (Frames.items segment (front ++ frame).length fs) stop :=
          ih written (by rw [List.length_append]; omega) (Nat.sub_le_of_le_add (by omega))
        obtain ⟨stop, later⟩ := rest
        have length : front.length + frame.length + (len - frame.length) = front.length + len := by
          omega
        rw [List.length_append, length] at later
        have there : frame <+: ((front ++ frame) ++
            (Frames.bytes fs).take (len - frame.length)).drop front.length := by
          rw [List.append_assoc, List.drop_left]
          exact List.prefix_append ..
        exact ⟨stop, later.cons ⟨wf, encoded, there, by omega⟩ (by omega)⟩
      · rw [List.take_append_of_le_length (Nat.le_of_not_le whole)]
        exact ⟨_, cutOff_first fs (Frame.decode_encode wf encoded) (Nat.lt_of_not_le whole)⟩

/-- What is left of a segment that is cut off behind its header. -/
theorem cutOff_take (written : fs.Written f)
    (fits : Header.size + fs.bytes.length ≤ Pointer.maxOffset) (header : Header.size ≤ cut)
    (within : cut ≤ Header.size + fs.bytes.length) (segment : ℕ) :
    Header.encode f <+: (Header.encode f ++ fs.bytes).take cut ∧
      ∃ stop, CutOff f segment ((Header.encode f ++ fs.bytes).take cut) Header.size cut
        (fs.items segment Header.size) stop := by
  have length := Header.length_encode f
  rw [List.take_append, length, List.take_of_length_le (by rw [length]; exact header)]
  refine ⟨List.prefix_append .., ?_⟩
  have short : cut - Header.size ≤ fs.bytes.length := by omega
  have cutOff : ∃ stop, CutOff f segment _ _ _ _ stop :=
    cutOff_frames written (by rw [length]; exact fits) short
  rwa [length, Nat.add_sub_cancel' header] at cutOff

/-- Nothing can be read of a segment that is cut off in its header. -/
theorem decode_take_header (within : cut < Header.size) (bs : Bytes) (segment : ℕ) :
    ∃ fault, Header.decode (bs.take cut) = .error fault ∧
      (Error.header segment fault).isHeaderDamage := by
  have short : ((bs.take cut).take Header.size).length < Header.size := by
    simp only [List.length_take]
    omega
  simp only [Header.decode]
  rw [if_pos short]
  exact ⟨_, rfl, rfl⟩

end Segment
end SegmentLog
