import SegmentLog.Proofs.Segment.Image

/-!
# Records stand in log order

The records of frames that follow each other, and those of images in sequence, have ascending
addresses. So a pointer to one of them splits them into those before it and the rest.
-/
namespace SegmentLog

namespace Frames
variable {f : Format} {segment offset : ℕ} {fs gs : Frames}

theorem items_prefix (h : fs <+: gs) : fs.items segment offset <+: gs.items segment offset := by
  obtain ⟨later, rfl⟩ := h
  rw [items_append]
  exact List.prefix_append _ _

/-- A record stands behind the frames before its own. -/
theorem split_of_mem_items {item : Pointer × Record} (h : item ∈ fs.items segment offset) :
    ∃ (front : Frames) (frame : Bytes) (later : Frames),
      fs = front ++ (frame, item.2) :: later ∧
        item.1 = ⟨segment, offset + front.bytes.length, frame.length⟩ := by
  induction fs generalizing offset with
  | nil => cases h
  | cons e fs ih =>
      obtain ⟨frame, record⟩ := e
      rcases List.mem_cons.mp h with rfl | h
      · exact ⟨[], frame, fs, rfl, rfl⟩
      · obtain ⟨front, frame', later, rfl, there⟩ := ih h
        refine ⟨(frame, record) :: front, frame', later, rfl, ?_⟩
        rw [there, bytes_cons, List.length_append, Nat.add_assoc]

theorem items_ascending (h : fs.Readable f) :
    (fs.items segment offset).Pairwise (·.1.address < ·.1.address) := by
  induction fs generalizing offset with
  | nil => exact .nil
  | cons e fs ih =>
      obtain ⟨frame, record⟩ := e
      obtain ⟨head, tail⟩ := List.forall_mem_cons.mp h
      have := Frame.leadSize_le_of_decode head
      unfold Frame.leadSize at this
      dsimp only at this
      refine List.pairwise_cons.mpr ⟨?_, ih tail⟩
      intro item mem
      obtain ⟨front, frame', later, -, there⟩ := split_of_mem_items mem
      rw [there]
      exact .inr ⟨rfl, by dsimp only [Pointer.address]; omega⟩

end Frames

namespace Image

theorem segment_of_mem_itemsFrom {first : ℕ} {is : List Image} {item : Pointer × Record}
    (h : item ∈ itemsFrom first is) :
    first ≤ item.1.segment ∧ item.1.segment < first + is.length := by
  obtain ⟨k, i, hk, mem⟩ := mem_itemsFrom h
  obtain ⟨front, frame, later, -, there⟩ := Frames.split_of_mem_items mem
  have := (List.getElem?_eq_some_iff.mp hk).1
  rw [there]
  dsimp only
  omega

theorem itemsFrom_ascending {is : List Image} (sound : ∀ i ∈ is, i.Sound) (first : ℕ) :
    (itemsFrom first is).Pairwise (·.1.address < ·.1.address) := by
  induction is generalizing first with
  | nil => exact .nil
  | cons i is ih =>
      obtain ⟨head, tail⟩ := List.forall_mem_cons.mp sound
      refine List.pairwise_append.mpr ⟨Frames.items_ascending head.readable, ih tail _, ?_⟩
      intro a ha b hb
      obtain ⟨front, frame, later, -, there⟩ := Frames.split_of_mem_items ha
      have := (segment_of_mem_itemsFrom hb).1
      rw [there]
      exact .inl (Nat.lt_of_succ_le this)

end Image
end SegmentLog
