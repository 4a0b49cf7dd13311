import Mathlib.Data.Nat.Notation
import SegmentLog.Proofs.Success
import SegmentLog.Store.Handle

/-!
# Handles that may be written

A write through a handle that may be written lands at its offset, and one at the end lands where
the handle takes the end to be, whether or not that is so: `writeAt_of_writable`,
`append_of_writable`.

A handle on a file remembers a size, and every operation changes it in a way of its own. A handle
whose size is that of the bytes has the size of the bytes after each of them: `Follows`. What such a
handle does to the bytes does not depend on whether they are in memory or on a file.
-/
namespace SegmentLog.Handle
variable {h : Handle} {bs : Bytes}

theorem checkWritable_of_writable (writable : h.isReadOnly = false) :
    h.checkWritable = .ok () := by
  rw [checkWritable, writable]
  rfl

theorem writeAt_of_writable (writable : h.isReadOnly = false) (bs : Bytes) (offset : ℕ)
    {data : Bytes} (some_data : data ≠ []) :
    ∃ h', h.writeAt bs offset data = .ok (h', bs.overwrite offset data) ∧
      h'.isReadOnly = false ∧
      (h.size bs = bs.length →
        h'.size (bs.overwrite offset data) = (bs.overwrite offset data).length) := by
  have allowed := checkWritable_of_writable writable
  have some_bytes : data.isEmpty = false := by simpa using some_data
  cases h with
  | memory readOnly =>
      refine ⟨.memory readOnly, ?_, writable, fun _ => rfl⟩
      simp only [writeAt, allowed, bind, Except.bind, Bytes.put_eq_overwrite]
      rfl
  | file path size readOnly =>
      refine ⟨.file path (max size (offset + data.length)) readOnly, ?_, writable, fun known => ?_⟩
      · simp only [writeAt, allowed, bind, Except.bind, some_bytes]
        rfl
      · rw [Bytes.length_overwrite]
        exact congrArg (max · (offset + data.length)) known

theorem append_of_writable (writable : h.isReadOnly = false) (bs : Bytes) {data : Bytes}
    (some_data : data ≠ []) :
    ∃ h', h.append bs data = .ok (h.size bs, h', bs.overwrite (h.size bs) data) ∧
      h'.isReadOnly = false ∧
      (h.size bs = bs.length →
        h'.size (bs.overwrite (h.size bs) data) = (bs.overwrite (h.size bs) data).length) := by
  have allowed := checkWritable_of_writable writable
  have some_bytes : data.isEmpty = false := by simpa using some_data
  cases h with
  | memory readOnly =>
      refine ⟨.memory readOnly, ?_, writable, fun _ => rfl⟩
      simp only [append, size, allowed, bind, Except.bind, Bytes.overwrite_length_self]
      rfl
  | file path size readOnly =>
      refine ⟨.file path (size + data.length) readOnly, ?_, writable, fun known => ?_⟩
      · simp only [append, allowed, bind, Except.bind, some_bytes]
        rfl
      · rw [Bytes.length_overwrite]
        change size = bs.length at known
        change size + data.length = max bs.length (size + data.length)
        omega

theorem append_nil (writable : h.isReadOnly = false) (bs : Bytes) :
    h.append bs [] = .ok (h.size bs, h, bs) := by
  have allowed := checkWritable_of_writable writable
  cases h with
  | memory readOnly =>
      simp only [append, size, allowed, bind, Except.bind, List.append_nil]
      rfl
  | file path size readOnly =>
      simp only [append, allowed, bind, Except.bind]
      rfl

theorem exists_writeAt (writable : h.isReadOnly = false) (bs : Bytes) (offset : ℕ) (data : Bytes) :
    ∃ h' bs', h.writeAt bs offset data = .ok (h', bs') := by
  by_cases some_data : data = []
  · have allowed := checkWritable_of_writable writable
    subst some_data
    cases h with
    | memory readOnly =>
        refine ⟨.memory readOnly, bs.put offset [], ?_⟩
        simp only [writeAt, allowed, bind, Except.bind]
        rfl
    | file path size readOnly =>
        refine ⟨.file path size readOnly, bs, ?_⟩
        simp only [writeAt, allowed, bind, Except.bind]
        rfl
  · obtain ⟨h', written, -⟩ := writeAt_of_writable writable bs offset some_data
    exact ⟨h', _, written⟩

/-! ## Access stays what it is -/

section
variable {h' : Handle} {bs' : Bytes}

theorem isReadOnly_append {n : ℕ} {data : Bytes} (done : h.append bs data = .ok (n, h', bs')) :
    h'.isReadOnly = h.isReadOnly := by
  obtain ⟨-, -, written⟩ := bind_eq_ok.mp done
  cases h with
  | memory readOnly =>
      cases written
      rfl
  | file path size readOnly =>
      dsimp only at written
      split at written
      · cases written
        rfl
      · cases written
        rfl

theorem isReadOnly_writeAt {offset : ℕ} {data : Bytes}
    (done : h.writeAt bs offset data = .ok (h', bs')) : h'.isReadOnly = h.isReadOnly := by
  obtain ⟨-, -, written⟩ := bind_eq_ok.mp done
  cases h with
  | memory readOnly =>
      cases written
      rfl
  | file path size readOnly =>
      dsimp only at written
      split at written
      · cases written
        rfl
      · cases written
        rfl

theorem isReadOnly_preallocate {len : ℕ} (done : h.preallocate bs len = .ok (h', bs')) :
    h'.isReadOnly = h.isReadOnly := by
  obtain ⟨-, -, filled⟩ := bind_eq_ok.mp done
  split at filled
  · cases filled
    rfl
  · cases h <;> cases filled <;> rfl

theorem isReadOnly_truncate {stop : ℕ} (done : h.truncate bs stop = .ok (h', bs')) :
    h'.isReadOnly = h.isReadOnly := by
  obtain ⟨-, -, cut⟩ := bind_eq_ok.mp done
  cases h with
  | memory readOnly =>
      dsimp only at cut
      split at cut
      · cases cut
      · cases cut
        rfl
  | file path size readOnly =>
      dsimp only at cut
      split at cut
      · cases cut
      · cases cut
        rfl

end

/-! ## Handles that know the size -/

/-- The handle may be written, and the size it knows is that of the bytes. -/
structure Follows (h : Handle) (bs : Bytes) : Prop where
  writable : h.isReadOnly = false
  size : h.size bs = bs.length

theorem Follows.writeAt (f : h.Follows bs) (offset : ℕ) {data : Bytes} (some_data : data ≠ []) :
    ∃ h', h.writeAt bs offset data = .ok (h', bs.overwrite offset data) ∧
      h'.Follows (bs.overwrite offset data) := by
  obtain ⟨h', written, writable, size⟩ := writeAt_of_writable f.writable bs offset some_data
  exact ⟨h', written, writable, size f.size⟩

theorem Follows.append (f : h.Follows bs) (data : Bytes) :
    ∃ h', h.append bs data = .ok (bs.length, h', bs ++ data) ∧ h'.Follows (bs ++ data) := by
  by_cases some_data : data = []
  · rw [some_data, List.append_nil, append_nil f.writable, f.size]
    exact ⟨h, rfl, f⟩
  · obtain ⟨h', written, writable, size⟩ := append_of_writable f.writable bs some_data
    have size := size f.size
    rw [f.size, Bytes.overwrite_length_self] at written size
    exact ⟨h', written, writable, size⟩

theorem Follows.preallocate (f : h.Follows bs) (len : ℕ) :
    ∃ h', h.preallocate bs len = .ok (h', bs ++ List.replicate (len - bs.length) 0) ∧
      h'.Follows (bs ++ List.replicate (len - bs.length) 0) := by
  have allowed := checkWritable_of_writable f.writable
  have known := f.size
  by_cases enough : len ≤ h.size bs
  · rw [Nat.sub_eq_zero_of_le (by omega), List.replicate_zero, List.append_nil]
    refine ⟨h, ?_, f⟩
    simp only [Handle.preallocate, allowed, bind, Except.bind, if_pos enough]
    rfl
  · rw [← Bytes.resize_of_ge (by omega)]
    cases h with
    | memory readOnly =>
        refine ⟨.memory readOnly, ?_, f.writable, rfl⟩
        simp only [Handle.preallocate, allowed, bind, Except.bind, if_neg enough]
        rfl
    | file path size readOnly =>
        refine ⟨.file path len readOnly, ?_, f.writable, (Bytes.length_resize bs len).symm⟩
        simp only [Handle.preallocate, allowed, bind, Except.bind, if_neg enough]
        rfl

theorem Follows.truncate (f : h.Follows bs) {stop : ℕ} (within : stop ≤ bs.length) :
    ∃ h', h.truncate bs stop = .ok (h', bs.take stop) ∧ h'.Follows (bs.take stop) := by
  have allowed := checkWritable_of_writable f.writable
  have enough : ¬h.size bs < stop := by rw [f.size]; omega
  cases h with
  | memory readOnly =>
      refine ⟨.memory readOnly, ?_, f.writable, rfl⟩
      simp only [Handle.truncate, allowed, bind, Except.bind, if_neg enough]
      rfl
  | file path size readOnly =>
      refine ⟨.file path stop readOnly, ?_, f.writable, (List.length_take_of_le within).symm⟩
      simp only [Handle.truncate, allowed, bind, Except.bind, if_neg enough,
        Bytes.resize_of_le within]
      rfl

theorem Follows.truncate_past (f : h.Follows bs) {stop : ℕ} (past : bs.length < stop) :
    h.truncate bs stop = .error (.truncateBeyond stop bs.length) := by
  simp only [Handle.truncate, checkWritable_of_writable f.writable, bind, Except.bind, f.size,
    if_pos past]
  rfl

/-- A handle that knows the size of the bytes can read all of them and nothing else. -/
theorem readAt_of_size (known : h.size bs = bs.length) (offset len : ℕ) :
    h.readAt bs offset len =
      if bs.length < offset + len then .error (.readPastEnd offset len bs.length)
      else .ok (bs.slice offset len) := by
  rw [readAt, known]
  split
  · rfl
  · next within => rw [if_neg (fun past => within past.2)]

end SegmentLog.Handle
