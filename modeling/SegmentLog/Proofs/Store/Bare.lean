import Mathlib.Data.Nat.Notation
import SegmentLog.Proofs.Store.Handle
import SegmentLog.Store

/-!
# Stores that no fuse was put before

What is read through a store that was opened on some bytes does not depend on what is appended to
them later: `Reads`. A store that no fuse was put before and that may be written does all it is told
to, and stays such a store.
-/
namespace SegmentLog

namespace Store

/-- The first `len` bytes can be read whenever there are so many. -/
def Reads (s : Store) (len : ℕ) : Prop :=
  ∀ v offset n, offset + n ≤ len → len ≤ (v.bytes s.content).length →
    s.readAt v offset n = .ok ((v.bytes s.content).slice offset n)

theorem reads_memory (content : ContentId) (readOnly : Bool) (len : ℕ) :
    Reads ⟨content, .memory readOnly, []⟩ len := by
  intro v offset n within enough
  dsimp only at enough
  simp only [readAt, Handle.readAt, Handle.size]
  rw [if_neg (by omega), if_neg (by omega)]

theorem reads_onFile (v : Volume) (p : Path) (content : ContentId) (readOnly : Bool) :
    (onFile v p content readOnly).Reads (v.bytes content).length := by
  intro v' offset n within enough
  change (v.bytes content).length ≤ (v'.bytes content).length at enough
  change (if (v.bytes content).length < offset + n then _
    else if n ≠ 0 ∧ (v'.bytes content).length < offset + n then _ else _) = _
  rw [if_neg (by omega), if_neg (by omega)]

/-- No fuse stands before the store, and it may be written. -/
structure Bare (s : Store) : Prop where
  unfused : s.fuses = []
  writable : s.handle.isReadOnly = false

variable {s : Store}

theorem Bare.flush (h : s.Bare) (v : Volume) : s.flush v = (.ok (), v) := by
  rw [Store.flush, h.unfused]
  rfl

theorem Bare.sync (h : s.Bare) (v : Volume) : s.sync v = (.ok (), v) := by
  rw [Store.sync, h.unfused]
  rfl

theorem Bare.writeAt (h : s.Bare) (v : Volume) (offset : ℕ) {data : Bytes} (some_data : data ≠ []) :
    ∃ s', s.writeAt v offset data =
        (.ok (), v.setBytes s.content ((v.bytes s.content).overwrite offset data), s') ∧
      s'.content = s.content ∧ s'.Bare := by
  obtain ⟨handle, written, writable, -⟩ :=
    Handle.writeAt_of_writable h.writable (v.bytes s.content) offset some_data
  refine ⟨{ s with handle }, ?_, rfl, h.unfused, writable⟩
  simp only [Store.writeAt, h.unfused, throughFuses, written, Except.map, commit]

/-- Filling up a store whose size is known puts zeros at its end. -/
theorem Bare.preallocate (h : s.Bare) {v : Volume} (size : s.size v = (v.bytes s.content).length)
    (len : ℕ) :
    ∃ s', s.preallocate v len =
        (.ok (), v.setBytes s.content
          (v.bytes s.content ++ List.replicate (len - (v.bytes s.content).length) 0), s') ∧
      s'.content = s.content ∧ s'.Bare := by
  obtain ⟨handle, filled, follows⟩ := Handle.Follows.preallocate ⟨h.writable, size⟩ len
  refine ⟨{ s with handle }, ?_, rfl, h.unfused, follows.writable⟩
  simp only [Store.preallocate, filled, Except.map, commit]

/-- A store whose size is known can be cut off anywhere within it. -/
theorem Bare.truncate (h : s.Bare) {v : Volume} (size : s.size v = (v.bytes s.content).length)
    {stop : ℕ} (within : stop ≤ (v.bytes s.content).length) :
    ∃ s', s.truncate v stop =
        (.ok (), v.setBytes s.content ((v.bytes s.content).take stop), s') ∧
      s'.content = s.content ∧ s'.Bare := by
  obtain ⟨handle, cut, follows⟩ := Handle.Follows.truncate ⟨h.writable, size⟩ within
  refine ⟨{ s with handle }, ?_, rfl, h.unfused, follows.writable⟩
  simp only [Store.truncate, cut, Except.map, commit]

end Store
end SegmentLog
