import Mathlib.Data.Nat.Notation
import SegmentLog.Store.Volume

/-!
# What a volume holds after a change

Contents and fuses are looked up by number, and a change to one is seen under its own number only.
Changes under different numbers may be made in either order.
-/
namespace SegmentLog.Volume

theorem bytes_of_push {v v' : Volume} {bs : Bytes} (h : v'.contents = v.contents.push bs) :
    v'.bytes v.contents.size = bs ∧ ∀ id < v.contents.size, v'.bytes id = v.bytes id := by
  constructor
  · simp [bytes, h, Array.getD_eq_getD_getElem?]
  · intro id known
    simp only [bytes, h, Array.getD_eq_getD_getElem?]
    rw [Array.getElem?_push_lt known, Array.getElem?_eq_getElem known]

theorem bytes_setBytes {v : Volume} {id : ContentId} (known : id < v.contents.size)
    (bs : Bytes) : (v.setBytes id bs).bytes id = bs := by
  simp [bytes, setBytes, Array.getD_eq_getD_getElem?, known]

theorem bytes_setBytes_of_ne {v : Volume} {id other : ContentId} (ne : id ≠ other)
    (bs : Bytes) : (v.setBytes id bs).bytes other = v.bytes other := by
  simp [bytes, setBytes, Array.getD_eq_getD_getElem?, Array.getElem?_setIfInBounds_ne ne]

theorem setBytes_self (v : Volume) (id : ContentId) : v.setBytes id (v.bytes id) = v := by
  have same : v.contents.setIfInBounds id (v.bytes id) = v.contents := by
    apply Array.ext
    · exact Array.size_setIfInBounds
    · intro i _ lt
      rw [Array.getElem_setIfInBounds lt]
      split
      · rename_i here
        subst here
        rw [bytes, Array.getD_eq_getD_getElem?, Array.getElem?_eq_getElem lt, Option.getD_some]
      · rfl
  rw [setBytes, same]

/-! ## Fuses -/

theorem fuse_setFuse {v : Volume} {id : FuseId} (h : id < v.fuses.size) (f : Fuse) :
    (v.setFuse id f).fuse id = f := by
  simp [fuse, setFuse, Array.getD_eq_getD_getElem?, h]

theorem fuse_setFuse_of_ne {v : Volume} {id other : FuseId} (ne : id ≠ other) (f : Fuse) :
    (v.setFuse id f).fuse other = v.fuse other := by
  simp [fuse, setFuse, Array.getD_eq_getD_getElem?, Array.getElem?_setIfInBounds_ne ne]

theorem setFuse_setFuse (v : Volume) (id : FuseId) (f g : Fuse) :
    (v.setFuse id f).setFuse id g = v.setFuse id g := by
  simp [setFuse]

theorem setFuse_comm (v : Volume) {id other : FuseId} (ne : id ≠ other) (f g : Fuse) :
    (v.setFuse id f).setFuse other g = (v.setFuse other g).setFuse id f := by
  simp [setFuse, Array.setIfInBounds_comm _ _ ne]

end SegmentLog.Volume
