import SegmentLog.Proofs.Directory.Stock
import SegmentLog.Proofs.Reader.Unbuffered
import SegmentLog.Proofs.Volume.Contents

/-!
# What the segments in stock hold

A place that `Keeps` contents has them in stock, each for one segment alone, whatever their bytes
are. So writing to one segment leaves the others as they are, and what all of them hold is a list of
bytes by index, the `image`.
-/
namespace SegmentLog

/-- The segments that are still there, with their bytes. -/
def Volume.image (v : Volume) (removed : ℕ) (ids : List ContentId) : List (ℕ × Bytes) :=
  (ids.mapIdx fun i id => (i, v.bytes id)).drop removed

/-- The place has the contents in stock, each for one segment alone, and if it has ever had a
segment it has one now. -/
structure Place.Keeps (place : Place) (v : Volume) (removed : ℕ) (ids : List ContentId) : Prop where
  stocks : place.Stocks v removed ids
  distinct : ids.Nodup
  known : ∀ id ∈ ids, id < v.contents.size
  present : removed = 0 ∨ removed < ids.length

namespace Volume
variable {v v' : Volume} {removed : ℕ} {ids older : List ContentId} {id : ContentId}

theorem image_congr (same : ∀ id ∈ ids, v'.bytes id = v.bytes id) (removed : ℕ) :
    v'.image removed ids = v.image removed ids := by
  unfold image
  congr 1
  refine List.mapIdx_eq_mapIdx_iff.mpr fun i lt => ?_
  rw [same _ (List.getElem_mem lt)]

theorem image_concat (le : removed ≤ older.length) : v.image removed (older ++ [id]) =
    v.image removed older ++ [(older.length, v.bytes id)] := by
  rw [image, List.mapIdx_concat, List.drop_append_of_le_length (by rwa [List.length_mapIdx]), image]

theorem map_fst_image (v : Volume) (removed : ℕ) (ids : List ContentId) :
    (v.image removed ids).map (·.1) = List.range' removed (ids.length - removed) := by
  apply List.ext_getElem
  · simp [image]
  · intro i _ _
    simp [image]

theorem mem_image {e : ℕ × Bytes} (h : e ∈ v.image removed ids) :
    ∃ id, removed ≤ e.1 ∧ ids[e.1]? = some id ∧ e.2 = v.bytes id := by
  obtain ⟨i, lt, rfl⟩ := List.mem_iff_getElem.mp h
  rw [image, List.length_drop, List.length_mapIdx] at lt
  refine ⟨ids[removed + i], ?_⟩
  simp [image]

end Volume

namespace Place
variable {place : Place} {v v' : Volume} {removed : ℕ} {ids older : List ContentId}
  {id : ContentId}

theorem Opens.holds {s : Store} {readOnly : Bool} (h : Opens s v readOnly id) :
    Reader.Holds s v (v.bytes id) := by
  refine ⟨h.size, ?_⟩
  intro offset len within
  rw [h.reads v offset len within (by rw [h.content]), h.content]

theorem Keeps.removed_le (h : place.Keeps v removed ids) : removed ≤ ids.length := by
  have := h.present
  omega

theorem Keeps.removed_le_older (h : place.Keeps v removed (older ++ [id])) :
    removed ≤ older.length := by
  have := h.present
  rw [List.length_append, List.length_singleton] at this
  omega

/-- Other bytes are put in the place of some. -/
theorem Keeps.setBytes (h : place.Keeps v removed ids) (id : ContentId) (bs : Bytes) :
    place.Keeps (v.setBytes id bs) removed ids := by
  have size : (v.setBytes id bs).contents.size = v.contents.size := Array.size_setIfInBounds
  exact ⟨h.stocks.congr rfl rfl, h.distinct, size ▸ h.known, h.present⟩

theorem Keeps.other (h : place.Keeps v removed (older ++ [id])) {other : ContentId}
    (mem : other ∈ older) : id ≠ other := by
  have distinct := h.distinct
  rw [List.nodup_append] at distinct
  exact Ne.symm (distinct.2.2 other mem id List.mem_cons_self)

/-- The newest segment is rewritten. -/
theorem Keeps.image_setBytes (h : place.Keeps v removed (older ++ [id])) (bs : Bytes) :
    (v.setBytes id bs).image removed (older ++ [id]) =
      v.image removed older ++ [(older.length, bs)] := by
  have known := h.known id (List.mem_append_right _ List.mem_cons_self)
  rw [Volume.image_concat h.removed_le_older, Volume.bytes_setBytes known,
    Volume.image_congr fun other mem => Volume.bytes_setBytes_of_ne (h.other mem) bs]

/-- Another segment is put behind the others. -/
theorem Keeps.push (h : place.Keeps v removed ids)
    (stocks : place.Stocks v' removed (ids ++ [v.contents.size])) {bs : Bytes}
    (contents : v'.contents = v.contents.push bs) :
    place.Keeps v' removed (ids ++ [v.contents.size]) ∧ v'.bytes v.contents.size = bs ∧
      ∀ id ∈ ids, v'.bytes id = v.bytes id := by
  obtain ⟨newest, others⟩ := Volume.bytes_of_push contents
  refine ⟨⟨stocks, ?_, ?_, ?_⟩, newest, fun id mem => ?_⟩
  · rw [List.nodup_append]
    refine ⟨h.distinct, List.nodup_singleton _, fun id mem id' mem' => ?_⟩
    cases List.mem_singleton.mp mem'
    exact Nat.ne_of_lt (h.known id mem)
  · rw [contents, Array.size_push]
    refine List.forall_mem_append.mpr ⟨fun id mem => Nat.lt_succ_of_lt (h.known id mem), ?_⟩
    exact List.forall_mem_singleton.mpr (Nat.lt_succ_self _)
  · have := h.removed_le
    rw [List.length_append, List.length_singleton]
    omega
  · exact others id (h.known id mem)

/-- The oldest segment is removed, unless it is the newest as well. -/
theorem Keeps.remove (h : place.Keeps v removed ids) (lt : removed + 1 < ids.length) :
    ∃ v', place.remove removed v = .ok () v' ∧ place.Keeps v' (removed + 1) ids ∧
      v'.contents = v.contents := by
  obtain ⟨v', done, stocks, contents⟩ := h.stocks.remove (by omega)
  exact ⟨v', done, ⟨stocks, h.distinct, contents ▸ h.known, .inr lt⟩, contents⟩

end Place
end SegmentLog
