import Mathlib.Data.List.Basic
import SegmentLog.Directory
import SegmentLog.Proofs.Volume.Contents

/-!
# Writing through the fuse of a directory

A store that a directory opens for writing has at most the directory's own fuse before it. What goes
through it is all of a write or, when the fuse blows, the front of it; and what goes through a blown
fuse is nothing. Only the fuse itself changes otherwise.
-/
namespace SegmentLog

namespace Volume

/-- Nothing that is stored differs, and there are as many fuses. -/
structure Alike (v v' : Volume) : Prop where
  segments : v'.segments = v.segments
  contents : v'.contents = v.contents
  fuses : v'.fuses.size = v.fuses.size

theorem Alike.refl (v : Volume) : v.Alike v := ⟨rfl, rfl, rfl⟩

theorem Alike.trans {v₁ v₂ v₃ : Volume} (h : v₁.Alike v₂) (h' : v₂.Alike v₃) : v₁.Alike v₃ :=
  ⟨h'.segments.trans h.segments, h'.contents.trans h.contents, h'.fuses.trans h.fuses⟩

theorem alike_setFuse (v : Volume) (id : FuseId) (f : Fuse) : v.Alike (v.setFuse id f) :=
  ⟨rfl, rfl, Array.size_setIfInBounds⟩

theorem Alike.bytes {v v' : Volume} (h : v.Alike v') (content : ContentId) :
    v'.bytes content = v.bytes content := by
  rw [Volume.bytes, h.contents, Volume.bytes]

end Volume

namespace Store
variable {s : Store}

/-- Cutting does not go through fuses. -/
theorem run_truncate_memory (memory : s.handle = .memory false) (v : Volume) (size : ℕ) :
    (s.run fun v s => s.truncate v size) v =
      if (v.bytes s.content).length < size then
        .error (.storage (.truncateBeyond size (v.bytes s.content).length)) v
      else .ok ((), s) (v.setBytes s.content ((v.bytes s.content).resize size)) := by
  obtain ⟨content, handle, fuses⟩ := s
  cases memory
  have answer (bs : Bytes) : (Handle.memory false).truncate bs size =
      if bs.length < size then .error (.truncateBeyond size bs.length)
      else .ok (.memory false, bs.take size) := rfl
  by_cases past : (v.bytes content).length < size
  · simp only [run, truncate, answer, if_pos past]
    rfl
  · simp only [run, truncate, answer, if_neg past, Bytes.resize_of_le (Nat.le_of_not_lt past)]
    rfl

/-- Filling up does not go through fuses. -/
theorem run_preallocate_memory (memory : s.handle = .memory false) (v : Volume) (len : ℕ) :
    (s.run fun v s => s.preallocate v len) v = .ok ((), s) (v.setBytes s.content
      (v.bytes s.content ++ List.replicate (len - (v.bytes s.content).length) 0)) := by
  obtain ⟨content, handle, fuses⟩ := s
  cases memory
  have answer (bs : Bytes) : (Handle.memory false).preallocate bs len =
      if len ≤ bs.length then .ok (.memory false, bs) else .ok (.memory false, bs.resize len) := rfl
  by_cases enough : len ≤ (v.bytes content).length
  · simp only [run, preallocate, answer, if_pos enough]
    rw [Nat.sub_eq_zero_of_le enough, List.replicate_zero, List.append_nil]
    rfl
  · simp only [run, preallocate, answer, if_neg enough]
    rw [Bytes.resize_of_ge (by omega)]
    rfl

end Store

/-- What goes past fuses writes nothing. -/
theorem Store.alike_passFuses (point : CrashPoint) (ids : List FuseId) (v : Volume) :
    v.Alike (passFuses point ids v).2 := by
  induction ids generalizing v with
  | nil => exact .refl v
  | cons id ids ih =>
      have first := v.alike_setFuse id (v.fuse id).sync.2
      simp only [passFuses]
      split
      · exact first.trans (ih _)
      · exact first

theorem Store.alike_of_flush {s : Store} {v v' : Volume} {result : Except StorageFault Unit}
    (h : s.flush v = (result, v')) : v.Alike v' := by
  have passed := alike_passFuses .flush s.fuses v
  rw [flush] at h
  rwa [h] at passed

theorem Store.alike_of_sync {s : Store} {v v' : Volume} {result : Except StorageFault Unit}
    (h : s.sync v = (result, v')) : v.Alike v' := by
  have passed := alike_passFuses .sync s.fuses v
  rw [sync] at h
  rwa [h] at passed

namespace Directory
variable {d : Directory} {v : Volume}

/-- The directory's fuse is there. -/
def Wired (d : Directory) (v : Volume) : Prop := ∀ id ∈ d.fuse, id < v.fuses.size

theorem Wired.alike {v' : Volume} (h : d.Wired v) (alike : v.fuses.size ≤ v'.fuses.size) :
    d.Wired v' :=
  fun id hid => Nat.lt_of_lt_of_le (h id hid) alike

/-- A fuse that has blown is there. -/
theorem fuse_ne_none (blown : d.hasBlown v = true) : d.fuse ≠ none := by
  intro none_fuse
  rw [hasBlown, none_fuse] at blown
  cases blown

theorem hasBlown_congr {v' : Volume} (h : v'.fuses = v.fuses) : d.hasBlown v' = d.hasBlown v := by
  simp only [hasBlown, Volume.fuse, h]

theorem sync_cases (f : Fuse) :
    (f.sync.1 = true ∧ f.blown = false ∧ f.sync.2.blown = false) ∨
      f.sync.1 = false ∧ f.sync.2.blown = true := by
  unfold Fuse.sync
  cases blown : f.blown with
  | true => exact Or.inr ⟨rfl, blown⟩
  | false =>
      cases f.failSync with
      | true => exact Or.inr ⟨rfl, rfl⟩
      | false => exact Or.inl ⟨rfl, rfl, blown⟩

/-- A flush or sync goes through, or it fails and leaves the fuse blown. -/
theorem passFuses_cases (wired : d.Wired v) (point : CrashPoint) :
    (∃ v', Store.passFuses point d.fuse.toList v = (.ok (), v') ∧ v.Alike v' ∧
      d.hasBlown v = false ∧ d.hasBlown v' = false) ∨
    ∃ v', Store.passFuses point d.fuse.toList v = (.error (.io (.crash point)), v') ∧ v.Alike v' ∧
      d.hasBlown v' = true := by
  unfold hasBlown
  cases hd : d.fuse with
  | none => exact Or.inl ⟨v, rfl, .refl v, rfl, rfl⟩
  | some id =>
      have there := wired id hd
      simp only [Option.toList_some, Store.passFuses, Option.any_some]
      rcases sync_cases (v.fuse id) with ⟨passed, calm, still⟩ | ⟨failed, blown⟩
      · left
        rw [if_pos passed]
        exact ⟨_, rfl, v.alike_setFuse .., calm, by rw [Volume.fuse_setFuse there]; exact still⟩
      · right
        rw [if_neg (by rw [failed]; exact Bool.false_ne_true)]
        exact ⟨_, rfl, v.alike_setFuse .., by rw [Volume.fuse_setFuse there]; exact blown⟩

/-- Part of a write lands, all of it unless the fuse blows and nothing if it has blown. -/
theorem spend_cases (f : Fuse) {len : ℕ} (hl : 0 < len) :
    ((f.spend len).1 = len ∧ f.blown = false ∧ (f.spend len).2.blown = false) ∨
      (f.spend len).1 < len ∧ (f.blown = true → (f.spend len).1 = 0) ∧
        (f.spend len).2.blown = true := by
  unfold Fuse.spend
  cases blown : f.blown with
  | true => exact Or.inr ⟨hl, fun _ => rfl, blown⟩
  | false =>
      cases f.budget with
      | none => exact Or.inl ⟨rfl, rfl, rfl⟩
      | some budget =>
          dsimp only
          rw [if_neg Bool.false_ne_true]
          split
          · exact Or.inl ⟨rfl, rfl, rfl⟩
          · exact Or.inr ⟨by dsimp only; omega, fun h => absurd h Bool.false_ne_true, rfl⟩

/-- A write is done, or the fuse blows and only the front of it is, if anything. -/
theorem writeAt_cases (wired : d.Wired v) (content : ContentId) (offset : ℕ) {data : Bytes}
    (some_data : data ≠ []) :
    (∃ v₁, Store.writeAt v ⟨content, .memory false, d.fuse.toList⟩ offset data =
        (.ok (), v₁.setBytes content ((v.bytes content).overwrite offset data),
          ⟨content, .memory false, d.fuse.toList⟩) ∧
      v.Alike v₁ ∧ d.hasBlown v = false ∧ d.hasBlown v₁ = false) ∨
    ∃ v₁ landed, Store.writeAt v ⟨content, .memory false, d.fuse.toList⟩ offset data =
        (.error (.io (.crash .write)),
          if 0 < landed then
            v₁.setBytes content ((v.bytes content).overwrite offset (data.take landed))
          else v₁,
          ⟨content, .memory false, d.fuse.toList⟩) ∧
      landed < data.length ∧ (d.hasBlown v = true → landed = 0) ∧ d.fuse.isSome ∧ v.Alike v₁ ∧
      d.hasBlown v₁ = true := by
  unfold hasBlown
  have lands (bs data : Bytes) : (Handle.memory false).writeAt bs offset data =
      .ok (.memory false, bs.overwrite offset data) := by
    rw [← Bytes.put_eq_overwrite]
    rfl
  cases hd : d.fuse with
  | none =>
      refine Or.inl ⟨v, ?_, .refl v, rfl, rfl⟩
      simp only [Option.toList_none, Store.writeAt, Store.throughFuses, lands]
      rfl
  | some id =>
      have there := wired id hd
      have same := (v.alike_setFuse id ((v.fuse id).spend data.length).2).bytes content
      simp only [Option.toList_some, Store.writeAt, Store.throughFuses, Option.any_some, lands]
      rcases spend_cases (v.fuse id) (List.length_pos_of_ne_nil some_data) with
        ⟨landed, calm, still⟩ | ⟨landed, nothing, blown⟩
      · left
        rw [if_pos landed]
        refine ⟨_, ?_, v.alike_setFuse .., calm, by rw [Volume.fuse_setFuse there]; exact still⟩
        rw [same]
        rfl
      · right
        rw [if_neg (Nat.ne_of_lt landed)]
        refine ⟨_, _, ?_, landed, nothing, rfl, v.alike_setFuse .., by
          rw [Volume.fuse_setFuse there]; exact blown⟩
        rw [same]
        split
        · rfl
        · rfl

end Directory
end SegmentLog
