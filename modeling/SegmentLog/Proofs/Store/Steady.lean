import SegmentLog.Proofs.Store.Behind

/-!
# Stores that never fail to write

A store that may be written and has only idle fuses before it does every write, whatever was asked
of it and of other stores before: `Steady`. The bytes land at the offset of the write, or at the end
that the handle knows.
-/
namespace SegmentLog

theorem Volume.idle_setFuse {v : Volume} {id other : FuseId} {x : Fuse}
    (keeps : (v.fuse id).Idle → x.Idle) (idle : (v.fuse other).Idle) :
    ((v.setFuse id x).fuse other).Idle := by
  by_cases same : id = other
  · subst same
    by_cases there : id < v.fuses.size
    · rw [fuse_setFuse there]
      exact keeps idle
    · have unchanged : v.setFuse id x = v := by
        rw [setFuse, Array.setIfInBounds_eq_of_size_le (Nat.le_of_not_lt there)]
      rwa [unchanged]
  · rwa [fuse_setFuse_of_ne same]

theorem Fuse.Idle.spend_snd {x : Fuse} (h : x.Idle) (len : ℕ) : (x.spend len).2.Idle := by
  rw [h.spend]
  exact h.count len

theorem Fuse.Idle.sync_snd {x : Fuse} (h : x.Idle) : x.sync.2.Idle := by
  rwa [Fuse.sync_of_calm h.blown h.failSync]

namespace Store

/-- What no call changes of the way to the contents. -/
structure Keeps (v : Volume) (s : Store) (v' : Volume) (s' : Store) : Prop where
  size : v'.fuses.size = v.fuses.size
  idle : ∀ id, (v.fuse id).Idle → (v'.fuse id).Idle
  fuses : s'.fuses = s.fuses
  readOnly : s'.handle.isReadOnly = s.handle.isReadOnly

section
variable {α : Type} {point : CrashPoint} {v v' : Volume} {s s' : Store} {id : FuseId} {x : Fuse}

theorem Keeps.refl (v : Volume) (s : Store) : Keeps v s v s := ⟨rfl, fun _ idle => idle, rfl, rfl⟩

theorem Keeps.setFuse (h : Keeps (v.setFuse id x) s v' s') (keeps : (v.fuse id).Idle → x.Idle) :
    Keeps v s v' s' :=
  ⟨h.size.trans Array.size_setIfInBounds,
    fun other idle => h.idle other (Volume.idle_setFuse keeps idle), h.fuses, h.readOnly⟩

theorem keeps_commit {result : Except StorageFault (α × Handle × Bytes)}
    (same : ∀ a handle bs, result = .ok (a, handle, bs) →
      handle.isReadOnly = s.handle.isReadOnly) :
    Keeps v s (s.commit v result).2.1 (s.commit v result).2.2 := by
  cases result with
  | error fault => exact .refl v s
  | ok done => exact ⟨rfl, fun _ idle => idle, rfl, same _ _ _ rfl⟩

theorem keeps_commit_map {result : Except StorageFault (Handle × Bytes)}
    (same : ∀ handle bs, result = .ok (handle, bs) →
      handle.isReadOnly = s.handle.isReadOnly) :
    Keeps v s (s.commit v (result.map ((), ·))).2.1 (s.commit v (result.map ((), ·))).2.2 := by
  refine keeps_commit fun a handle bs done => ?_
  obtain ⟨_, done', pair⟩ := map_eq_ok.mp done
  cases pair
  exact same _ _ done'

theorem keeps_throughFuses {write : Volume → Store → Bytes → Except StorageFault α × Volume × Store}
    (keeps : ∀ v data, Keeps v s (write v s data).2.1 (write v s data).2.2) (ids : List FuseId)
    (v : Volume) (data : Bytes) :
    Keeps v s (throughFuses point write ids v s data).2.1
      (throughFuses point write ids v s data).2.2 := by
  induction ids generalizing v data with
  | nil => exact keeps v data
  | cons id ids ih =>
      simp only [throughFuses]
      split
      · exact (ih _ _).setFuse fun idle => idle.spend_snd _
      · split
        · exact (ih _ _).setFuse fun idle => idle.spend_snd _
        · exact (Keeps.refl _ s).setFuse fun idle => idle.spend_snd _

theorem keeps_passFuses (ids : List FuseId) (v : Volume) :
    Keeps v s (passFuses point ids v).2 s := by
  induction ids generalizing v with
  | nil => exact .refl v s
  | cons id ids ih =>
      simp only [passFuses]
      split
      · exact (ih _).setFuse fun idle => idle.sync_snd
      · exact (Keeps.refl _ s).setFuse fun idle => idle.sync_snd

theorem keeps_call (v : Volume) (s : Store) (c : Call) :
    Keeps v s (s.call v c).2.1 (s.call v c).2.2 := by
  cases c with
  | append data =>
      exact keeps_throughFuses
        (fun _ _ => keeps_commit fun _ _ _ => Handle.isReadOnly_append) s.fuses v data
  | writeAt offset data =>
      exact keeps_throughFuses
        (fun _ _ => keeps_commit_map fun _ _ => Handle.isReadOnly_writeAt) s.fuses v data
  | preallocate len => exact keeps_commit_map fun _ _ => Handle.isReadOnly_preallocate
  | truncate size => exact keeps_commit_map fun _ _ => Handle.isReadOnly_truncate
  | readAt offset len => exact .refl v s
  | size => exact .refl v s
  | flush => exact keeps_passFuses s.fuses v
  | sync => exact keeps_passFuses s.fuses v

end

/-- The store may be written, and no fuse on the way ever blows. -/
structure Steady (s : Store) (v : Volume) : Prop where
  writable : s.handle.isReadOnly = false
  idle : ∀ id ∈ s.fuses, (v.fuse id).Idle

/-- Where a write lands. -/
def target (v : Volume) (s : Store) : Call → ℕ
  | .append _ => s.size v
  | .writeAt offset _ => offset
  | .preallocate _ | .truncate _ | .readAt .. | .size | .flush | .sync => 0

theorem target_front (v : Volume) (s : Store) (n : ℕ) (c : Call) :
    s.target v (c.front n) = s.target v c := by
  cases c <;> rfl

variable {v : Volume} {s : Store} {c : Call}

theorem throughFuses_of_idle {α : Type} {point : CrashPoint}
    {write : Volume → Store → Bytes → Except StorageFault α × Volume × Store} {ids : List FuseId}
    (idle : ∀ id ∈ ids, (v.fuse id).Idle) (data : Bytes) :
    ∃ v', throughFuses point write ids v s data = write v' s data ∧ v'.contents = v.contents := by
  induction ids generalizing v with
  | nil => exact ⟨v, rfl, rfl⟩
  | cons id ids ih =>
      obtain ⟨first, rest⟩ := List.forall_mem_cons.mp idle
      have still (other : FuseId) (mem : other ∈ ids) :
          ((v.setFuse id ((v.fuse id).count data.length)).fuse other).Idle :=
        Volume.idle_setFuse (fun idle => idle.count _) (rest other mem)
      obtain ⟨v', through, contents⟩ := ih still
      refine ⟨v', ?_, contents⟩
      simp only [throughFuses, first.spend, if_pos, through]

theorem append_of_idle (idle : ∀ id ∈ s.fuses, (v.fuse id).Idle) (data : Bytes) :
    ∃ v', s.append v data = s.commit v' (s.handle.append (v.bytes s.content) data) ∧
      v'.contents = v.contents := by
  obtain ⟨v', through, contents⟩ : ∃ v', s.append v data =
      s.commit v' (s.handle.append (v'.bytes s.content) data) ∧ v'.contents = v.contents :=
    throughFuses_of_idle idle data
  rw [Volume.bytes, contents] at through
  exact ⟨v', through, contents⟩

theorem writeAt_of_idle (idle : ∀ id ∈ s.fuses, (v.fuse id).Idle) (offset : ℕ) (data : Bytes) :
    ∃ v', s.writeAt v offset data =
        s.commit v' ((s.handle.writeAt (v.bytes s.content) offset data).map ((), ·)) ∧
      v'.contents = v.contents := by
  obtain ⟨v', through, contents⟩ : ∃ v', s.writeAt v offset data =
      s.commit v' ((s.handle.writeAt (v'.bytes s.content) offset data).map ((), ·)) ∧
        v'.contents = v.contents :=
    throughFuses_of_idle idle data
  rw [Volume.bytes, contents] at through
  exact ⟨v', through, contents⟩

/-- Every write is done, and all of it lands. -/
theorem Steady.call (h : s.Steady v) (writes : c.writes = true) :
    ∃ answer v' s', s.call v c = (.ok answer, v', s') ∧
      (c.data ≠ [] → v'.contents =
        (v.setBytes s.content ((v.bytes s.content).overwrite (s.target v c) c.data)).contents) := by
  cases c with
  | append data =>
      obtain ⟨v₁, through, contents⟩ := append_of_idle h.idle data
      simp only [Store.call, through]
      by_cases some_data : data = []
      · rw [some_data, Handle.append_nil h.writable]
        exact ⟨_, _, _, rfl, fun some_data => absurd rfl some_data⟩
      · obtain ⟨handle, done, -⟩ := Handle.append_of_writable h.writable (v.bytes s.content) some_data
        rw [done]
        refine ⟨_, _, _, rfl, fun _ => ?_⟩
        dsimp only [Volume.setBytes, id]
        rw [contents]
        rfl
  | writeAt offset data =>
      obtain ⟨v₁, through, contents⟩ := writeAt_of_idle h.idle offset data
      simp only [Store.call, through]
      by_cases some_data : data = []
      · obtain ⟨handle, bs, done⟩ := Handle.exists_writeAt h.writable (v.bytes s.content) offset data
        rw [done]
        exact ⟨_, _, _, rfl, fun some_data' => absurd some_data some_data'⟩
      · obtain ⟨handle, done, -⟩ :=
          Handle.writeAt_of_writable h.writable (v.bytes s.content) offset some_data
        rw [done]
        refine ⟨_, _, _, rfl, fun _ => ?_⟩
        dsimp only [Volume.setBytes, id]
        rw [contents]
        rfl
  | preallocate _ | truncate _ | readAt _ _ | size | flush | sync => cases writes

end Store
end SegmentLog
