import SegmentLog.Proofs.Directory.Memory
import SegmentLog.Proofs.Store.Fused
import SegmentLog.Proofs.Success

/-!
# Segments with contents of their own

However a directory in memory came about, its segments are listed in order and no two of them share
their contents: a volume is `Apart`. Whatever the contents are, a change to one segment is then seen
in no other, so that what is done to a volume can be said as what becomes of each `segment?`.
-/
namespace SegmentLog
namespace Volume

/-- The segments in memory are in order, and each has contents that no other has. -/
structure Apart (v : Volume) : Prop where
  sorted : v.segments.Sorted
  stored : ∀ i content, v.segments.get? i = some content → content < v.contents.size
  distinct : ∀ i j content,
    v.segments.get? i = some content → v.segments.get? j = some content → i = j

variable {v v' : Volume} {i : ℕ} {content : ContentId} {bs : Bytes}

theorem Alike.segment? (h : v.Alike v') (i : ℕ) : v'.segment? i = v.segment? i := by
  have bytes : v'.bytes = v.bytes := funext h.bytes
  rw [Volume.segment?, h.segments, bytes, Volume.segment?]

theorem Apart.alike (h : v.Apart) (alike : v.Alike v') : v'.Apart := by
  obtain ⟨sorted, stored, distinct⟩ := h
  rw [← alike.segments] at sorted stored distinct
  rw [← alike.contents] at stored
  exact ⟨sorted, stored, distinct⟩

/-- Nothing is stored yet. -/
theorem apart_empty : Apart {} where
  sorted := List.Pairwise.nil
  stored i content h := by cases h
  distinct i j content h := by cases h

/-! ## Changing a segment -/

theorem Apart.setBytes (h : v.Apart) (content : ContentId) (bs : Bytes) :
    (v.setBytes content bs).Apart := by
  refine ⟨h.sorted, ?_, h.distinct⟩
  intro i other found
  rw [Volume.setBytes, Array.size_setIfInBounds]
  exact h.stored i other found

/-- The volume with a segment that has new contents. -/
def store (v : Volume) (i : ℕ) (bs : Bytes) : Volume :=
  { v with contents := v.contents.push bs, segments := v.segments.insert i v.contents.size }

theorem get?_store (v : Volume) (i : ℕ) (bs : Bytes) (j : ℕ) :
    (v.store i bs).segments.get? j = if i = j then some v.contents.size else v.segments.get? j :=
  Table.get?_insert ..

theorem Apart.store (h : v.Apart) (i : ℕ) (bs : Bytes) : (v.store i bs).Apart := by
  have size : (v.store i bs).contents.size = v.contents.size + 1 := Array.size_push _
  have sorted : (v.store i bs).segments.Sorted :=
    h.sorted.insert Nat.lt_trans (fun h h' => Nat.lt_of_le_of_ne (Nat.le_of_not_lt h) h'.symm) ..
  refine ⟨sorted, ?_, ?_⟩
  · intro j content found
    rw [get?_store] at found
    rw [size]
    split at found
    · cases found
      exact Nat.lt_succ_self _
    · exact Nat.lt_succ_of_lt (h.stored j content found)
  · intro j k content found found'
    rw [get?_store] at found found'
    split at found <;> split at found'
    · omega
    · cases found
      exact absurd (h.stored k _ found') (Nat.lt_irrefl _)
    · cases found'
      exact absurd (h.stored j _ found) (Nat.lt_irrefl _)
    · exact h.distinct j k content found found'

theorem Apart.erase (h : v.Apart) (i : ℕ) : Apart { v with segments := v.segments.erase i } := by
  have kept (j : ℕ) (content : ContentId) (found : (v.segments.erase i).get? j = some content) :
      v.segments.get? j = some content := by
    rw [Table.get?_erase] at found
    split at found
    · cases found
    · exact found
  refine ⟨h.sorted.erase i, ?_, ?_⟩
  · exact fun j content found => h.stored j content (kept j content found)
  · exact fun j k content found found' =>
      h.distinct j k content (kept j content found) (kept k content found')

end Volume

namespace Place
variable {v v' : Volume} {i : ℕ} {bs : Bytes}

theorem put_memory (v : Volume) (i : ℕ) (bs : Bytes) : memory.put i bs v = .ok () (v.store i bs) :=
  rfl

theorem create_memory_eq_ok {s : Store} :
    memory.create i bs v = .ok s v' ↔ v.segments.contains i = false ∧
      s = ⟨v.contents.size, .memory false, []⟩ ∧ v' = v.store i bs := by
  unfold create
  dsimp only
  rw [run_get_bind]
  cases v.segments.contains i with
  | true =>
      rw [if_pos rfl]
      constructor
      · intro h
        cases h
      · rintro ⟨⟨⟩, -⟩
  | false =>
      rw [if_neg Bool.false_ne_true]
      constructor
      · intro h
        cases h
        exact ⟨rfl, rfl, rfl⟩
      · rintro ⟨-, rfl, rfl⟩
        rfl

/-- A directory in memory keeps its segments apart, whatever is put into it and taken from it. -/
theorem apart_of_change (h : v.Apart)
    (change : (∃ s, memory.create i bs v = .ok s v') ∨ memory.put i bs v = .ok () v' ∨
      memory.remove i v = .ok () v') : v'.Apart := by
  rcases change with ⟨s, created⟩ | stored | removed
  · obtain ⟨-, -, rfl⟩ := create_memory_eq_ok.mp created
    exact h.store i bs
  · cases (put_memory v i bs).symm.trans stored
    exact h.store i bs
  · unfold remove at removed
    dsimp only at removed
    rw [run_get_bind] at removed
    cases there : v.segments.contains i with
    | false =>
        rw [there] at removed
        cases removed
    | true =>
        rw [there] at removed
        cases removed
        exact h.erase i

end Place

namespace Directory
variable {d : Directory} {v v' : Volume} {i : ℕ} {s : Store}

theorem openAppend_memory_eq_ok (place : d.place = .memory) : d.openAppend v i = .ok s ↔
    ∃ content, v.segments.get? i = some content ∧ s = ⟨content, .memory false, d.fuse.toList⟩ := by
  simp only [openAppend, place, Place.openSegment]
  cases v.segments.get? i with
  | none => simp [Except.map]
  | some content => simp [Except.map, guard, eq_comm]

theorem create_memory_eq_ok {header : Bytes} (place : d.place = .memory) :
    d.create i header v = .ok s v' ↔ d.hasBlown v = false ∧ v.segments.contains i = false ∧
      s = ⟨v.contents.size, .memory false, d.fuse.toList⟩ ∧ v' = v.store i header := by
  unfold create
  rw [run_get_bind, place]
  cases d.hasBlown v with
  | true =>
      rw [if_pos rfl]
      constructor
      · intro h
        cases h
      · rintro ⟨⟨⟩, -⟩
  | false =>
      rw [if_neg Bool.false_ne_true]
      constructor
      · intro h
        obtain ⟨made, v₁, created, guarded⟩ := run_bind_eq_ok.mp h
        obtain ⟨absent, rfl, rfl⟩ := Place.create_memory_eq_ok.mp created
        cases guarded
        exact ⟨rfl, absent, by rw [guard, List.append_nil], rfl⟩
      · rintro ⟨-, absent, rfl, rfl⟩
        refine run_bind_eq_ok.mpr ⟨_, _, Place.create_memory_eq_ok.mpr ⟨absent, rfl, rfl⟩, ?_⟩
        rw [guard, List.append_nil]
        rfl

end Directory
end SegmentLog
