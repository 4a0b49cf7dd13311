import SegmentLog.Proofs.Record.RoundTrip
import SegmentLog.Proofs.Segment.Runs

/-!
# Where the records of segments are

Whatever bytes segments hold, and wherever reading starts in the first of them, each record that is
found lies within its segment, behind the header, and a pointer reaches all of it
(`Parses.placed`). No two of them overlap, and they are found in the order in which they stand
(`Parses.ordered`).
-/
namespace SegmentLog

/-- The record of `p` is in an older segment than that of `q`, or it ends where that one starts or
before. -/
def Pointer.Precedes (p q : Pointer) : Prop :=
  p.segment < q.segment ∨ p.segment = q.segment ∧ p.offset + p.length ≤ q.offset

namespace Segment

/-- A pointer to a record of these segments. -/
structure Placed (segments : List (ℕ × Bytes)) (p : Pointer) : Prop where
  full : 0 < p.length
  inBody : Header.size ≤ p.offset
  inReach : p.offset + p.length ≤ Pointer.maxOffset
  within : ∃ bs, (p.segment, bs) ∈ segments ∧ p.offset + p.length ≤ bs.length

variable {f : Format} {segment position stop : ℕ} {bs : Bytes} {p : Pointer}
  {segments ahead : List (ℕ × Bytes)} {items : List (Pointer × Record)} {ending : Ending}

theorem Placed.mono {segments' : List (ℕ × Bytes)} (h : Placed segments p)
    (more : segments ⊆ segments') : Placed segments' p := by
  obtain ⟨bs, mem, inside⟩ := h.within
  exact { h with within := ⟨bs, more mem, inside⟩ }

theorem Placed.segment_mem (h : Placed segments p) : p.segment ∈ segments.map (·.1) := by
  obtain ⟨bs, mem, -⟩ := h.within
  exact List.mem_map_of_mem mem

/-- The pointer can be kept outside, with its length. -/
theorem Placed.external (h : Placed segments p) (small : p.segment < UInt64.size / 2) :
    ∃ external, p.toBytes = .ok external ∧ Pointer.ofBytes external = .ok p := by
  have reach := h.inReach
  have some_offset : 0 < UInt32.size / 2 := by decide
  unfold Pointer.maxOffset at reach
  have representable : p.Representable := ⟨small, by omega, by omega⟩
  obtain ⟨external, written⟩ : ∃ external, p.toBytes = .ok external := ⟨_, if_pos representable⟩
  exact ⟨external, written, (Pointer.ofBytes_toBytes written).2⟩

theorem Placed.endOffset (h : Placed segments p) : p.endOffset = .ok (p.offset + p.length) := by
  have full := h.full
  have reach := h.inReach
  have narrow : Pointer.maxOffset < UInt32.size := by decide
  rw [Pointer.endOffset, if_neg (by omega), if_pos (by omega)]

theorem Placed.lt_of_precedes {q : Pointer} (h : Placed segments p) (precedes : p.Precedes q) :
    p.address < q.address := by
  have := h.full
  rcases precedes with older | ⟨same, before⟩
  · exact .inl older
  · exact .inr ⟨same, by dsimp only [Pointer.address]; omega⟩

theorem Run.placed (h : Run f segment bs position items stop) (inBody : Header.size ≤ position) :
    ∀ item ∈ items, Placed [(segment, bs)] item.1 := by
  induction h with
  | stop none_there => exact nofun
  | @frame position stop frame record items here later ih =>
      obtain ⟨full, within⟩ := here.within
      refine List.forall_mem_cons.mpr ⟨?_, ih (Nat.le_trans inBody (Nat.le_add_right ..))⟩
      exact ⟨full, inBody, here.inReach, bs, List.mem_singleton_self _, within⟩

theorem Run.behind (h : Run f segment bs position items stop) :
    ∀ item ∈ items, item.1.segment = segment ∧ position ≤ item.1.offset := by
  induction h with
  | stop none_there => exact nofun
  | frame here later ih =>
      refine List.forall_mem_cons.mpr ⟨⟨rfl, Nat.le_refl _⟩, fun item mem => ?_⟩
      obtain ⟨same, le⟩ := ih item mem
      exact ⟨same, Nat.le_trans (Nat.le_add_right ..) le⟩

theorem Run.ordered (h : Run f segment bs position items stop) :
    items.Pairwise (·.1.Precedes ·.1) := by
  induction h with
  | stop none_there => exact .nil
  | frame here later ih =>
      refine List.pairwise_cons.mpr ⟨fun item mem => ?_, ih⟩
      obtain ⟨same, le⟩ := later.behind item mem
      exact .inr ⟨same.symm, le⟩

theorem Parses.placed (h : Parses f segment bs position ahead items ending)
    (inBody : Header.size ≤ position) :
    ∀ item ∈ items, Placed ((segment, bs) :: ahead) item.1 := by
  have first {ahead : List (ℕ × Bytes)} {items : List (Pointer × Record)} {f : Format}
      {segment position stop : ℕ} {bs : Bytes} (run : Run f segment bs position items stop)
      (inBody : Header.size ≤ position) :
      ∀ item ∈ items, Placed ((segment, bs) :: ahead) item.1 :=
    fun item mem => (run.placed inBody item mem).mono (by simp)
  induction h with
  | finish run ends => exact first run inBody
  | badHeader run ends header => exact first run inBody
  | torn run goes_on => exact first run inBody
  | damaged run goes_on why => exact first run inBody
  | passOn run ends header rest ih =>
      refine List.forall_mem_append.mpr ⟨first run inBody, fun item mem => ?_⟩
      exact (ih (Nat.le_refl _) item mem).mono (List.subset_cons_self _ _)

theorem Parses.ordered (h : Parses f segment bs position ahead items ending)
    (ascending : (((segment, bs) :: ahead).map (·.1)).Pairwise (· < ·)) :
    items.Pairwise (·.1.Precedes ·.1) := by
  induction h with
  | finish run ends => exact run.ordered
  | badHeader run ends header => exact run.ordered
  | torn run goes_on => exact run.ordered
  | damaged run goes_on why => exact run.ordered
  | passOn run ends header rest ih =>
      obtain ⟨older, ascending⟩ := List.pairwise_cons.mp ascending
      refine List.pairwise_append.mpr ⟨run.ordered, ih ascending, fun a ha b hb => ?_⟩
      have later := (rest.placed (Nat.le_refl _) b hb).segment_mem
      rw [← (run.behind a ha).1] at older
      exact .inl (older _ later)

end Segment
end SegmentLog
