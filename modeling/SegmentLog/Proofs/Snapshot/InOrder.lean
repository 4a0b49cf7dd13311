import Mathlib.Order.Interval.Set.Basic
import SegmentLog.Snapshot

/-!
# Gaps in order

The check of a snapshot goes through its gaps once and remembers the last number it has seen. It
passes exactly the gaps that are in order as ranges of numbers: `Snapshot.validateGaps_eq_ok`. No
number is in two of these, so that a number is in a gap if it is in exactly one of them.
-/
namespace SegmentLog
namespace Gap

/-- The numbers of a gap. The range may reach beyond the words. -/
def numbers (g : Gap) : Set ℕ := Set.Ico g.start.toNat (g.start.toNat + g.len.toNat)

/-- Ranges of words in ascending order above `floor`, none empty and no two with a common number.
One may start right after the last number of another, or right after `floor`. -/
structure InOrder (floor : UInt64) (gs : List Gap) : Prop where
  full : ∀ g ∈ gs, g.numbers.Nonempty
  words : ∀ g ∈ gs, ∀ n ∈ g.numbers, n < UInt64.size
  above : ∀ g ∈ gs, ∀ n ∈ g.numbers, floor.toNat < n
  ascending : gs.Pairwise fun g h => g.start < h.start
  disjoint : gs.Pairwise fun g h => g.numbers ∩ h.numbers = ∅

theorem mem_numbers {g : Gap} {n : ℕ} :
    n ∈ g.numbers ↔ g.start.toNat ≤ n ∧ n < g.start.toNat + g.len.toNat :=
  Set.mem_Ico

theorem covers_iff {g : Gap} {n : UInt64} :
    g.covers n = true ↔ g.start.toNat ≤ n.toNat ∧ n.toNat < g.start.toNat + g.len.toNat := by
  simp only [covers, decide_eq_true_eq, UInt64.le_iff_toNat_le, UInt64.lt_iff_toNat_lt]
  refine and_congr_right fun le => ?_
  rw [UInt64.toNat_sub_of_le _ _ (UInt64.le_iff_toNat_le.mpr le)]
  omega

theorem len_toNat_ne_zero {g : Gap} : g.len.toNat ≠ 0 ↔ g.len ≠ 0 :=
  not_congr ⟨fun zero => UInt64.toNat.inj zero, fun zero => congrArg UInt64.toNat zero⟩

theorem numbers_nonempty {g : Gap} : g.numbers.Nonempty ↔ g.len ≠ 0 := by
  rw [numbers, Set.nonempty_Ico, ← len_toNat_ne_zero]
  omega

theorem numbers_eq_empty {g : Gap} : g.numbers = ∅ ↔ g.len = 0 := by
  rw [← Set.not_nonempty_iff_eq_empty, numbers_nonempty, not_not]

theorem start_mem_numbers {g : Gap} (full : g.numbers.Nonempty) : g.start.toNat ∈ g.numbers :=
  Set.left_mem_Ico.mpr (Set.nonempty_Ico.mp full)

/-- The largest number of a gap decides whether all of them are words. -/
theorem exists_large {g : Gap} (nonzero : g.len ≠ 0) :
    (∃ n ∈ g.numbers, UInt64.size ≤ n) ↔ UInt64.size ≤ g.start.toNat + (g.len.toNat - 1) := by
  have positive := len_toNat_ne_zero.mpr nonzero
  constructor
  · rintro ⟨n, within, large⟩
    rw [mem_numbers] at within
    omega
  · intro large
    exact ⟨_, mem_numbers.mpr ⟨Nat.le_add_right _ _, by omega⟩, large⟩

theorem last_toNat {g : Gap} (nonzero : g.len ≠ 0)
    (words : g.start.toNat + (g.len.toNat - 1) < UInt64.size) :
    g.last.toNat = g.start.toNat + (g.len.toNat - 1) := by
  have positive := len_toNat_ne_zero.mpr nonzero
  have one : (1 : UInt64) ≤ g.len := by
    rw [UInt64.le_iff_toNat_le, UInt64.toNat_one]
    omega
  rw [last, UInt64.toNat_add, UInt64.toNat_sub_of_le _ _ one, UInt64.toNat_one,
    Nat.mod_eq_of_lt words]

theorem inOrder_nil (floor : UInt64) : InOrder floor [] :=
  ⟨by simp, by simp, by simp, .nil, .nil⟩

theorem InOrder.uncons {floor : UInt64} {g : Gap} {gs : List Gap} (h : InOrder floor (g :: gs)) :
    g.len ≠ 0 ∧ floor < g.start ∧ g.start.toNat + (g.len.toNat - 1) < UInt64.size ∧
      InOrder g.last gs := by
  obtain ⟨full, fullRest⟩ := List.forall_mem_cons.mp h.full
  obtain ⟨words, wordsRest⟩ := List.forall_mem_cons.mp h.words
  obtain ⟨first, ascending⟩ := List.pairwise_cons.mp h.ascending
  obtain ⟨apart, disjoint⟩ := List.pairwise_cons.mp h.disjoint
  have nonzero := numbers_nonempty.mp full
  have positive := len_toNat_ne_zero.mpr nonzero
  have word : g.start.toNat + (g.len.toNat - 1) < UInt64.size :=
    words _ (mem_numbers.mpr (by omega))
  have above := h.above g List.mem_cons_self _ (start_mem_numbers full)
  refine ⟨nonzero, UInt64.lt_iff_toNat_lt.mpr above, word, fullRest, wordsRest, ?_, ascending,
    disjoint⟩
  intro g' hg' n hn
  -- the later gap starts above this one's start, so outside of it only if above its last number
  have outside : g'.start.toNat ∉ g.numbers := fun inside =>
    Set.eq_empty_iff_forall_notMem.mp (apart g' hg') _
      ⟨inside, start_mem_numbers (fullRest g' hg')⟩
  have later := UInt64.lt_iff_toNat_lt.mp (first g' hg')
  rw [mem_numbers] at outside hn
  rw [last_toNat nonzero word]
  omega

theorem InOrder.cons {floor : UInt64} {g : Gap} {gs : List Gap} (nonzero : g.len ≠ 0)
    (above : floor < g.start) (word : g.start.toNat + (g.len.toNat - 1) < UInt64.size)
    (rest : InOrder g.last gs) : InOrder floor (g :: gs) := by
  have positive := len_toNat_ne_zero.mpr nonzero
  have higher := UInt64.lt_iff_toNat_lt.mp above
  have beyond : ∀ g' ∈ gs, ∀ n ∈ g'.numbers, g.start.toNat + (g.len.toNat - 1) < n := by
    intro g' hg' n hn
    rw [← last_toNat nonzero word]
    exact rest.above g' hg' n hn
  constructor
  case full => exact List.forall_mem_cons.mpr ⟨numbers_nonempty.mpr nonzero, rest.full⟩
  case words =>
    refine List.forall_mem_cons.mpr ⟨fun n hn => ?_, rest.words⟩
    rw [mem_numbers] at hn
    omega
  case above =>
    refine List.forall_mem_cons.mpr ⟨fun n hn => ?_, fun g' hg' n hn => ?_⟩
    · rw [mem_numbers] at hn
      omega
    · have := beyond g' hg' n hn
      omega
  case ascending =>
    refine List.pairwise_cons.mpr ⟨fun g' hg' => ?_, rest.ascending⟩
    have := beyond g' hg' _ (start_mem_numbers (rest.full g' hg'))
    rw [UInt64.lt_iff_toNat_lt]
    omega
  case disjoint =>
    refine List.pairwise_cons.mpr ⟨fun g' hg' => ?_, rest.disjoint⟩
    refine Set.eq_empty_of_forall_notMem fun n ⟨hn, hn'⟩ => ?_
    have := beyond g' hg' n hn'
    rw [mem_numbers] at hn
    omega

/-- After the first gap the rest goes on above its last number. -/
theorem inOrder_cons {floor : UInt64} {g : Gap} {gs : List Gap} :
    InOrder floor (g :: gs) ↔ g.len ≠ 0 ∧ floor < g.start ∧
      g.start.toNat + (g.len.toNat - 1) < UInt64.size ∧ InOrder g.last gs :=
  ⟨InOrder.uncons, fun ⟨nonzero, above, word, rest⟩ => .cons nonzero above word rest⟩

end Gap

namespace Snapshot
open Gap

/-- The gaps are in order above `applied`. -/
def InOrder (s : Snapshot) : Prop := Gap.InOrder s.applied s.gaps

theorem validateGaps_eq_ok {floor : UInt64} {gs : List Gap} :
    validateGaps floor gs = .ok () ↔ Gap.InOrder floor gs := by
  induction gs generalizing floor with
  | nil => simp [validateGaps, inOrder_nil]
  | cons g gs ih =>
      rw [inOrder_cons, validateGaps, UInt64.lt_iff_toNat_lt, ← ih]
      split_ifs with empty order overflow
      · simp [empty]
      · rw [UInt64.le_iff_toNat_le] at order
        simp [order]
      · simp [overflow]
      · rw [UInt64.le_iff_toNat_le] at order
        simp [empty, Nat.lt_of_not_le order, Nat.lt_of_not_le overflow]

/-- No gap of a snapshot that is valid is empty, and all its numbers are words. -/
theorem validateGaps_mem {floor : UInt64} {gs : List Gap} (h : validateGaps floor gs = .ok ()) :
    ∀ g ∈ gs, g.len.toNat ≠ 0 ∧ g.start.toNat + g.len.toNat ≤ UInt64.size := by
  intro g hg
  have ordered := validateGaps_eq_ok.mp h
  have positive := len_toNat_ne_zero.mpr (numbers_nonempty.mp (ordered.full g hg))
  have word := ordered.words g hg (g.start.toNat + (g.len.toNat - 1)) (mem_numbers.mpr (by omega))
  exact ⟨positive, by omega⟩

/-- No number is in two gaps that are in order. -/
theorem InOrder.inGap_iff {s : Snapshot} (h : s.InOrder) (n : UInt64) :
    s.inGap n = true ↔ ∃! i : Fin s.gaps.length, n.toNat ∈ (s.gaps.get i).numbers := by
  rw [inGap, List.any_eq_true]
  constructor
  · rintro ⟨g, hg, covers⟩
    obtain ⟨i, rfl⟩ := List.get_of_mem hg
    have within := mem_numbers.mpr (Gap.covers_iff.mp covers)
    refine ⟨i, within, fun j other => ?_⟩
    have apart (k l : Fin s.gaps.length) (lt : k.val < l.val) {m : ℕ}
        (hk : m ∈ (s.gaps.get k).numbers) : m ∉ (s.gaps.get l).numbers := fun hl =>
      Set.eq_empty_iff_forall_notMem.mp
        (List.pairwise_iff_getElem.mp h.disjoint k l k.isLt l.isLt lt) m ⟨hk, hl⟩
    rcases Nat.lt_trichotomy j.val i.val with lt | same | lt
    · exact absurd within (apart j i lt other)
    · exact Fin.ext same
    · exact absurd other (apart i j lt within)
  · rintro ⟨i, within, -⟩
    exact ⟨_, List.get_mem s.gaps i, Gap.covers_iff.mpr (mem_numbers.mp within)⟩

end Snapshot
end SegmentLog
