import Mathlib.Data.List.Sort
import Mathlib.Order.Bounds.Basic
import SegmentLog.Proofs.Ledger.Pins

/-!
# Pin tables without idle entries

A pin table is `Tidy` if its segments ascend and each of them has pins. Taking and giving up pins
keeps it so, and a pin that is taken and given up again leaves the very table. In a tidy table the
entries are just the segments that are held, so a release stops at the lowest of these.
-/
namespace SegmentLog

namespace Table
variable {κ α : Type} [DecidableEq κ]

theorem get?_eq_some_iff [Preorder κ] {t : Table κ α} (h : t.Sorted) {k : κ} {a : α} :
    t.get? k = some a ↔ (k, a) ∈ t := by
  induction t with
  | nil => simp
  | cons e es ih =>
      obtain ⟨above, sorted⟩ := List.pairwise_cons.mp h
      rw [get?_cons, List.mem_cons]
      split
      · rename_i here
        subst here
        constructor
        · rintro ⟨⟩
          exact .inl rfl
        · rintro (same | later)
          · rw [← same]
          · exact absurd (above _ later) (lt_irrefl _)
      · rename_i other
        rw [ih sorted, or_iff_right]
        rintro rfl
        exact other rfl

theorem mem_insert [LT κ] [DecidableLT κ] {t : Table κ α} {k : κ} {a : α} {e : κ × α}
    (h : e ∈ t.insert k a) : e = (k, a) ∨ e ∈ t := by
  induction t with
  | nil => exact .inl (List.mem_singleton.mp h)
  | cons e' es ih =>
      unfold insert at h
      split at h
      · exact (List.mem_cons.mp h).imp_right id
      split at h
      · exact (List.mem_cons.mp h).imp_right (List.mem_cons_of_mem _)
      · rcases List.mem_cons.mp h with rfl | h
        · exact .inr List.mem_cons_self
        · exact (ih h).imp_right (List.mem_cons_of_mem _)

end Table

namespace Pins
variable {pins pins' : Pins} {k segment : ℕ}

/-- The segments ascend, and each has pins. -/
structure Tidy (pins : Pins) : Prop where
  sorted : pins.Sorted
  held : ∀ e ∈ pins, 0 < e.2

theorem tidy_nil : Tidy [] := ⟨List.Pairwise.nil, nofun⟩

theorem Tidy.mem_iff (h : pins.Tidy) {n : ℕ} : (k, n) ∈ pins ↔ 0 < n ∧ pins.count k = n := by
  rw [← Table.get?_eq_some_iff h.sorted, count]
  constructor
  · intro found
    rw [found]
    exact ⟨h.held _ ((Table.get?_eq_some_iff h.sorted).mp found), rfl⟩
  · rintro ⟨some_pin, rfl⟩
    cases found : Table.get? pins k with
    | none =>
        rw [found] at some_pin
        exact absurd some_pin (lt_irrefl _)
    | some n => rfl

/-- A tidy table is what it counts. -/
theorem Tidy.ext (h : pins.Tidy) (h' : pins'.Tidy) (same : ∀ k, pins.count k = pins'.count k) :
    pins = pins' := by
  have : Std.Antisymm fun a b : ℕ × ℕ => a.1 < b.1 :=
    ⟨fun _ _ lt lt' => absurd lt' (Nat.lt_asymm lt)⟩
  have : Std.Irrefl fun a b : ℕ × ℕ => a.1 < b.1 := ⟨fun _ => Nat.lt_irrefl _⟩
  refine List.Pairwise.eq_of_mem_iff h.sorted h'.sorted fun e => ?_
  rw [show e = (e.1, e.2) from rfl, h.mem_iff, h'.mem_iff, same]

theorem Tidy.pin (h : pins.Tidy) (segment : ℕ) : (pins.pin segment).Tidy := by
  refine ⟨sorted_pin h.sorted segment, fun e mem => ?_⟩
  rcases Table.mem_insert mem with rfl | mem
  · exact Nat.succ_pos _
  · exact h.held e mem

theorem Tidy.unpin (h : pins.Tidy) (segment : ℕ) : (pins.unpin segment).Tidy := by
  refine ⟨sorted_unpin h.sorted segment, fun e mem => ?_⟩
  unfold Pins.unpin at mem
  split at mem
  · exact h.held e (List.mem_filter.mp mem).1
  · rename_i several
    rcases Table.mem_insert mem with rfl | mem
    · dsimp only
      omega
    · exact h.held e mem

/-- A pin that is given up again leaves no trace. -/
theorem Tidy.unpin_pin (h : pins.Tidy) (segment : ℕ) : (pins.pin segment).unpin segment = pins := by
  refine ((h.pin segment).unpin segment).ext h fun k => ?_
  rw [count_unpin, count_pin]
  omega

theorem Tidy.isPinned_iff (h : pins.Tidy) : pins.isPinned k = true ↔ 0 < pins.count k := by
  rw [isPinned, Table.contains, Option.isSome_iff_exists]
  constructor
  · rintro ⟨n, found⟩
    obtain ⟨some_pin, same⟩ := h.mem_iff.mp ((Table.get?_eq_some_iff h.sorted).mp found)
    omega
  · intro some_pin
    exact ⟨_, (Table.get?_eq_some_iff h.sorted).mpr (h.mem_iff.mpr ⟨some_pin, rfl⟩)⟩

/-- The lowest segment in use, if there is one. -/
theorem Tidy.lowest (h : pins.Tidy) :
    (pins.lowest? = none ∧ ∀ k, pins.count k = 0) ∨
      ∃ lowest, pins.lowest? = some lowest ∧ IsLeast {k | 0 < pins.count k} lowest := by
  cases found : pins.lowest? with
  | none =>
      refine .inl ⟨rfl, fun k => Nat.eq_zero_of_not_pos fun held => ?_⟩
      obtain ⟨lowest, there, -⟩ := lowest_le h.sorted held
      rw [found] at there
      cases there
  | some lowest =>
      refine .inr ⟨lowest, rfl, ?_, fun k held => ?_⟩
      · obtain ⟨e, first, rfl⟩ := Option.map_eq_some_iff.mp found
        have mem : (e.1, e.2) ∈ pins := List.mem_of_head? first
        obtain ⟨some_pin, same⟩ := h.mem_iff.mp mem
        change 0 < pins.count e.1
        rwa [same]
      · obtain ⟨lowest', there, le⟩ := lowest_le h.sorted held
        cases found.symm.trans there
        exact le

end Pins

/-- A release is to pass the segments before the given one and the newest that stand before all that
are held. -/
theorem Log.lt_releaseLimit_iff {log : Log} (h : log.ledger.pins.Tidy) (segment k : ℕ) :
    k < log.releaseLimit segment ↔
      k < segment ∧ k < log.active.segment ∧ ∀ held ≤ k, log.ledger.pins.count held = 0 := by
  unfold releaseLimit
  rcases h.lowest with ⟨nobody, free⟩ | ⟨lowest, first, holds, least⟩
  · rw [nobody]
    dsimp only [Option.elim]
    simp [free]
  · rw [first]
    dsimp only [Option.elim]
    have below : k < lowest ↔ ∀ held ≤ k, log.ledger.pins.count held = 0 := by
      constructor
      · intro lt held le
        by_contra some_pin
        have := least (Nat.pos_of_ne_zero some_pin)
        omega
      · intro free
        by_contra le
        have := free lowest (Nat.le_of_not_lt le)
        exact absurd holds (by simp [this])
    rw [← below]
    omega

namespace Ledger
variable {l : Ledger}

theorem tidy_movePin (h : l.pins.Tidy) (old new : Option ℕ) : (l.movePin old new).pins.Tidy := by
  have taken : (new.elim l l.pin).pins.Tidy := by
    cases new with
    | none => exact h
    | some segment => exact h.pin segment
  cases old with
  | none => exact taken
  | some segment => exact taken.unpin segment

theorem tidy_follow (h : l.pins.Tidy) (before : Session) (r : Reading) :
    (l.follow before r).pins.Tidy := by
  obtain ⟨l', same, moved⟩ := l.exists_movePin_follow before r
  rw [moved]
  exact tidy_movePin (same ▸ h) ..

end Ledger
end SegmentLog
