import Mathlib.Data.Nat.Notation
import SegmentLog.Log

/-!
# Pins are counted

A ledger moves one pin at a time, which `count_movePin` says for each segment. A release stops at
the lowest pin, so it passes no segment that is pinned: `releaseLimit_le`.
-/
namespace SegmentLog

namespace Pins
variable {pins : Pins} {k : ℕ}

theorem sorted_insert (h : pins.Sorted) (segment n : ℕ) : (pins.insert segment n).Sorted :=
  h.insert Nat.lt_trans (by omega) ..

theorem sorted_pin (h : pins.Sorted) (segment : ℕ) : (pins.pin segment).Sorted :=
  sorted_insert h ..

theorem sorted_unpin (h : pins.Sorted) (segment : ℕ) : (pins.unpin segment).Sorted := by
  unfold unpin
  split
  · exact h.erase segment
  · exact sorted_insert h ..

/-- A pinned segment is not below the lowest one. -/
theorem lowest_le (h : pins.Sorted) (held : 0 < pins.count k) :
    ∃ lowest, pins.lowest? = some lowest ∧ lowest ≤ k := by
  cases pins with
  | nil => exact absurd held (by simp [count])
  | cons e pins =>
      obtain ⟨above, -⟩ := List.pairwise_cons.mp h
      refine ⟨e.1, rfl, ?_⟩
      by_cases first : e.1 = k
      · exact Nat.le_of_eq first
      · rw [count, Table.get?_cons, if_neg first] at held
        cases found : Table.get? pins k with
        | none =>
            rw [found] at held
            exact absurd held (by simp)
        | some n =>
            obtain ⟨e', there, -⟩ := Option.map_eq_some_iff.mp found
            have lt := above e' (List.mem_of_find?_eq_some there)
            have same := List.find?_some there
            rw [of_decide_eq_true same] at lt
            exact Nat.le_of_lt lt

/-- How many pins on a segment belong to a holder of this one. -/
def share (held : Option ℕ) (k : ℕ) : ℕ := if held = some k then 1 else 0

end Pins

/-- Releasing stops at a pinned segment. -/
theorem Log.releaseLimit_le {log : Log} {k : ℕ} (h : log.ledger.pins.Sorted)
    (held : 0 < log.ledger.pins.count k) (segment : ℕ) : log.releaseLimit segment ≤ k := by
  obtain ⟨lowest, first, le⟩ := Pins.lowest_le h held
  unfold releaseLimit
  rw [first]
  exact Nat.le_trans (Nat.min_le_right _ _) le

namespace Ledger
open Pins
variable {l : Ledger}

theorem count_movePin (l : Ledger) (old new : Option ℕ) (k : ℕ) :
    (l.movePin old new).pins.count k = l.pins.count k + share new k - share old k := by
  cases old <;> cases new <;>
    simp [movePin, share, Ledger.pin, Ledger.unpin, count_pin, count_unpin]

theorem sorted_movePin (h : l.pins.Sorted) (old new : Option ℕ) :
    (l.movePin old new).pins.Sorted := by
  have taken : (new.elim l l.pin).pins.Sorted := by
    cases new with
    | none => exact h
    | some segment => exact sorted_pin h segment
  cases old with
  | none => exact taken
  | some segment => exact sorted_unpin taken segment

/-- Following a session moves its pin. -/
theorem exists_movePin_follow (l : Ledger) (before : Session) (r : Reading) :
    ∃ l' : Ledger, l'.pins = l.pins ∧
      l.follow before r = l'.movePin before.current? r.session.current? := by
  have figures : ∀ (items : List (Pointer × Record)) (l : Ledger),
      (items.foldl (fun l item => l.count (·.replayed item.1.length)) l).pins = l.pins := by
    intro items
    induction items with
    | nil => exact fun _ => rfl
    | cons item items ih => exact fun l => ih _
  refine ⟨_, ?_, rfl⟩
  split
  · exact figures ..
  · exact figures ..

theorem count_follow (l : Ledger) (before : Session) (r : Reading) (k : ℕ) :
    (l.follow before r).pins.count k =
      l.pins.count k + share r.session.current? k - share before.current? k := by
  obtain ⟨l', same, moved⟩ := l.exists_movePin_follow before r
  rw [moved, count_movePin, same]

theorem sorted_follow (h : l.pins.Sorted) (before : Session) (r : Reading) :
    (l.follow before r).pins.Sorted := by
  obtain ⟨l', same, moved⟩ := l.exists_movePin_follow before r
  rw [moved]
  exact sorted_movePin (same ▸ h) ..

end Ledger

end SegmentLog
