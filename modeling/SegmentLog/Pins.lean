import SegmentLog.Table

/-!
# Pins

How many holders keep each segment of a log from being released. A segment that nobody holds has
no entry, so the first entry is the lowest segment in use.
-/

namespace SegmentLog

abbrev Pins := Table Nat Nat

namespace Pins

def count (pins : Pins) (segment : Nat) : Nat :=
  (pins.get? segment).getD 0

def isPinned (pins : Pins) (segment : Nat) : Bool :=
  pins.contains segment

def lowest? (pins : Pins) : Option Nat :=
  pins.first?.map (·.1)

def pin (pins : Pins) (segment : Nat) : Pins :=
  pins.insert segment (pins.count segment + 1)

/-- Give up one pin; the last one takes the entry with it. -/
def unpin (pins : Pins) (segment : Nat) : Pins :=
  if pins.count segment ≤ 1 then pins.erase segment
  else pins.insert segment (pins.count segment - 1)

theorem count_pin (pins : Pins) (segment other : Nat) :
    (pins.pin segment).count other = pins.count other + if segment = other then 1 else 0 := by
  by_cases h : segment = other
  · simp [count, pin, Table.get?_insert, h]
  · simp [count, pin, Table.get?_insert, h]

theorem count_unpin (pins : Pins) (segment other : Nat) :
    (pins.unpin segment).count other = pins.count other - if segment = other then 1 else 0 := by
  unfold unpin
  split
  · by_cases h : segment = other
    · subst h
      simp only [count, Table.get?_erase] at *
      simp
      omega
    · have h' : ¬other = segment := fun e => h e.symm
      simp [count, Table.get?_erase, h, h']
  · by_cases h : segment = other
    · simp [count, Table.get?_insert, h]
    · simp [count, Table.get?_insert, h]

end Pins

end SegmentLog
