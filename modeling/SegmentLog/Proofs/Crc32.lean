import Mathlib.Logic.Function.Basic
import SegmentLog.Crc32
import SegmentLog.Proofs.Record.Scan

/-!
# A changed byte changes the check

The divisor has its top bit set, and a register that was shifted has not, so the bit that was
shifted out can be told from the result: no two registers become one. Each byte that goes into a
register therefore keeps different registers different, and different bytes make them so
(`step_injective`, `step_right_injective`). Bytes that end in their own check do so no longer after
one byte was changed, be it of the check itself: `Checked.not_set`.

Nothing is said about two changed bytes, or about bytes that are missing.
-/
namespace SegmentLog.Crc32

/-! ## One bit, eight bits, one byte -/

theorem low_iff (register : UInt32) : register &&& 1 = 1 ↔ register.toNat % 2 = 1 := by
  rw [← UInt32.toNat_inj, UInt32.toNat_and]
  exact iff_of_eq (congrArg (· = 1) (Nat.and_one_is_mod register.toNat))

theorem toNat_half (register : UInt32) : (register >>> 1).toNat = register.toNat / 2 := by
  rw [UInt32.toNat_shiftRight]
  exact Nat.shiftRight_eq_div_pow register.toNat 1

theorem eq_of_half {x y : UInt32} (low : x &&& 1 = 1 ↔ y &&& 1 = 1) (half : x >>> 1 = y >>> 1) :
    x = y := by
  rw [low_iff, low_iff] at low
  have half := congrArg UInt32.toNat half
  rw [toNat_half, toNat_half] at half
  apply UInt32.toNat.inj
  omega

/-- The top bit tells whether the divisor was taken out. -/
theorem half_xor_ne (x y : UInt32) : ((x >>> 1) ^^^ 0xedb88320 : UInt32) ≠ y >>> 1 := by
  intro h
  have divisor : (x >>> 1) ^^^ (y >>> 1) = 0xedb88320 := by
    rw [← h, ← UInt32.xor_assoc, UInt32.xor_self, UInt32.zero_xor]
  have small (z : UInt32) : (z >>> 1).toNat < 2 ^ 31 := by
    have := z.toNat_lt
    rw [toNat_half]
    omega
  have bound := Nat.xor_lt_two_pow (small x) (small y)
  rw [← UInt32.toNat_xor, divisor] at bound
  exact absurd bound (by decide)

theorem shiftBit_injective : Function.Injective shiftBit := by
  intro x y h
  unfold shiftBit at h
  split at h
  · rename_i hx
    split at h
    · rename_i hy
      exact eq_of_half (iff_of_true hx hy) ((UInt32.xor_left_inj _).mp h)
    · exact absurd h (half_xor_ne x y)
  · rename_i hx
    split at h
    · exact absurd h.symm (half_xor_ne y x)
    · rename_i hy
      exact eq_of_half (iff_of_false hx hy) h

theorem shiftByte_injective : Function.Injective shiftByte := by
  have twice {f : UInt32 → UInt32} (h : Function.Injective f) : Function.Injective (f ∘ f) :=
    h.comp h
  exact twice (twice (twice shiftBit_injective))

theorem step_injective (byte : UInt8) : Function.Injective (step · byte) := by
  intro x y h
  exact (UInt32.xor_left_inj _).mp (shiftByte_injective h)

theorem step_right_injective (register : UInt32) : Function.Injective (step register) := by
  intro a b h
  exact UInt8.toUInt32_inj.mp ((UInt32.xor_right_inj _).mp (shiftByte_injective h))

/-! ## Many bytes -/

theorem update_injective (bytes : Bytes) : Function.Injective (update · bytes) := by
  induction bytes with
  | nil => exact fun _ _ h => h
  | cons byte bytes ih => exact ih.comp (step_injective byte)

variable {bytes : Bytes} {i : ℕ} {a b : UInt8}

theorem update_set_ne (register : UInt32) (there : bytes[i]? = some a) (changed : a ≠ b) :
    update register (bytes.set i b) ≠ update register bytes := by
  induction bytes generalizing register i with
  | nil => cases there
  | cons byte bytes ih =>
      cases i with
      | zero =>
          cases there
          intro h
          exact changed.symm (step_right_injective register (update_injective bytes h))
      | succ i => exact ih (step register byte) there

theorem checksum_set_ne (there : bytes[i]? = some a) (changed : a ≠ b) :
    checksum (bytes.set i b) ≠ checksum bytes := by
  intro h
  exact update_set_ne _ there changed ((UInt32.not_inj).mp h)

/-! ## Bytes that end in their check -/

/-- The last four bytes are the check of the others. -/
def Checked (bytes : Bytes) : Prop :=
  ∃ front, bytes = front ++ Bytes.toLE 4 (checksum front).toNat

/-- One changed byte is noticed, wherever it is. -/
theorem Checked.not_set (h : Checked bytes) (there : bytes[i]? = some a) (changed : a ≠ b) :
    ¬Checked (bytes.set i b) := by
  obtain ⟨front, rfl⟩ := h
  rintro ⟨front', same⟩
  have length : front.length = front'.length := by
    have := congrArg List.length same
    simpa using this
  rw [List.set_append] at same
  split at same
  · -- in the bytes that are checked
    rename_i inside
    obtain ⟨rfl, check⟩ := List.append_inj same (by rw [List.length_set, length])
    rw [List.getElem?_append_left inside] at there
    have equal := congrArg (UInt32.ofNat ∘ Bytes.ofLE) check
    simp only [Function.comp_apply, Bytes.ofNat_ofLE_word32] at equal
    exact checksum_set_ne there changed equal.symm
  · -- in the check
    rename_i behind
    obtain ⟨rfl, check⟩ := List.append_inj same length
    rw [List.getElem?_append_right (Nat.le_of_not_lt behind)] at there
    have within := (List.getElem?_eq_some_iff.mp there).1
    rw [← check, List.getElem?_set_self within] at there
    exact changed (Option.some.inj there).symm

end SegmentLog.Crc32
