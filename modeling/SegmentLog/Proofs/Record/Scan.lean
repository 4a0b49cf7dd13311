import Mathlib.Algebra.Group.Nat.Defs
import Mathlib.Data.List.Basic
import SegmentLog.Record.Payload

/-!
# Reading back what was written

A scan reads some bytes as a value if, whatever follows them, it gives the value and leaves what
follows. Scans in sequence read bytes in sequence, so a field is dealt with once and a record is
put together from its fields. Nothing is said here about bytes that were not written.
-/
namespace SegmentLog

namespace Bytes

theorem slice_append (front : Bytes) {bs rest : Bytes} {offset len : ℕ} (ho : front.length = offset)
    (hl : bs.length = len) : slice (front ++ (bs ++ rest)) offset len = bs := by
  subst ho hl
  simp [slice]

theorem slice_zero {bs rest : Bytes} {len : ℕ} (hl : bs.length = len) :
    slice (bs ++ rest) 0 len = bs :=
  slice_append [] rfl hl

/-- A number keeps what fits its width. -/
theorem ofLE_toLE (width n : ℕ) : ofLE (toLE width n) = n % 256 ^ width := by
  induction width generalizing n with
  | zero => simp [toLE, ofLE, Nat.mod_one]
  | succ width ih =>
      have low : (UInt8.ofNat n).toNat = n % 256 := by simp
      rw [toLE, ofLE, ih, low, Nat.pow_succ, Nat.mul_comm (256 ^ width) 256, Nat.mod_mul]

theorem ofLE_toLE_of_lt (width : ℕ) {n : ℕ} (h : n < 256 ^ width) : ofLE (toLE width n) = n := by
  rw [ofLE_toLE, Nat.mod_eq_of_lt h]

@[simp] theorem ofNat_ofLE_word32 (w : UInt32) : UInt32.ofNat (ofLE (toLE 4 w.toNat)) = w := by
  rw [ofLE_toLE_of_lt 4 w.toNat_lt]
  exact UInt32.ofNat_toNat

@[simp] theorem ofNat_ofLE_word64 (w : UInt64) : UInt64.ofNat (ofLE (toLE 8 w.toNat)) = w := by
  rw [ofLE_toLE_of_lt 8 w.toNat_lt]
  exact UInt64.ofNat_toNat

end Bytes

namespace Cursor
variable {α β : Type}

/-- The scan takes `bs` for `a` in front of any rest. -/
def Reads (m : Scan α) (bs : Bytes) (a : α) : Prop :=
  ∀ (c : Cursor) (rest : Bytes), c.rest = bs ++ rest →
    m c = .ok (a, { c with position := c.position + bs.length, rest })

theorem Reads.pure (a : α) : Reads (Pure.pure a) [] a := by
  intro c rest h
  cases c
  subst h
  rfl

theorem Reads.bind {m : Scan α} {f : α → Scan β} {bs cs : Bytes} {a : α} {b : β}
    (hm : Reads m bs a) (hf : Reads (f a) cs b) : Reads (m >>= f) (bs ++ cs) b := by
  intro c rest h
  have first := hm c (cs ++ rest) (by rw [h, List.append_assoc])
  have second := hf { c with position := c.position + bs.length, rest := cs ++ rest } rest rfl
  change (m c >>= fun r => f r.1 r.2) = _
  rw [first]
  change f a _ = _
  rw [second, List.length_append, Nat.add_assoc]

/-- The last field of a value. -/
theorem Reads.map {m : Scan α} {bs : Bytes} {a : α} (hm : Reads m bs a) (f : α → β) :
    Reads (m >>= fun a => Pure.pure (f a)) bs (f a) := by
  simpa only [List.append_nil] using hm.bind (f := fun a => Pure.pure (f a)) (Reads.pure (f a))

theorem reads_take (bs : Bytes) : Reads (take bs.length) bs bs := by
  intro c rest h
  simp [take, h]

theorem reads_number (width : ℕ) {n : ℕ} (h : n < 256 ^ width) :
    Reads (number width) (Bytes.toLE width n) n := by
  have taken := (reads_take (Bytes.toLE width n)).map Bytes.ofLE
  rw [Bytes.length_toLE, Bytes.ofLE_toLE_of_lt width h] at taken
  exact taken

theorem reads_byte (b : UInt8) : Reads byte [b] b := by
  have read := (reads_number 1 b.toNat_lt).map UInt8.ofNat
  simp only [Bytes.toLE, UInt8.ofNat_toNat] at read
  exact read

theorem reads_word16 (w : UInt16) : Reads word16 (Bytes.toLE 2 w.toNat) w := by
  have read := (reads_number 2 w.toNat_lt).map UInt16.ofNat
  rwa [UInt16.ofNat_toNat] at read

theorem reads_word32 (w : UInt32) : Reads word32 (Bytes.toLE 4 w.toNat) w := by
  have read := (reads_number 4 w.toNat_lt).map UInt32.ofNat
  rwa [UInt32.ofNat_toNat] at read

theorem reads_word64 (w : UInt64) : Reads word64 (Bytes.toLE 8 w.toNat) w := by
  have read := (reads_number 8 w.toNat_lt).map UInt64.ofNat
  rwa [UInt64.ofNat_toNat] at read

theorem reads_sized {bs : Bytes} (h : bs.length < UInt32.size) :
    Reads sized (Bytes.toLE 4 bs.length ++ bs) bs :=
  (reads_number 4 h).bind (reads_take bs)

theorem reads_format (a : α) : Reads (format (.ok a)) [] a := Reads.pure a

end Cursor

namespace Record
open Cursor

/-- A scan that reads a whole payload finds nothing after it. -/
theorem ofPayload_of_reads {kind : RecordKind} {bs : Bytes} {record : Record}
    (h : Reads (scan kind) bs record) : ofPayload kind bs = .ok record := by
  have whole := h (ofBytes bs) [] (by simp [ofBytes])
  simp only [ofPayload, StateT.run, bind, StateT.bind, Except.bind, whole]
  rfl

end Record
end SegmentLog
