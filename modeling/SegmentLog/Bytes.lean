/-!
# Byte sequences

Byte strings are lists, so that what is written and what is read back are the same kind of
thing. This module has the two ways in which bytes are touched: numbers of a fixed width,
least significant byte first, and overwriting part of a sequence whose missing bytes are zero.

Bytes are recovered from the number they stand for: `toLE_ofLE`. Writing into a file, which fills a
hole, and replacing bytes in memory, where room is made first, come to the same: `put_eq_overwrite`.
-/

namespace SegmentLog

abbrev Bytes := List UInt8

namespace Bytes

/-- The `width` low bytes of `n`, least significant first. -/
def toLE : (width n : Nat) → Bytes
  | 0, _ => []
  | width + 1, n => UInt8.ofNat n :: toLE width (n / 256)

/-- The number whose bytes are given, least significant first. -/
def ofLE : Bytes → Nat
  | [] => 0
  | b :: bs => b.toNat + 256 * ofLE bs

@[simp] theorem length_toLE (width n : Nat) : (toLE width n).length = width := by
  induction width generalizing n with
  | zero => rfl
  | succ width ih => simp [toLE, ih]

theorem toLE_ofLE (bs : Bytes) : toLE bs.length (ofLE bs) = bs := by
  induction bs with
  | nil => rfl
  | cons b bs ih =>
    have hb := b.toNat_lt
    have hdiv : (b.toNat + 256 * ofLE bs) / 256 = ofLE bs := by omega
    have hlow : UInt8.ofNat (b.toNat + 256 * ofLE bs) = b := by
      apply UInt8.toNat.inj
      simp only [UInt8.toNat_ofNat']
      omega
    simp only [List.length_cons, ofLE, toLE, hdiv, hlow, ih]

/-- The `len` bytes from `offset` on, fewer where the sequence ends. -/
def slice (bs : Bytes) (offset len : Nat) : Bytes :=
  (bs.drop offset).take len

/-- Cut or fill up with zeros to exactly `len` bytes. -/
def resize (bs : Bytes) (len : Nat) : Bytes :=
  bs.take len ++ List.replicate (len - bs.length) 0

/-- Put `data` at `offset`; a hole between the old end and `offset` becomes zeros. -/
def overwrite (bs : Bytes) (offset : Nat) (data : Bytes) : Bytes :=
  resize bs offset ++ data ++ bs.drop (offset + data.length)

/-- Put `data` in place of what is at `offset`, once there are bytes enough. -/
def put (bs : Bytes) (offset : Nat) (data : Bytes) : Bytes :=
  let stop := offset + data.length
  let bs := if bs.length < stop then bs.resize stop else bs
  bs.take offset ++ data ++ bs.drop stop

theorem length_slice {bs : Bytes} {offset len : Nat} (h : offset + len ≤ bs.length) :
    (slice bs offset len).length = len := by
  simp only [slice, List.length_take, List.length_drop]
  omega

@[simp] theorem length_resize (bs : Bytes) (len : Nat) : (resize bs len).length = len := by
  simp only [resize, List.length_append, List.length_take, List.length_replicate]
  omega

@[simp] theorem length_overwrite (bs : Bytes) (offset : Nat) (data : Bytes) :
    (overwrite bs offset data).length = max bs.length (offset + data.length) := by
  simp only [overwrite, List.length_append, length_resize, List.length_drop]
  omega

theorem resize_of_le {bs : Bytes} {len : Nat} (h : len ≤ bs.length) :
    resize bs len = bs.take len := by
  rw [resize, Nat.sub_eq_zero_of_le h, List.replicate_zero, List.append_nil]

theorem resize_of_ge {bs : Bytes} {len : Nat} (h : bs.length ≤ len) :
    resize bs len = bs ++ List.replicate (len - bs.length) 0 := by
  rw [resize, List.take_of_length_le h]

theorem resize_length_self (bs : Bytes) : resize bs bs.length = bs := by
  simp [resize]

theorem take_resize (bs : Bytes) {m n : Nat} (h : m ≤ n) : (resize bs n).take m = resize bs m := by
  simp only [resize, List.take_append, List.length_take, List.take_take, List.take_replicate]
  congr 2
  · omega
  · omega

/-- Growing before the bytes are replaced comes to the same as filling the hole. -/
theorem put_eq_overwrite (bs : Bytes) (offset : Nat) (data : Bytes) :
    put bs offset data = overwrite bs offset data := by
  simp only [put, overwrite]
  split
  · next short =>
    rw [take_resize bs (Nat.le_add_right ..), List.drop_eq_nil_of_le (by simp),
      List.drop_eq_nil_of_le (by omega)]
  · next enough => rw [resize_of_le (by omega)]

/-- Writing at the end appends. -/
theorem overwrite_length_self (bs data : Bytes) :
    overwrite bs bs.length data = bs ++ data := by
  simp [overwrite, resize_length_self]

end Bytes

end SegmentLog
