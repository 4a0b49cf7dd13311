import Mathlib.Data.List.Basic
import SegmentLog.Directory.SegmentName

/-!
# Segment names are read back

The name of a segment stands for its index, as long as that has 64 bits (`index?_ofIndex`). Names of
different segments differ whatever their size, and no segment has a temporary name.
-/
namespace SegmentLog

namespace Numeral

theorem digit?_of_isDigit {c : Char} (h : c.isDigit = true) :
    digit? c = some (c.toNat - '0'.toNat) := by
  rw [digit?, if_pos]
  simpa [Char.isDigit, Char.le_def] using h

theorem foldlM_of_isDigit {cs : List Char} (h : ∀ c ∈ cs, c.isDigit = true) (value : ℕ) :
    cs.foldlM (fun value d => (digit? d).map (10 * value + ·)) value =
      some (Nat.ofDigitChars 10 cs value) := by
  induction cs generalizing value with
  | nil => rfl
  | cons c cs ih =>
      obtain ⟨head, tail⟩ := List.forall_mem_cons.mp h
      rw [List.foldlM_cons, digit?_of_isDigit head]
      exact ih tail _

theorem ofDigitChars_zeros (count : ℕ) (cs : List Char) :
    Nat.ofDigitChars 10 (List.replicate count '0' ++ cs) 0 = Nat.ofDigitChars 10 cs 0 := by
  induction count with
  | zero => rfl
  | succ count ih =>
      rw [List.replicate_succ, List.cons_append]
      exact ih

theorem isDigit_of_mem_padded {width n : ℕ} {c : Char} (h : c ∈ padded 10 width n) :
    c.isDigit = true := by
  rcases List.mem_append.mp h with h | h
  · rw [List.eq_of_mem_replicate h]
    rfl
  · exact Nat.isDigit_of_mem_toDigits (by decide) (by decide) h

theorem padded_ne_nil (width n : ℕ) : padded 10 width n ≠ [] :=
  List.append_ne_nil_of_right_ne_nil _ Nat.toDigits_ne_nil

/-- A number is read back from its digits. -/
theorem digits?_padded (width n : ℕ) : digits? (padded 10 width n) = some n := by
  have value := foldlM_of_isDigit (fun _ => @isDigit_of_mem_padded width n _) 0
  rw [padded, ofDigitChars_zeros, Nat.ofDigitChars_ten_toDigits, ← padded] at value
  cases h : padded 10 width n with
  | nil => exact absurd h (padded_ne_nil width n)
  | cons c cs => rwa [h] at value

theorem unsigned?_padded {limit n : ℕ} (h : n < limit) (width : ℕ) :
    unsigned? limit (padded 10 width n) = some n := by
  have unsigned : unsigned? limit (padded 10 width n) =
      (digits? (padded 10 width n)).filter (· < limit) := by
    unfold unsigned?
    dsimp only
    split
    · rename_i rest sign
      -- a sign is no digit
      have := isDigit_of_mem_padded (sign ▸ List.mem_cons_self)
      exact absurd this (by decide)
    · rfl
  rw [unsigned, digits?_padded]
  simpa using h

end Numeral

namespace SegmentName

theorem toList_ofIndex (index : ℕ) :
    (ofIndex index).toList = front ++ Numeral.padded 10 16 index ++ back := by
  rw [ofIndex, String.toList_ofList]

theorem toList_temporary (index : ℕ) :
    (temporary index).toList = front ++ Numeral.padded 10 16 index ++ back ++ temporaryBack := by
  rw [temporary, String.toList_append, toList_ofIndex, String.toList_ofList]

/-- A name stands for its index. -/
theorem index?_ofIndex {index : ℕ} (h : index < UInt64.size) :
    index? (ofIndex index) = some index := by
  have rest : front.isPrefixOf? (ofIndex index).toList =
      some (Numeral.padded 10 16 index ++ back) := by
    rw [List.isPrefixOf?_eq_some_iff_append_eq, toList_ofIndex, List.append_assoc]
  have digits : back.isSuffixOf? (Numeral.padded 10 16 index ++ back) =
      some (Numeral.padded 10 16 index) := List.isSuffixOf?_eq_some_iff_append_eq.mpr rfl
  simp only [index?, rest, digits, Option.bind_eq_bind, Option.bind_some]
  exact Numeral.unsigned?_padded h 16

theorem ofIndex_inj {i j : ℕ} (h : ofIndex i = ofIndex j) : i = j := by
  have same := congrArg String.toList h
  rw [toList_ofIndex, toList_ofIndex, List.append_assoc, List.append_assoc] at same
  have digits := List.append_cancel_right (List.append_cancel_left same)
  have := congrArg Numeral.digits? digits
  rw [Numeral.digits?_padded, Numeral.digits?_padded] at this
  exact Option.some.inj this

theorem temporary_ne_ofIndex (i j : ℕ) : temporary i ≠ ofIndex j := by
  intro h
  have last := congrArg (·.toList.getLast?) h
  simp [toList_temporary, toList_ofIndex, back, temporaryBack] at last

end SegmentName
end SegmentLog
