import Mathlib.Data.List.Induction
import SegmentLog.Proofs.Directory.SegmentName

/-!
# Spellings of a segment's index

A file name stands for an index if what is between its two ends is any unsigned decimal of it, with
or without a plus sign and whatever zeros are in front (`index?_eq_some_iff`). The name that a
segment is given is one of the spellings of its index, and the only one of its length that has no
sign (`eq_ofIndex_iff`).
-/
namespace SegmentLog

namespace Numeral

/-- The text is an unsigned decimal of the number: a plus sign or none, and digits after it. -/
def Spells (n : ℕ) (text : List Char) : Prop :=
  ∃ sign digits, text = sign ++ digits ∧ (sign = [] ∨ sign = ['+']) ∧ digits ≠ [] ∧
    (∀ c ∈ digits, c.isDigit = true) ∧ Nat.ofDigitChars 10 digits 0 = n

theorem isDigit_of_digit? {c : Char} {d : ℕ} (h : digit? c = some d) : c.isDigit = true := by
  unfold digit? at h
  split at h
  · rename_i range
    simpa [Char.isDigit, Char.le_def] using range
  · cases h

theorem isDigit_of_foldlM {cs : List Char} {value n : ℕ}
    (h : cs.foldlM (fun value d => (digit? d).map (10 * value + ·)) value = some n) :
    ∀ c ∈ cs, c.isDigit = true := by
  induction cs generalizing value with
  | nil => exact fun c mem => absurd mem List.not_mem_nil
  | cons c cs ih =>
      rw [List.foldlM_cons] at h
      obtain ⟨value', read, later⟩ := Option.bind_eq_some_iff.mp h
      obtain ⟨d, digit, -⟩ := Option.map_eq_some_iff.mp read
      exact List.forall_mem_cons.mpr ⟨isDigit_of_digit? digit, ih later⟩

theorem digits?_eq_some_iff {cs : List Char} {n : ℕ} : digits? cs = some n ↔
    cs ≠ [] ∧ (∀ c ∈ cs, c.isDigit = true) ∧ Nat.ofDigitChars 10 cs 0 = n := by
  cases cs with
  | nil => simp [digits?]
  | cons c cs =>
      rw [digits?]
      constructor
      · intro h
        have digits := isDigit_of_foldlM h
        rw [foldlM_of_isDigit digits, Option.some.injEq] at h
        exact ⟨List.cons_ne_nil _ _, digits, h⟩
      · rintro ⟨-, digits, value⟩
        rw [foldlM_of_isDigit digits, value]

theorem unsigned?_of_digit {c : Char} (digit : c.isDigit = true) (limit : ℕ) (cs : List Char) :
    unsigned? limit (c :: cs) = (digits? (c :: cs)).filter (· < limit) := by
  unfold unsigned?
  split
  · rename_i rest sign
    cases sign
    exact absurd digit (by decide)
  · rfl

/-- A text is read as a number if it is an unsigned decimal of it. -/
theorem unsigned?_eq_some_iff {limit n : ℕ} {text : List Char} :
    unsigned? limit text = some n ↔ Spells n text ∧ n < limit := by
  constructor
  · intro h
    obtain ⟨value, small⟩ := Option.filter_eq_some_iff.mp h
    refine ⟨?_, of_decide_eq_true small⟩
    split at value
    · rename_i rest
      exact ⟨['+'], rest, rfl, .inr rfl, digits?_eq_some_iff.mp value⟩
    · exact ⟨[], text, rfl, .inl rfl, digits?_eq_some_iff.mp value⟩
  · rintro ⟨⟨sign, digits, rfl, signs, read⟩, small⟩
    have value := digits?_eq_some_iff.mpr read
    rcases signs with rfl | rfl
    · cases digits with
      | nil => exact absurd rfl read.1
      | cons c cs =>
          rw [List.nil_append, unsigned?_of_digit (read.2.1 c List.mem_cons_self), value]
          simpa using small
    · change (digits? digits).filter (· < limit) = some n
      rw [value]
      simpa using small

theorem ofDigitChars_concat (cs : List Char) (c : Char) :
    Nat.ofDigitChars 10 (cs ++ [c]) 0 = 10 * Nat.ofDigitChars 10 cs 0 + (c.toNat - '0'.toNat) := by
  rw [Nat.ofDigitChars, List.foldl_append]
  rfl

theorem toNat_of_isDigit {c : Char} (h : c.isDigit = true) : 48 ≤ c.toNat ∧ c.toNat < 58 := by
  simp only [Char.isDigit, Bool.and_eq_true, decide_eq_true_eq, UInt32.le_iff_toNat_le] at h
  exact ⟨h.1, Nat.lt_succ_of_le h.2⟩

/-- A number has one row of digits of each length. -/
theorem eq_of_ofDigitChars_eq {cs ds : List Char} (hc : ∀ c ∈ cs, c.isDigit = true)
    (hd : ∀ d ∈ ds, d.isDigit = true) (length : cs.length = ds.length)
    (value : Nat.ofDigitChars 10 cs 0 = Nat.ofDigitChars 10 ds 0) : cs = ds := by
  -- on the last digit, which is what the number leaves when it is divided by ten
  induction cs using List.reverseRecOn generalizing ds with
  | nil => exact (List.length_eq_zero_iff.mp length.symm).symm
  | append_singleton cs c ih =>
      rcases List.eq_nil_or_concat ds with rfl | ⟨ds, d, rfl⟩
      · simp at length
      rw [List.concat_eq_append] at *
      rw [ofDigitChars_concat, ofDigitChars_concat] at value
      have last := toNat_of_isDigit (hc c (by simp))
      have last' := toNat_of_isDigit (hd d (by simp))
      have zero : '0'.toNat = 48 := rfl
      have front : cs = ds := ih (fun c mem => hc c (List.mem_append_left _ mem))
        (fun d mem => hd d (List.mem_append_left _ mem)) (by simpa using length) (by omega)
      have same : c = d := Char.toNat_inj.mp (by omega)
      rw [front, same]

end Numeral

namespace SegmentName

/-- The name stands for the index: there is a 64-bit decimal of it between the two ends. -/
def Spells (index : ℕ) (name : String) : Prop :=
  ∃ text, name.toList = front ++ text ++ back ∧ Numeral.Spells index text ∧ index < UInt64.size

/-- What names are read as. -/
theorem index?_eq_some_iff {name : String} {index : ℕ} :
    index? name = some index ↔ Spells index name := by
  simp only [index?, Option.bind_eq_bind, Option.bind_eq_some_iff,
    List.isPrefixOf?_eq_some_iff_append_eq, List.isSuffixOf?_eq_some_iff_append_eq,
    Numeral.unsigned?_eq_some_iff]
  constructor
  · rintro ⟨_, name_eq, text, rfl, spelled, small⟩
    exact ⟨text, by rw [← name_eq, List.append_assoc], spelled, small⟩
  · rintro ⟨text, name_eq, spelled, small⟩
    exact ⟨_, by rw [name_eq, List.append_assoc], text, rfl, spelled, small⟩

/-- A segment's own name is the only spelling of its index that has its length and no sign. -/
theorem eq_ofIndex_iff {index : ℕ} (small : index < UInt64.size) {name : String} :
    name = ofIndex index ↔
      Spells index name ∧ name.length = (ofIndex index).length ∧ '+' ∉ name.toList := by
  have digits (c : Char) := @Numeral.isDigit_of_mem_padded 16 index c
  constructor
  · rintro rfl
    refine ⟨index?_eq_some_iff.mp (index?_ofIndex small), rfl, ?_⟩
    rw [toList_ofIndex]
    intro mem
    rcases List.mem_append.mp mem with mem | mem
    · rcases List.mem_append.mp mem with mem | mem
      · exact absurd mem (by decide)
      · exact absurd (digits _ mem) (by decide)
    · exact absurd mem (by decide)
  · rintro ⟨⟨_, name_eq, ⟨sign, cs, rfl, signs, -, digits', value⟩, -⟩, length, unsigned⟩
    have sign : sign = [] := by
      rcases signs with rfl | rfl
      · rfl
      · simp [name_eq] at unsigned
    subst sign
    rw [← String.length_toList, ← String.length_toList, name_eq, toList_ofIndex] at length
    simp only [List.length_append, List.length_nil] at length
    have value' : Nat.ofDigitChars 10 (Numeral.padded 10 16 index) 0 = index :=
      (Numeral.digits?_eq_some_iff.mp (Numeral.digits?_padded 16 index)).2.2
    have same : cs = Numeral.padded 10 16 index :=
      Numeral.eq_of_ofDigitChars_eq digits' digits (by omega) (value.trans value'.symm)
    apply String.toList_injective
    rw [name_eq, toList_ofIndex, same, List.nil_append]

/-- No unfinished segment has a name that stands for an index. -/
theorem not_spells_temporary (index : ℕ) {name : String}
    (unfinished : temporaryBack <:+ name.toList) : ¬Spells index name := by
  rintro ⟨text, name_eq, -⟩
  obtain ⟨start, ends⟩ := unfinished
  have last := congrArg List.getLast? (ends.trans name_eq)
  simp [back, temporaryBack] at last

theorem temporaryBack_suffix (index : ℕ) : temporaryBack <:+ (temporary index).toList := by
  rw [toList_temporary]
  exact List.suffix_append _ _

end SegmentName

end SegmentLog
