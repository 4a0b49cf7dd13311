/-!
# Numerals

Numbers in texts and names: digits filled up with leading zeros to a least width, and the
reading of unsigned decimals below a limit. Reading allows one leading plus sign and any
number of leading zeros, so several texts can name one number.
-/

namespace SegmentLog.Numeral

/-- The digits of `n`, at least `width` of them. -/
def padded (base width n : Nat) : List Char :=
  let digits := Nat.toDigits base n
  List.replicate (width - digits.length) '0' ++ digits

/-- Lower-case hexadecimal text of at least `width` digits. -/
def hex (width n : Nat) : String :=
  String.ofList (padded 16 width n)

def digit? (c : Char) : Option Nat :=
  if '0' ≤ c ∧ c ≤ '9' then some (c.toNat - '0'.toNat) else none

/-- The number with these decimal digits; there must be one at least. -/
def digits? : List Char → Option Nat
  | [] => none
  | c :: cs => (c :: cs).foldlM (fun value d => (digit? d).map (10 * value + ·)) 0

/-- An unsigned decimal below `limit`, with or without a leading plus sign. -/
def unsigned? (limit : Nat) (text : List Char) : Option Nat :=
  let digits := match text with
    | '+' :: rest => rest
    | _ => text
  (digits? digits).filter (· < limit)

example : hex 8 0xcafe = "0000cafe" := by decide +kernel
example : unsigned? 100 ['+', '0', '7'] = some 7 := by decide
example : unsigned? 100 ['+'] = none ∧ unsigned? 100 ['-', '1'] = none := by decide
example : unsigned? 100 ['1', '0', '0'] = none := by decide

end SegmentLog.Numeral
