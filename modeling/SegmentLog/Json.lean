import SegmentLog.Numeral

/-!
# JSON texts

The values that a pointer or a snapshot is read from. Only natural numbers matter to them, so a
number is kept as its value when it is written with digits alone, and otherwise just as a number.
A string whose escapes name half of a surrogate pair is well-formed text but no string of
characters: it is kept as `string none`, which is no field name.

`ofText?` accepts one value between blanks and nothing after it.
-/

namespace SegmentLog

inductive Json
  | null
  | bool (value : Bool)
  | number (natural : Option Nat)
  | string (text : Option (List Char))
  | array (items : List Json)
  | object (members : List (Option (List Char) × Json))
deriving Repr, Inhabited

namespace Json

/-- Read the front of a text; the answer is what was read and the text after it. -/
abbrev Scan (α : Type) := List Char → Option (α × List Char)

def isBlank (c : Char) : Bool :=
  c = ' ' ∨ c = '\n' ∨ c = '\t' ∨ c = '\r'

def skipBlanks (cs : List Char) : List Char :=
  cs.dropWhile isBlank

/-- A word such as `true`. -/
def word (w : String) (cs : List Char) : Option (List Char) :=
  w.toList.isPrefixOf? cs

/-- One digit at least. -/
def digits : Scan (List Char) := fun cs =>
  let front := cs.takeWhile Char.isDigit
  if front.isEmpty then none else some (front, cs.dropWhile Char.isDigit)

/-- Digits without a superfluous leading zero. -/
def integer : Scan Nat
  | '0' :: cs => some (0, cs)
  | cs => do
    let (front, cs) ← digits cs
    return (← Numeral.digits? front, cs)

/-- The part after a decimal point, if there is a point. -/
def skipFraction : List Char → Option (List Char)
  | '.' :: cs => (digits cs).map (·.2)
  | cs => some cs

def skipExponent : List Char → Option (List Char)
  | 'e' :: cs | 'E' :: cs =>
    match cs with
    | '+' :: cs | '-' :: cs => (digits cs).map (·.2)
    | cs => (digits cs).map (·.2)
  | cs => some cs

/-- A number; the value only if it is all digits. -/
def scanNumber : Scan (Option Nat)
  | '-' :: cs => do
    let (_, cs) ← integer cs
    return (none, ← skipExponent (← skipFraction cs))
  | cs => do
    let (n, digitsEnd) ← integer cs
    let cs ← skipExponent (← skipFraction digitsEnd)
    return (if cs.length = digitsEnd.length then some n else none, cs)

def hexDigit? (c : Char) : Option Nat :=
  if '0' ≤ c ∧ c ≤ '9' then some (c.toNat - '0'.toNat)
  else if 'a' ≤ c ∧ c ≤ 'f' then some (c.toNat - 'a'.toNat + 10)
  else if 'A' ≤ c ∧ c ≤ 'F' then some (c.toNat - 'A'.toNat + 10)
  else none

/-- Four hexadecimal digits. -/
def hexUnit : Scan Nat
  | a :: b :: c :: d :: cs => do
    let value ← [a, b, c, d].foldlM (fun value x => (hexDigit? x).map (16 * value + ·)) 0
    return (value, cs)
  | _ => none

def isHighSurrogate (unit : Nat) : Bool := 0xd800 ≤ unit ∧ unit < 0xdc00

def isLowSurrogate (unit : Nat) : Bool := 0xdc00 ≤ unit ∧ unit < 0xe000

/-- The second half of a surrogate pair, if it comes next. -/
def lowSurrogate? : List Char → Option (Nat × List Char)
  | '\\' :: 'u' :: cs => (hexUnit cs).filter fun (unit, _) => isLowSurrogate unit
  | _ => none

/-- The rest of an escape. There is no character where half of a pair stands alone. -/
def escape : Scan (Option Char)
  | '"' :: cs => some (some '"', cs)
  | '\\' :: cs => some (some '\\', cs)
  | '/' :: cs => some (some '/', cs)
  | 'b' :: cs => some (some '\x08', cs)
  | 'f' :: cs => some (some '\x0c', cs)
  | 'n' :: cs => some (some '\n', cs)
  | 'r' :: cs => some (some '\r', cs)
  | 't' :: cs => some (some '\t', cs)
  | 'u' :: cs => do
    let (unit, cs) ← hexUnit cs
    if isHighSurrogate unit then
      match lowSurrogate? cs with
      | some (low, cs) =>
        return (some (.ofNat (0x10000 + (unit - 0xd800) * 0x400 + (low - 0xdc00))), cs)
      | none => return (none, cs)
    else if isLowSurrogate unit then return (none, cs)
    else return (some (.ofNat unit), cs)
  | _ => none

/-- A string after its opening quote. -/
def scanString : (fuel : Nat) → Scan (Option (List Char))
  | 0, _ => none
  | fuel + 1, cs =>
    match cs with
    | [] => none
    | '"' :: cs => some (some [], cs)
    | '\\' :: cs => do
      let (c, cs) ← escape cs
      let (text, cs) ← scanString fuel cs
      return (do return (← c) :: (← text), cs)
    | c :: cs => do
      if c.toNat < 0x20 then
        failure
      let (text, cs) ← scanString fuel cs
      return (text.map (c :: ·), cs)

mutual

/-- A value. Two steps of `fuel` for every character are enough. -/
def scanValue : (fuel : Nat) → Scan Json
  | 0, _ => none
  | fuel + 1, cs =>
    match skipBlanks cs with
    | [] => none
    | 'n' :: cs => (word "ull" cs).map (null, ·)
    | 't' :: cs => (word "rue" cs).map (bool true, ·)
    | 'f' :: cs => (word "alse" cs).map (bool false, ·)
    | '"' :: cs => (scanString (cs.length + 1) cs).map fun (text, cs) => (string text, cs)
    | '[' :: cs =>
      match skipBlanks cs with
      | ']' :: cs => some (array [], cs)
      | cs => (scanItems fuel cs).map fun (items, cs) => (array items, cs)
    | '{' :: cs =>
      match skipBlanks cs with
      | '}' :: cs => some (object [], cs)
      | cs => (scanMembers fuel cs).map fun (members, cs) => (object members, cs)
    | cs => (scanNumber cs).map fun (n, cs) => (number n, cs)

/-- The items of an array that is not empty, with the closing bracket. -/
def scanItems : (fuel : Nat) → Scan (List Json)
  | 0, _ => none
  | fuel + 1, cs => do
    let (item, cs) ← scanValue fuel cs
    match skipBlanks cs with
    | ',' :: cs => (scanItems fuel cs).map fun (items, cs) => (item :: items, cs)
    | ']' :: cs => some ([item], cs)
    | _ => none

/-- The members of an object that is not empty, with the closing brace. -/
def scanMembers : (fuel : Nat) → Scan (List (Option (List Char) × Json))
  | 0, _ => none
  | fuel + 1, cs => do
    match skipBlanks cs with
    | '"' :: cs =>
      let (name, cs) ← scanString (cs.length + 1) cs
      match skipBlanks cs with
      | ':' :: cs =>
        let (value, cs) ← scanValue fuel cs
        match skipBlanks cs with
        | ',' :: cs => (scanMembers fuel cs).map fun (members, cs) => ((name, value) :: members, cs)
        | '}' :: cs => some ([(name, value)], cs)
        | _ => none
      | _ => none
    | _ => none

end

def ofText? (text : String) : Option Json := do
  let cs := text.toList
  let (value, rest) ← scanValue (2 * cs.length + 2) cs
  if (skipBlanks rest).isEmpty then return value else none

/-- The value as a natural number below `limit`. -/
def natural? (limit : Nat) : Json → Option Nat
  | number natural => natural.filter (· < limit)
  | _ => none

/-- The value of the one member with this name. -/
def member? (members : List (Option (List Char) × Json)) (name : String) : Option Json :=
  match members.filter (·.1 = some name.toList) with
  | [(_, value)] => some value
  | _ => none

/-- The values of named fields: an object with each of them once and other members ignored, or
an array with exactly these values in their order. -/
def fields? (names : List String) : Json → Option (List Json)
  | object members =>
    if members.all (·.1.isSome) then names.mapM (member? members) else none
  | array items => if items.length = names.length then some items else none
  | _ => none

end Json

end SegmentLog
