/-
This file defines the numbers of JSON as they are written, and how they are read.
-/

namespace HierarchicalQuota.Json

/-- A numeral keeps the digits of a number, so that `1`, `1.0` and `1e0` differ. -/
structure Numeral where
  negative : Bool := false
  whole : List Char
  fraction : Option (List Char) := none
  /-- The flag of the exponent tells whether it is negative. -/
  exponent : Option (Bool × List Char) := none
deriving DecidableEq, Inhabited

namespace Numeral

/-- The whole part has a digit, and it starts with a zero only if it is zero. -/
def isWhole (digits : List Char) : Bool :=
  match digits with
  | [] => false
  | [_] => true
  | first :: _ => first != '0'

/-- A fraction is a point followed by at least one digit. -/
def fraction? : List Char → Option (Option (List Char) × List Char)
  | '.' :: rest =>
      if (rest.takeWhile Char.isDigit).isEmpty then none
      else some (some (rest.takeWhile Char.isDigit), rest.dropWhile Char.isDigit)
  | rest => some (none, rest)

/-- The sign of an exponent may be left out. -/
def sign : List Char → Bool × List Char
  | '+' :: rest => (false, rest)
  | '-' :: rest => (true, rest)
  | rest => (false, rest)

/-- An exponent ends the numeral. -/
def exponent? : List Char → Option (Option (Bool × List Char))
  | [] => some none
  | letter :: rest =>
      let (negative, digits) := sign rest
      if (letter = 'e' ∨ letter = 'E') ∧ ¬ digits.isEmpty ∧ digits.all Char.isDigit then
        some (some (negative, digits))
      else
        none

/-- A numeral without its sign is a whole part, a fraction and an exponent. -/
def unsigned? (negative : Bool) (text : List Char) : Option Numeral := do
  let whole := text.takeWhile Char.isDigit
  if isWhole whole then
    let (fraction, rest) ← fraction? (text.dropWhile Char.isDigit)
    let exponent ← exponent? rest
    return { negative, whole, fraction, exponent }
  else
    none

/-- This function reads a text that is a numeral as a whole. -/
def ofChars? : List Char → Option Numeral
  | '-' :: text => unsigned? true text
  | text => unsigned? false text

/-- The written form of a numeral reads back as the numeral. -/
def toChars (numeral : Numeral) : List Char :=
  (if numeral.negative then ['-'] else []) ++ numeral.whole ++
    (numeral.fraction.elim [] fun digits => '.' :: digits) ++
    (numeral.exponent.elim [] fun (negative, digits) =>
      'e' :: ((if negative then ['-'] else []) ++ digits))

/-- An integer is written in base ten without leading zeros. -/
def ofInt (value : Int) : Numeral :=
  { negative := value < 0, whole := Nat.toDigits 10 value.natAbs }

/-- A numeral is an integer if it has neither a fraction nor an exponent and is not minus zero. -/
def toInt? (numeral : Numeral) : Option Int :=
  let size := Nat.ofDigitChars 10 numeral.whole 0
  if numeral.fraction.isSome ∨ numeral.exponent.isSome ∨ (numeral.negative ∧ size = 0) then none
  else some (if numeral.negative then -size else size)

/-- The significand collects digits as long as it fits into 64 bits. -/
def significandBound : Nat := 18446744073709551615

/-- From the first whole digit that does not fit, all whole digits only count as powers of ten. -/
def collectWhole : List Char → Nat → Nat × Nat
  | [], significand => (significand, 0)
  | digit :: digits, significand =>
      let next := 10 * significand + (digit.toNat - '0'.toNat)
      if significandBound < next then (significand, digits.length + 1)
      else collectWhole digits next

/-- From the first fractional digit that does not fit, the digits are dropped. -/
def collectFraction : List Char → Nat → Nat × Nat
  | [], significand => (significand, 0)
  | digit :: digits, significand =>
      let next := 10 * significand + (digit.toNat - '0'.toNat)
      if significandBound < next then (significand, 0)
      else
        let (significand, count) := collectFraction digits next
        (significand, count + 1)

/-- The nearest number with 53 significant bits, of two the one with the even significand. -/
def roundToDouble (number : Nat) : Nat :=
  if number < 9007199254740992 then number
  else
    let unit := Nat.pow 2 (number.log2 - 52)
    let quotient := number / unit
    let rest := 2 * (number % unit)
    if unit < rest ∨ (rest = unit ∧ quotient % 2 = 1) then (quotient + 1) * unit
    else quotient * unit

/-- Doubles overflow halfway between the largest one and the next power of two. -/
def overflowBound : Nat := Nat.pow 2 1024 - Nat.pow 2 970

/-- A numeral is finite if its rounded significand times the rounded power of ten is a double. -/
def isFinite (numeral : Numeral) : Bool :=
  let (significand, dropped) := collectWhole numeral.whole 0
  let (significand, used) := collectFraction (numeral.fraction.getD []) significand
  let shift := numeral.exponent.elim (0 : Int) fun (negative, digits) =>
    if negative then -(Nat.ofDigitChars 10 digits 0 : Int) else Nat.ofDigitChars 10 digits 0
  let exponent := (dropped : Int) - used + shift
  if significand = 0 ∨ exponent < 0 then true
  else if 308 < exponent then false
  else roundToDouble significand * roundToDouble (Nat.pow 10 exponent.toNat) < overflowBound

end Numeral

end HierarchicalQuota.Json
