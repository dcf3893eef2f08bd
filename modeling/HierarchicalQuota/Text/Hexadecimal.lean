/-
This file defines the digits of numbers in base sixteen.
-/

namespace HierarchicalQuota.Text

/-- The digits of a number in base sixteen are lower case and have no leading zeros. -/
def hexadecimal (number : Nat) : List Char := Nat.toDigits 16 number

/-- A digit in base sixteen is read in either case. -/
def hexDigit? (char : Char) : Option Nat :=
  if char.isDigit then some (char.toNat - '0'.toNat)
  else if 'a' ≤ char ∧ char ≤ 'f' then some (char.toNat - 'a'.toNat + 10)
  else if 'A' ≤ char ∧ char ≤ 'F' then some (char.toNat - 'A'.toNat + 10)
  else none

end HierarchicalQuota.Text
