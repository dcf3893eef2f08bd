/-
This file defines how a count is read from a word of the environment or of the command line.
-/

namespace HierarchicalQuota

/-- A word is no count because it is empty, because of a character, or because of its size. -/
inductive CountError where
  | empty
  | invalidDigit
  | tooLarge
deriving DecidableEq, Inhabited

namespace CountError

def message : CountError → String
  | .empty => "cannot parse integer from empty string"
  | .invalidDigit => "invalid digit found in string"
  | .tooLarge => "number too large to fit in target type"

end CountError

/-- A count fits into 64 bits. -/
def maxCount : Nat := 18446744073709551615

/-- The digits are read from the left, and the first one that is out of place decides. -/
def readDigits : List Char → Nat → Except CountError Nat
  | [], count => .ok count
  | char :: rest, count =>
      if char.isDigit then
        let next := 10 * count + (char.toNat - '0'.toNat)
        if maxCount < next then .error .tooLarge else readDigits rest next
      else .error .invalidDigit

/-- One plus sign may stand before the digits. -/
def readCount (word : String) : Except CountError Nat :=
  match word.toList with
  | [] => .error .empty
  | ['+'] => .error .invalidDigit
  | '+' :: digits => readDigits digits 0
  | digits => readDigits digits 0

end HierarchicalQuota
