/-
This file defines the tokens of a JSON text and the scanner that finds them.
-/

import HierarchicalQuota.Json.Value
import HierarchicalQuota.Text.Hexadecimal

namespace HierarchicalQuota.Json

/-- A token is a sign of punctuation, or a value without parts. -/
inductive Token where
  | openArray
  | closeArray
  | openObject
  | closeObject
  | comma
  | colon
  | null
  | bool (value : Bool)
  | number (numeral : Numeral)
  | string (text : Option String)
deriving DecidableEq, Inhabited

namespace Token

def isHighSurrogate (unit : Nat) : Bool := 0xd800 ≤ unit ∧ unit < 0xdc00

def isLowSurrogate (unit : Nat) : Bool := 0xdc00 ≤ unit ∧ unit < 0xe000

/-- A high surrogate and the low one after it make one character, and alone they make none. -/
def decode : List Nat → Option (List Char)
  | [] => some []
  | unit :: units =>
      if isHighSurrogate unit then
        match units with
        | [] => none
        | low :: units =>
            if isLowSurrogate low then
              (decode units).map
                (Char.ofNat (0x10000 + (unit - 0xd800) * 0x400 + (low - 0xdc00)) :: ·)
            else
              none
      else if isLowSurrogate unit then none
      else (decode units).map (Char.ofNat unit :: ·)

/-- The string token of the units that were read, the latest first. -/
def ofUnits (latestFirst : List Nat) : Token :=
  .string ((decode latestFirst.reverse).map String.ofList)

/-- A word is the name of a constant or a numeral. -/
def ofWord? (word : List Char) : Option Token :=
  if word = ['n', 'u', 'l', 'l'] then some .null
  else if word = ['t', 'r', 'u', 'e'] then some (.bool true)
  else if word = ['f', 'a', 'l', 's', 'e'] then some (.bool false)
  else (Numeral.ofChars? word).map .number

/-- The letters, digits and signs of constants and numerals belong to words. -/
def isWordChar (char : Char) : Bool :=
  char.isAlphanum ∨ char = '-' ∨ char = '+' ∨ char = '.'

/-- Four characters are blank between tokens. -/
def isSpace (char : Char) : Bool :=
  char = ' ' ∨ char = '\t' ∨ char = '\n' ∨ char = '\r'

def punctuation? : Char → Option Token
  | '[' => some .openArray
  | ']' => some .closeArray
  | '\x7b' => some .openObject
  | '\x7d' => some .closeObject
  | ',' => some .comma
  | ':' => some .colon
  | _ => none

/-- A short escape stands for one character. -/
def shortEscape? : Char → Option Char
  | '"' => some '"'
  | '\\' => some '\\'
  | '/' => some '/'
  | 'b' => some '\x08'
  | 'f' => some '\x0c'
  | 'n' => some '\n'
  | 'r' => some '\r'
  | 't' => some '\t'
  | _ => none

/-- The scanner is between tokens, in a word, or in a string and possibly in one of its escapes.
What it has read of the token is kept with the latest part first. -/
inductive Mode where
  | between
  | word (letters : List Char)
  | string (units : List Nat)
  | escape (units : List Nat)
  | code (units : List Nat) (missing : Nat) (value : Nat)

/-- Between two tokens a character is blank, is a token, or starts one. -/
def start (char : Char) : Option (List Token × Mode) :=
  if isSpace char then some ([], .between)
  else if char = '"' then some ([], .string [])
  else if isWordChar char then some ([], .word [char])
  else (punctuation? char).map fun token => ([token], .between)

/-- One character moves the scanner to its next mode, and it can end tokens. -/
def step (char : Char) : Mode → Option (List Token × Mode)
  | .between => start char
  | .word letters =>
      if isWordChar char then some ([], .word (char :: letters))
      else do
        let token ← ofWord? letters.reverse
        let (tokens, mode) ← start char
        return (token :: tokens, mode)
  | .string units =>
      if char = '"' then some ([ofUnits units], .between)
      else if char = '\\' then some ([], .escape units)
      else if char.toNat < 0x20 then none
      else some ([], .string (char.toNat :: units))
  | .escape units =>
      if char = 'u' then some ([], .code units 4 0)
      else (shortEscape? char).map fun meaning => ([], .string (meaning.toNat :: units))
  | .code units missing value => do
      let digit ← Text.hexDigit? char
      let value := 16 * value + digit
      if missing ≤ 1 then return ([], .string (value :: units))
      else return ([], .code units (missing - 1) value)

/-- A text ends between two tokens or with a word. -/
def finish : Mode → Option (List Token)
  | .between => some []
  | .word letters => (ofWord? letters.reverse).map fun token => [token]
  | _ => none

/-- The scanner reads the text from left to right and stops at the first character out of place. -/
def scan (mode : Mode) : List Char → Option (List Token)
  | [] => finish mode
  | char :: text => do
      let (tokens, mode) ← step char mode
      let others ← scan mode text
      return tokens ++ others

end Token

end HierarchicalQuota.Json
