/-
This file defines how a JSON value is written, in one line or with one part per line.
-/

import HierarchicalQuota.Json.Value

namespace HierarchicalQuota.Json

/-- The four digits of a control character's number are in base sixteen. -/
def controlCode (char : Char) : List Char :=
  ['\\', 'u', '0', '0', (char.toNat / 16).digitChar, (char.toNat % 16).digitChar]

/-- Quotes, backslashes and control characters are escaped, and all else is written as it is. -/
def escape (char : Char) : List Char :=
  if char = '"' then ['\\', '"']
  else if char = '\\' then ['\\', '\\']
  else if char = '\x08' then ['\\', 'b']
  else if char = '\x0c' then ['\\', 'f']
  else if char = '\n' then ['\\', 'n']
  else if char = '\r' then ['\\', 'r']
  else if char = '\t' then ['\\', 't']
  else if char.toNat < 0x20 then controlCode char
  else [char]

/-- An absent text is written as half of a surrogate pair. -/
def printText : Option String → List Char
  | none => ['"', '\\', 'u', 'd', '8', '0', '0', '"']
  | some text => '"' :: text.toList.flatMap escape ++ ['"']

mutual

/-- The compact form has no blanks between tokens. -/
def printChars : Json → List Char
  | .null => ['n', 'u', 'l', 'l']
  | .bool true => ['t', 'r', 'u', 'e']
  | .bool false => ['f', 'a', 'l', 's', 'e']
  | .number numeral => numeral.toChars
  | .string text => printText text
  | .array [] => ['[', ']']
  | .array (item :: items) => '[' :: (printChars item ++ printItems items)
  | .object [] => ['\x7b', '\x7d']
  | .object ((key, value) :: members) =>
      '\x7b' :: (printText key ++ ':' :: (printChars value ++ printMembers members))

def printItems : List Json → List Char
  | [] => [']']
  | item :: items => ',' :: (printChars item ++ printItems items)

def printMembers : List (Option String × Json) → List Char
  | [] => ['\x7d']
  | (key, value) :: members =>
      ',' :: (printText key ++ ':' :: (printChars value ++ printMembers members))

end

/-- The compact text of a value stands on one line. -/
def print (value : Json) : String := String.ofList (printChars value)

/-- A new line is indented by two blanks per level. -/
def newLine (level : Nat) : List Char := '\n' :: List.replicate (2 * level) ' '

mutual

/-- The pretty form puts every item and every member on a line of its own. -/
def prettyChars (level : Nat) : Json → List Char
  | .array (item :: items) =>
      '[' :: (newLine (level + 1) ++ prettyChars (level + 1) item ++ prettyItems level items)
  | .object ((key, value) :: members) =>
      '\x7b' :: (newLine (level + 1) ++ printText key ++ ':' :: ' ' ::
        (prettyChars (level + 1) value ++ prettyMembers level members))
  | .null => ['n', 'u', 'l', 'l']
  | .bool true => ['t', 'r', 'u', 'e']
  | .bool false => ['f', 'a', 'l', 's', 'e']
  | .number numeral => numeral.toChars
  | .string text => printText text
  | .array [] => ['[', ']']
  | .object [] => ['\x7b', '\x7d']

def prettyItems (level : Nat) : List Json → List Char
  | [] => newLine level ++ [']']
  | item :: items =>
      ',' :: (newLine (level + 1) ++ prettyChars (level + 1) item ++ prettyItems level items)

def prettyMembers (level : Nat) : List (Option String × Json) → List Char
  | [] => newLine level ++ ['\x7d']
  | (key, value) :: members =>
      ',' :: (newLine (level + 1) ++ printText key ++ ':' :: ' ' ::
        (prettyChars (level + 1) value ++ prettyMembers level members))

end

/-- The pretty text of a value ends without a new line. -/
def pretty (value : Json) : String := String.ofList (prettyChars 0 value)

end HierarchicalQuota.Json
