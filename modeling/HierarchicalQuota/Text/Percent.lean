/-
This file defines the text that stands behind percent escapes.
-/

import HierarchicalQuota.Text.Hexadecimal

namespace HierarchicalQuota.Text

/-- A percent sign with two digits in base sixteen stands for a byte, and the byte zero ends the
text. Every other character stands for itself. -/
def percentBytes : List Char → List UInt8
  | [] => []
  | '%' :: high :: low :: rest =>
      match hexDigit? high, hexDigit? low with
      | some high, some low =>
          let byte := 16 * high + low
          if byte = 0 then [] else .ofNat byte :: percentBytes rest
      | _, _ => String.utf8EncodeChar '%' ++ percentBytes (high :: low :: rest)
  | char :: rest => String.utf8EncodeChar char ++ percentBytes rest

/-- A byte outside of all characters is shown by a private character of its own. -/
def byteChar (byte : UInt8) : Char := Char.ofNat (0x10ff00 + byte.toNat)

/-- The shortest start of the bytes that is a text holds one character. -/
def firstChar? (bytes : List UInt8) : Option (Char × Nat) :=
  [1, 2, 3, 4].findSome? fun length => do
    let text ← String.fromUTF8? ⟨(bytes.take length).toArray⟩
    let char ← text.toList.head?
    return (char, length)

/-- Bytes are read as characters from the left. -/
def ofBytes : List UInt8 → List Char
  | [] => []
  | byte :: rest =>
      match firstChar? (byte :: rest) with
      | some (char, length) => char :: ofBytes (rest.drop (length - 1))
      | none => byteChar byte :: ofBytes rest
termination_by bytes => bytes.length
decreasing_by all_goals simp only [List.length_cons, List.length_drop]; omega

/-- Escapes are replaced by what they stand for. -/
def unescapePercent (text : List Char) : String := String.ofList (ofBytes (percentBytes text))

end HierarchicalQuota.Text
