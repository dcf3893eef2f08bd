/-
This file defines the quoted form of a text, which shows every character unambiguously.
-/

import HierarchicalQuota.Text.Hexadecimal
import HierarchicalQuota.Text.Unprintable

namespace HierarchicalQuota.Text

/-- A character of a quoted text is itself, a short escape, or its number in braces. -/
def quoteChar (char : Char) : List Char :=
  if char = '\x00' then ['\\', '0']
  else if char = '\t' then ['\\', 't']
  else if char = '\n' then ['\\', 'n']
  else if char = '\r' then ['\\', 'r']
  else if char = '"' then ['\\', '"']
  else if char = '\\' then ['\\', '\\']
  else if isUnprintable char then
    ['\\', 'u', '\x7b'] ++ hexadecimal char.toNat ++ ['\x7d']
  else [char]

/-- A quoted text stands between double quotes. -/
def quote (text : String) : String :=
  String.ofList ('"' :: text.toList.flatMap quoteChar ++ ['"'])

end HierarchicalQuota.Text
