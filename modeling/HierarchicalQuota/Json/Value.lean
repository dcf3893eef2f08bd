/-
This file defines JSON values.
-/

import HierarchicalQuota.Json.Numeral

namespace HierarchicalQuota

/-- A JSON value keeps its numerals as written and all members of an object in their order. A text
is absent if one of its escapes names half of a surrogate pair alone. -/
inductive Json where
  | null
  | bool (value : Bool)
  | number (numeral : Json.Numeral)
  | string (text : Option String)
  | array (items : List Json)
  | object (members : List (Option String × Json))
deriving Inhabited

namespace Json

def text (text : String) : Json := .string (some text)

def integer (value : Int) : Json := .number (.ofInt value)

/-- An object is built from its members in the order in which they are written. -/
def record (members : List (String × Json)) : Json :=
  .object (members.map fun member => (some member.1, member.2))

mutual

/-- A value can be kept if its texts are present, its numerals are finite, and its arrays and
objects are nested within the given number of levels. -/
def isKeepable (levels : Nat) : Json → Bool
  | .null | .bool _ => true
  | .number numeral => numeral.isFinite
  | .string text => text.isSome
  | .array items => 0 < levels && areKeepable (levels - 1) items
  | .object members => 0 < levels && areMembersKeepable (levels - 1) members

def areKeepable (levels : Nat) : List Json → Bool
  | [] => true
  | item :: items => isKeepable levels item && areKeepable levels items

def areMembersKeepable (levels : Nat) : List (Option String × Json) → Bool
  | [] => true
  | (key, value) :: members =>
      key.isSome && isKeepable levels value && areMembersKeepable levels members

end

end Json

end HierarchicalQuota
