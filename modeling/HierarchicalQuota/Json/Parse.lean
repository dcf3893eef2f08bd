/-
This file defines how a JSON text is read as a value.
-/

import HierarchicalQuota.Json.Token

namespace HierarchicalQuota.Json

/-- A frame is an array or an object whose end has not been reached. What it holds so far is kept
with the latest part first, and an object waits for the value of its key. -/
inductive Frame where
  | array (items : List Json)
  | object (members : List (Option String × Json)) (key : Option String)

/-- The next token starts a value, follows one, or belongs to the start of a member. -/
inductive Expectation where
  | value
  | firstItem
  | firstKey
  | key (members : List (Option String × Json))
  | colon (members : List (Option String × Json)) (key : Option String)
  | ended (value : Json)

/-- A token that starts a value ends it at once, or it opens a frame. -/
def begin (frames : List Frame) : Token → Option (List Frame × Expectation)
  | .null => some (frames, .ended .null)
  | .bool value => some (frames, .ended (.bool value))
  | .number numeral => some (frames, .ended (.number numeral))
  | .string text => some (frames, .ended (.string text))
  | .openArray => some (.array [] :: frames, .firstItem)
  | .openObject => some (frames, .firstKey)
  | .closeArray | .closeObject | .comma | .colon => none

/-- A key starts a member of the object that holds the given members. -/
def beginMember (frames : List Frame) (members : List (Option String × Json)) :
    Token → Option (List Frame × Expectation)
  | .string key => some (frames, .colon members key)
  | _ => none

/-- After a value its frame goes on or ends. -/
def resume (value : Json) : List Frame → Token → Option (List Frame × Expectation)
  | .array items :: frames, .comma => some (.array (value :: items) :: frames, .value)
  | .array items :: frames, .closeArray =>
      some (frames, .ended (.array (value :: items).reverse))
  | .object members key :: frames, .comma => some (frames, .key ((key, value) :: members))
  | .object members key :: frames, .closeObject =>
      some (frames, .ended (.object ((key, value) :: members).reverse))
  | _, _ => none

/-- One token changes the open frames and what is expected next. -/
def advance (frames : List Frame) (token : Token) : Expectation → Option (List Frame × Expectation)
  | .value => begin frames token
  | .firstItem =>
      match frames, token with
      | .array [] :: frames, .closeArray => some (frames, .ended (.array []))
      | _, _ => begin frames token
  | .firstKey =>
      match token with
      | .closeObject => some (frames, .ended (.object []))
      | _ => beginMember frames [] token
  | .key members => beginMember frames members token
  | .colon members key =>
      match token with
      | .colon => some (.object members key :: frames, .value)
      | _ => none
  | .ended value => resume value frames token

/-- The tokens make a value if they end with it and leave no frame open. -/
def ofTokens? (frames : List Frame) (expectation : Expectation) : List Token → Option Json
  | [] =>
      match frames, expectation with
      | [], .ended value => some value
      | _, _ => none
  | token :: tokens => do
      let (frames, expectation) ← advance frames token expectation
      ofTokens? frames expectation tokens

/-- A text is read as one value with nothing but blanks around it. -/
def parse (text : String) : Option Json := do
  let tokens ← Token.scan .between text.toList
  ofTokens? [] .value tokens

end HierarchicalQuota.Json
