import HierarchicalQuota.Json.Parse
import HierarchicalQuota.Proofs.Json.Scan
import Mathlib.Data.List.TakeWhile

namespace HierarchicalQuota.Json

open HierarchicalQuota.Json.Token (Scans EndsWord)

namespace Numeral

/-- A numeral is legible if its written form is a word that is read as the numeral. -/
structure IsLegible (numeral : Numeral) : Prop where
  word : ∀ char ∈ numeral.toChars, Token.isWordChar char = true
  reads : Token.ofWord? numeral.toChars = some (.number numeral)

/-- The digits of a positive number start with one that is not zero. -/
theorem toDigits_eq_cons {number : Nat} (positive : 0 < number) :
    ∃ first rest, Nat.toDigits 10 number = first :: rest ∧ first ≠ '0' := by
  induction number using Nat.strong_induction_on with
  | h number inductionHypothesis =>
      by_cases small : number < 10
      · have nonzero : ∀ digit < 10, 0 < digit → digit.digitChar ≠ '0' := by decide
        exact ⟨_, [], Nat.toDigits_of_lt_base small, nonzero number small positive⟩
      · obtain ⟨first, rest, digits, nonzero⟩ :=
          inductionHypothesis (number / 10) (by omega) (by omega)
        rw [Nat.toDigits_of_base_le (by omega) (by omega), digits]
        exact ⟨first, _, List.cons_append, nonzero⟩

/-- The digits of a number have no zero in front. -/
theorem isWhole_toDigits (number : Nat) : isWhole (Nat.toDigits 10 number) = true := by
  rcases Nat.eq_zero_or_pos number with rfl | positive
  · rfl
  · obtain ⟨first, rest, digits, nonzero⟩ := toDigits_eq_cons positive
    rw [digits]
    cases rest with
    | nil => rfl
    | cons second rest => simpa [isWhole] using nonzero

/-- The digits of a number are decimal digits. -/
theorem isDigit_toDigits {number : Nat} {char : Char} (member : char ∈ Nat.toDigits 10 number) :
    char.isDigit = true :=
  Nat.isDigit_of_mem_toDigits (by omega) (by omega) member

/-- The digits of a number are read as a numeral without fraction and exponent. -/
theorem unsigned?_toDigits (negative : Bool) (number : Nat) :
    unsigned? negative (Nat.toDigits 10 number) =
      some { negative, whole := Nat.toDigits 10 number } := by
  have all : (Nat.toDigits 10 number).takeWhile Char.isDigit = Nat.toDigits 10 number :=
    List.takeWhile_eq_self_iff.2 fun _ => isDigit_toDigits
  have none : (Nat.toDigits 10 number).dropWhile Char.isDigit = [] :=
    List.dropWhile_eq_nil_iff.2 fun _ => isDigit_toDigits
  simp [unsigned?, all, none, isWhole_toDigits, fraction?, exponent?]

/-- An integer is written as its sign and its digits. -/
theorem toChars_ofInt (value : Int) :
    (ofInt value).toChars =
      (if value < 0 then ['-'] else []) ++ Nat.toDigits 10 value.natAbs := by
  simp [toChars, ofInt]

/-- A word of digits, with or without a sign, is no name of a constant. -/
theorem isLegible_ofInt (value : Int) : (ofInt value).IsLegible := by
  have digits : ∀ char ∈ Nat.toDigits 10 value.natAbs, char.isDigit = true :=
    fun _ => isDigit_toDigits
  have chars : ∀ char ∈ (ofInt value).toChars, char.isDigit = true ∨ char = '-' := by
    intro char member
    rw [toChars_ofInt, List.mem_append] at member
    rcases member with sign | digit
    · split at sign <;> simp_all
    · exact .inl (digits char digit)
  have noName {letter : Char} {name : List Char} (other : letter.isDigit = false ∧ letter ≠ '-') :
      (ofInt value).toChars ≠ letter :: name := by
    intro same
    rcases chars letter (same ▸ List.mem_cons_self) with digit | sign
    · rw [other.1] at digit
      cases digit
    · exact other.2 sign
  refine ⟨fun char member => ?_, ?_⟩
  · rcases chars char member with digit | rfl
    · simp [Token.isWordChar, Char.isAlphanum, digit]
    · decide
  · have reads : ofChars? (ofInt value).toChars = some (ofInt value) := by
      rw [toChars_ofInt]
      by_cases negative : value < 0
      · rw [if_pos negative]
        exact (unsigned?_toDigits true _).trans (by simp [ofInt, negative])
      · rw [if_neg negative, List.nil_append]
        have unsigned : ofChars? (Nat.toDigits 10 value.natAbs) =
            unsigned? false (Nat.toDigits 10 value.natAbs) := by
          unfold ofChars?
          split
          · rename_i rest signed
            have sign := digits '-' (signed ▸ List.mem_cons_self)
            cases sign
          · rfl
        rw [unsigned, unsigned?_toDigits]
        simp [ofInt, negative]
    rw [Token.ofWord?, if_neg (noName (by decide)), if_neg (noName (by decide)),
      if_neg (noName (by decide)), reads]
    rfl

/-- The numeral of an integer has the integer as its value. -/
theorem toInt?_ofInt (value : Int) : (ofInt value).toInt? = some value := by
  have size : Nat.ofDigitChars 10 (Nat.toDigits 10 value.natAbs) 0 = value.natAbs :=
    Nat.ofDigitChars_ten_toDigits
  simp only [toInt?, ofInt, size]
  by_cases negative : value < 0
  · have nonzero : value.natAbs ≠ 0 := by omega
    have absolute : -(value.natAbs : Int) = value := by omega
    simp only [negative, nonzero, absolute, decide_true, Option.isSome_none, Bool.false_eq_true,
      and_false, or_false, if_false, if_true]
  · have absolute : (value.natAbs : Int) = value := by omega
    simp only [negative, absolute, decide_false, Option.isSome_none, Bool.false_eq_true, false_and,
      or_false, if_false]

end Numeral

section Tokens

mutual

/-- These are the tokens of a printed value. -/
def tokens : Json → List Token
  | .null => [.null]
  | .bool value => [.bool value]
  | .number numeral => [.number numeral]
  | .string text => [.string text]
  | .array [] => [.openArray, .closeArray]
  | .array (item :: items) => .openArray :: (tokens item ++ itemTokens items)
  | .object [] => [.openObject, .closeObject]
  | .object ((key, value) :: members) =>
      .openObject :: .string key :: .colon :: (tokens value ++ memberTokens members)

/-- These are the tokens after an item of an array, up to the bracket that closes it. -/
def itemTokens : List Json → List Token
  | [] => [.closeArray]
  | item :: items => .comma :: (tokens item ++ itemTokens items)

/-- These are the tokens after a member of an object, up to the brace that closes it. -/
def memberTokens : List (Option String × Json) → List Token
  | [] => [.closeObject]
  | (key, value) :: members =>
      .comma :: .string key :: .colon :: (tokens value ++ memberTokens members)

end

mutual

/-- A value is legible if all its numerals are. -/
def IsLegible : Json → Prop
  | .null | .bool _ | .string _ => True
  | .number numeral => numeral.IsLegible
  | .array items => AreLegible items
  | .object members => AreMembersLegible members

/-- All items are legible. -/
def AreLegible : List Json → Prop
  | [] => True
  | item :: items => item.IsLegible ∧ AreLegible items

/-- The values of all members are legible. -/
def AreMembersLegible : List (Option String × Json) → Prop
  | [] => True
  | (_, value) :: members => value.IsLegible ∧ AreMembersLegible members

end

/-- What follows an item starts with a comma or a bracket, so it ends a word. -/
theorem endsWord_printItems (items : List Json) (rest : List Char) :
    EndsWord (printItems items ++ rest) := by
  intro char isHead
  cases items with
  | nil =>
      obtain rfl := Option.some.inj isHead
      decide
  | cons item items =>
      obtain rfl := Option.some.inj isHead
      decide

/-- What follows a member starts with a comma or a brace, so it ends a word. -/
theorem endsWord_printMembers (members : List (Option String × Json)) (rest : List Char) :
    EndsWord (printMembers members ++ rest) := by
  intro char isHead
  cases members with
  | nil =>
      obtain rfl := Option.some.inj isHead
      decide
  | cons member members =>
      obtain rfl := Option.some.inj isHead
      decide

mutual

/-- The induction is on the value, and on the rest of its items or members. -/
theorem scans_printChars : (value : Json) → value.IsLegible → Scans (printChars value) (tokens value)
  | .null, _ => Token.scans_word (by simp [printChars, Token.isWordChar]) rfl
  | .bool true, _ => Token.scans_word (by simp [printChars, Token.isWordChar]) rfl
  | .bool false, _ => Token.scans_word (by simp [printChars, Token.isWordChar]) rfl
  | .number _, legible => Token.scans_word legible.word legible.reads
  | .string text, _ => by
      have scans := Token.scans_nil.text text
      rwa [List.append_nil] at scans
  | .array [], _ => (Token.scans_nil.punctuation rfl).punctuation rfl
  | .array (item :: items), legible =>
      ((scans_printChars item legible.1).append (scans_printItems items legible.2)
        (endsWord_printItems items)).punctuation rfl
  | .object [], _ => (Token.scans_nil.punctuation rfl).punctuation rfl
  | .object ((key, value) :: members), legible =>
      ((((scans_printChars value legible.1).append (scans_printMembers members legible.2)
        (endsWord_printMembers members)).punctuation rfl).text key).punctuation rfl

/-- The items that are left are scanned one after the other. -/
theorem scans_printItems :
    (items : List Json) → AreLegible items → Scans (printItems items) (itemTokens items)
  | [], _ => Token.scans_nil.punctuation rfl
  | item :: items, legible =>
      ((scans_printChars item legible.1).append (scans_printItems items legible.2)
        (endsWord_printItems items)).punctuation rfl

/-- The members that are left are scanned one after the other. -/
theorem scans_printMembers : (members : List (Option String × Json)) → AreMembersLegible members →
    Scans (printMembers members) (memberTokens members)
  | [], _ => Token.scans_nil.punctuation rfl
  | (key, value) :: members, legible =>
      ((((scans_printChars value legible.1).append (scans_printMembers members legible.2)
        (endsWord_printMembers members)).punctuation rfl).text key).punctuation rfl

end

end Tokens

section Values

/-- The parser takes one token at a time. -/
theorem ofTokens?_advance {frames next : List Frame} {expectation following : Expectation}
    {token : Token} (advances : advance frames token expectation = some (next, following))
    (rest : List Token) :
    ofTokens? frames expectation (token :: rest) = ofTokens? next following rest := by
  rw [ofTokens?, advances]
  rfl

/-- A value does not start with a closing bracket, so a first item is read as any other value. -/
theorem ofTokens?_firstItem (value : Json) (frames : List Frame) (rest : List Token) :
    ofTokens? (.array [] :: frames) .firstItem (tokens value ++ rest) =
      ofTokens? (.array [] :: frames) .value (tokens value ++ rest) := by
  cases value with
  | null => rfl
  | bool value => rfl
  | number numeral => rfl
  | string text => rfl
  | array items => cases items <;> rfl
  | object members => cases members <;> rfl

mutual

/-- The parser reads the tokens of a value and has then that value in hand, with the same frames. -/
theorem ofTokens?_tokens : (value : Json) → (frames : List Frame) → (rest : List Token) →
    ofTokens? frames .value (tokens value ++ rest) = ofTokens? frames (.ended value) rest
  | .null, _, _ => rfl
  | .bool _, _, _ => rfl
  | .number _, _, _ => rfl
  | .string _, _, _ => rfl
  | .array [], _, _ => rfl
  | .array (item :: items), frames, rest => by
      have opens : advance frames .openArray .value = some (.array [] :: frames, .firstItem) := rfl
      rw [tokens, List.cons_append, List.append_assoc, ofTokens?_advance opens, ofTokens?_firstItem,
        ofTokens?_tokens item, ofTokens?_itemTokens items]
      rfl
  | .object [], _, _ => rfl
  | .object ((key, value) :: members), frames, rest => by
      have opens : advance frames .openObject .value = some (frames, .firstKey) := rfl
      have names : advance frames (.string key) .firstKey = some (frames, .colon [] key) := rfl
      have splits : advance frames .colon (.colon [] key) =
          some (.object [] key :: frames, .value) := rfl
      rw [tokens, List.cons_append, List.cons_append, List.cons_append, List.append_assoc,
        ofTokens?_advance opens, ofTokens?_advance names, ofTokens?_advance splits,
        ofTokens?_tokens value, ofTokens?_memberTokens members]
      rfl

/-- The items that are left join those that are done, and the bracket closes the array. -/
theorem ofTokens?_itemTokens : (items : List Json) → (frames : List Frame) → (done : List Json) →
    (item : Json) → (rest : List Token) →
    ofTokens? (.array done :: frames) (.ended item) (itemTokens items ++ rest) =
      ofTokens? frames (.ended (.array (done.reverse ++ item :: items))) rest
  | [], frames, done, item, rest => by
      have closes : advance (.array done :: frames) .closeArray (.ended item) =
          some (frames, .ended (.array (item :: done).reverse)) := rfl
      rw [itemTokens, List.cons_append, List.nil_append, ofTokens?_advance closes,
        List.reverse_cons]
  | next :: items, frames, done, item, rest => by
      have goesOn : advance (.array done :: frames) .comma (.ended item) =
          some (.array (item :: done) :: frames, .value) := rfl
      rw [itemTokens, List.cons_append, List.append_assoc, ofTokens?_advance goesOn,
        ofTokens?_tokens next, ofTokens?_itemTokens items, List.reverse_cons, List.append_assoc]
      rfl

/-- The members that are left join those that are done, and the brace closes the object. -/
theorem ofTokens?_memberTokens : (members : List (Option String × Json)) →
    (frames : List Frame) → (done : List (Option String × Json)) → (key : Option String) →
    (value : Json) → (rest : List Token) →
    ofTokens? (.object done key :: frames) (.ended value) (memberTokens members ++ rest) =
      ofTokens? frames (.ended (.object (done.reverse ++ (key, value) :: members))) rest
  | [], frames, done, key, value, rest => by
      have closes : advance (.object done key :: frames) .closeObject (.ended value) =
          some (frames, .ended (.object ((key, value) :: done).reverse)) := rfl
      rw [memberTokens, List.cons_append, List.nil_append, ofTokens?_advance closes,
        List.reverse_cons]
  | (label, next) :: members, frames, done, key, value, rest => by
      have goesOn : advance (.object done key :: frames) .comma (.ended value) =
          some (frames, .key ((key, value) :: done)) := rfl
      have names : advance frames (.string label) (.key ((key, value) :: done)) =
          some (frames, .colon ((key, value) :: done) label) := rfl
      have splits : advance frames .colon (.colon ((key, value) :: done) label) =
          some (.object ((key, value) :: done) label :: frames, .value) := rfl
      rw [memberTokens, List.cons_append, List.cons_append, List.cons_append, List.append_assoc,
        ofTokens?_advance goesOn, ofTokens?_advance names, ofTokens?_advance splits,
        ofTokens?_tokens next, ofTokens?_memberTokens members, List.reverse_cons, List.append_assoc]
      rfl

end

/-- A printed value is read from its characters. -/
theorem parse_print (value : Json) :
    parse value.print = (Token.scan .between value.printChars).bind (ofTokens? [] .value) := by
  rw [parse, print, String.toList_ofList]
  rfl

/-- A legible value is read back from its compact text, whatever its texts are. -/
theorem IsLegible.parse_print {value : Json} (legible : value.IsLegible) :
    parse value.print = some value := by
  have scanned := scans_printChars value legible [] (by rintro _ ⟨⟩)
  have read := ofTokens?_tokens value [] []
  rw [List.append_nil] at scanned read
  rw [Json.parse_print, scanned]
  change ofTokens? [] .value (tokens value ++ []) = _
  rw [List.append_nil, read]
  rfl

end Values

end HierarchicalQuota.Json
