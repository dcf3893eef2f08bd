import HierarchicalQuota.Json.Print
import HierarchicalQuota.Json.Token
import Mathlib.Tactic.ByContra
import Mathlib.Tactic.SplitIfs

namespace HierarchicalQuota.Json

namespace Token

section Steps

variable {mode next : Mode} {char : Char} {found : List Token} {rest : List Char}

/-- The scanner takes one character at a time. -/
theorem scan_eq (mode : Mode) (char : Char) (rest : List Char) :
    scan mode (char :: rest) = (step char mode).bind fun stepped =>
      (scan stepped.2 rest).map (stepped.1 ++ ·) := by
  rw [scan]
  cases step char mode with
  | none => rfl
  | some stepped =>
      change (scan stepped.2 rest).bind (fun others => some (stepped.1 ++ others)) = _
      cases found : scan stepped.2 rest <;> simp [found]

/-- The tokens that a step finds come before those of the rest. -/
theorem scan_cons (steps : step char mode = some (found, next)) :
    scan mode (char :: rest) = (scan next rest).map (found ++ ·) := by
  rw [scan_eq, steps]
  rfl

/-- A step that finds no token leaves the rest of the text to the next mode. -/
theorem scan_silent (steps : step char mode = some ([], next)) :
    scan mode (char :: rest) = scan next rest := by
  rw [scan_cons steps]
  cases scan next rest <;> rfl

end Steps

section Words

/-- A text that follows a word ends it if it does not start with a character of words. -/
def EndsWord (rest : List Char) : Prop := ∀ char ∈ rest.head?, isWordChar char = false

/-- A character of words is neither a blank nor a quotation mark. -/
theorem not_isSpace_of_isWordChar {char : Char} (word : isWordChar char = true) :
    isSpace char = false ∧ char ≠ '"' := by
  refine ⟨?_, ?_⟩
  · by_contra space
    have blank : char = ' ' ∨ char = '\t' ∨ char = '\n' ∨ char = '\r' := by
      rwa [isSpace, decide_eq_false_iff_not, not_not] at space
    rcases blank with rfl | rfl | rfl | rfl <;> revert word <;> decide
  · rintro rfl
    revert word
    decide

/-- A character of words begins a word. -/
theorem step_of_isWordChar {char : Char} (word : isWordChar char = true) :
    step char .between = some ([], .word [char]) := by
  obtain ⟨space, quote⟩ := not_isSpace_of_isWordChar word
  simp [step, start, space, quote, word]

/-- A word takes up all of its characters, the latest in front. -/
theorem scan_wordChars {word : List Char} (all : ∀ char ∈ word, isWordChar char = true)
    (letters rest : List Char) :
    scan (.word letters) (word ++ rest) = scan (.word (word.reverse ++ letters)) rest := by
  induction word generalizing letters with
  | nil => rfl
  | cons char word inductionHypothesis =>
      obtain ⟨first, others⟩ := List.forall_mem_cons.1 all
      have steps : step char (.word letters) = some ([], .word (char :: letters)) := by
        simp [step, first]
      rw [List.cons_append, scan_silent steps, inductionHypothesis others]
      simp

/-- A word is read at its end, and the scanner starts over with the text that has ended it. -/
theorem scan_wordEnd {letters rest : List Char} {token : Token} (ends : EndsWord rest)
    (read : ofWord? letters.reverse = some token) :
    scan (.word letters) rest = (scan .between rest).map (token :: ·) := by
  cases rest with
  | nil => simp [scan, finish, read]
  | cons char rest =>
      have other : isWordChar char = false := ends char rfl
      have steps : step char (.word letters) =
          (start char).map fun started => (token :: started.1, started.2) := by
        simp only [step, other, read]
        cases start char <;> rfl
      rw [scan_eq, scan_eq, steps]
      change _ = Option.map _ ((start char).bind _)
      cases start char with
      | none => rfl
      | some started =>
          change Option.map _ _ = Option.map _ (Option.map _ _)
          rw [Option.map_map]
          rfl

end Words

/-- Characters are scanned as some tokens if they stand for these before any text that ends a word. -/
def Scans (chars : List Char) (tokens : List Token) : Prop :=
  ∀ rest, EndsWord rest →
    scan .between (chars ++ rest) = (scan .between rest).map (tokens ++ ·)

/-- The characters of a word are scanned as the token that the word names. -/
theorem scans_word {word : List Char} {token : Token}
    (all : ∀ char ∈ word, isWordChar char = true) (read : ofWord? word = some token) :
    Scans word [token] := by
  intro rest ends
  cases word with
  | nil => cases read
  | cons char word =>
      obtain ⟨first, others⟩ := List.forall_mem_cons.1 all
      have whole : ofWord? (word.reverse ++ [char]).reverse = some token := by simpa using read
      rw [List.cons_append, scan_silent (step_of_isWordChar first), scan_wordChars others,
        scan_wordEnd ends whole]
      rfl

/-- Texts are scanned one after the other if the second ends a word that the first leaves open. -/
theorem Scans.append {first second : List Char} {tokens others : List Token}
    (scansFirst : Scans first tokens) (scansSecond : Scans second others)
    (ends : ∀ rest, EndsWord (second ++ rest)) : Scans (first ++ second) (tokens ++ others) := by
  intro rest endsRest
  rw [List.append_assoc, scansFirst _ (ends rest), scansSecond rest endsRest, Option.map_map]
  congr 1
  funext found
  simp

/-- A sign of punctuation is a token before any text. -/
theorem Scans.punctuation {char : Char} {token : Token} {chars : List Char} {tokens : List Token}
    (scans : Scans chars tokens) (sign : step char .between = some ([token], .between)) :
    Scans (char :: chars) (token :: tokens) := by
  intro rest ends
  rw [List.cons_append, scan_cons sign, scans rest ends, Option.map_map]
  rfl

theorem scans_nil : Scans [] [] := by
  intro rest _
  cases found : scan .between rest <;> simp [found]

section Texts

/-- The digit that is written for a number below 16 is read as that number. -/
theorem hexDigit?_digitChar {digit : Nat} (bound : digit < 16) :
    Text.hexDigit? digit.digitChar = some digit := by
  have all : ∀ digit < 16, Text.hexDigit? digit.digitChar = some digit := by decide
  exact all digit bound

/-- The four digits of an escape make one number. -/
theorem scan_code {first second third fourth : Char} {a b c d : Nat}
    (isFirst : Text.hexDigit? first = some a) (isSecond : Text.hexDigit? second = some b)
    (isThird : Text.hexDigit? third = some c) (isFourth : Text.hexDigit? fourth = some d)
    (units : List Nat) (rest : List Char) :
    scan (.string units) ('\\' :: 'u' :: first :: second :: third :: fourth :: rest) =
      scan (.string ((16 * (16 * (16 * (16 * 0 + a) + b) + c) + d) :: units)) rest := by
  have opens : step '\\' (.string units) = some ([], .escape units) := rfl
  have code : step 'u' (.escape units) = some ([], .code units 4 0) := rfl
  have firstStep : step first (.code units 4 0) = some ([], .code units 3 (16 * 0 + a)) := by
    simp [step, isFirst]
  have secondStep (value : Nat) :
      step second (.code units 3 value) = some ([], .code units 2 (16 * value + b)) := by
    simp [step, isSecond]
  have thirdStep (value : Nat) :
      step third (.code units 2 value) = some ([], .code units 1 (16 * value + c)) := by
    simp [step, isThird]
  have fourthStep (value : Nat) :
      step fourth (.code units 1 value) = some ([], .string ((16 * value + d) :: units)) := by
    simp [step, isFourth]
  rw [scan_silent opens, scan_silent code, scan_silent firstStep, scan_silent (secondStep _),
    scan_silent (thirdStep _), scan_silent (fourthStep _)]

/-- The escape of a character is read as its number. -/
theorem scan_escape (char : Char) (units : List Nat) (rest : List Char) :
    scan (.string units) (escape char ++ rest) = scan (.string (char.toNat :: units)) rest := by
  have opens : step '\\' (.string units) = some ([], .escape units) := rfl
  have short {letter meaning : Char} (isShort : step letter (.escape units) =
      some ([], .string (meaning.toNat :: units))) :
      scan (.string units) ('\\' :: letter :: rest) = scan (.string (meaning.toNat :: units)) rest := by
    rw [scan_silent opens, scan_silent isShort]
  unfold escape
  split_ifs with quote backslash backspace feed line carriage tab control
  · subst quote
    exact short rfl
  · subst backslash
    exact short rfl
  · subst backspace
    exact short rfl
  · subst feed
    exact short rfl
  · subst line
    exact short rfl
  · subst carriage
    exact short rfl
  · subst tab
    exact short rfl
  · have high := hexDigit?_digitChar (show char.toNat / 16 < 16 by omega)
    have low := hexDigit?_digitChar (show char.toNat % 16 < 16 by omega)
    have zero : Text.hexDigit? '0' = some 0 := rfl
    have number : 16 * (16 * (16 * (16 * 0 + 0) + 0) + char.toNat / 16) + char.toNat % 16 =
        char.toNat := by omega
    rw [controlCode, List.cons_append, List.cons_append, List.cons_append, List.cons_append,
      List.cons_append, List.cons_append, List.nil_append, scan_code zero zero high low, number]
  · have plain : step char (.string units) = some ([], .string (char.toNat :: units)) := by
      simp [step, quote, backslash, control]
    exact scan_silent plain

/-- The characters of a string are scanned as their numbers, the latest in front. -/
theorem scan_escaped (text : List Char) (units : List Nat) (rest : List Char) :
    scan (.string units) (text.flatMap escape ++ rest) =
      scan (.string ((text.map Char.toNat).reverse ++ units)) rest := by
  induction text generalizing units with
  | nil => rfl
  | cons char text inductionHypothesis =>
      rw [List.flatMap_cons, List.append_assoc, scan_escape, inductionHypothesis]
      simp

/-- No character is half of a surrogate pair, so the numbers of characters are decoded as they are. -/
theorem decode_toNat (text : List Char) : decode (text.map Char.toNat) = some text := by
  induction text with
  | nil => rfl
  | cons char text inductionHypothesis =>
      have valid : char.toNat < 0xd800 ∨ 0xdfff < char.toNat ∧ char.toNat < 0x110000 := char.valid
      have high : isHighSurrogate char.toNat = false := by
        simp only [isHighSurrogate, decide_eq_false_iff_not]
        omega
      have low : isLowSurrogate char.toNat = false := by
        simp only [isLowSurrogate, decide_eq_false_iff_not]
        omega
      rw [List.map_cons, decode.eq_def]
      simp [high, low, inductionHypothesis]

/-- A printed text is one token before any other text. -/
theorem Scans.text {chars : List Char} {tokens : List Token} (scans : Scans chars tokens)
    (text : Option String) : Scans (printText text ++ chars) (.string text :: tokens) := by
  intro rest ends
  have opens : step '"' .between = some ([], .string []) := rfl
  have closes (units : List Nat) :
      step '"' (.string units) = some ([ofUnits units], .between) := rfl
  cases text with
  | none =>
      have half : scan .between (printText none ++ (chars ++ rest)) =
          (scan .between (chars ++ rest)).map (.string none :: ·) := by
        change scan .between ('"' :: '\\' :: 'u' :: 'd' :: '8' :: '0' :: '0' :: '"' ::
          (chars ++ rest)) = _
        rw [scan_silent opens, scan_code rfl rfl rfl rfl, scan_cons (closes _)]
        rfl
      rw [List.append_assoc, half, scans rest ends, Option.map_map]
      rfl
  | some text =>
      have whole : scan .between (printText (some text) ++ (chars ++ rest)) =
          (scan .between (chars ++ rest)).map (.string (some text) :: ·) := by
        have units : ofUnits ((text.toList.map Char.toNat).reverse ++ []) = .string (some text) := by
          simp [ofUnits, decode_toNat, String.ofList_toList]
        rw [printText, List.append_assoc, List.cons_append, scan_silent opens, scan_escaped,
          List.singleton_append, scan_cons (closes _), units]
        rfl
      rw [List.append_assoc, whole, scans rest ends, Option.map_map]
      rfl

end Texts

end Token

end HierarchicalQuota.Json
