/-
This file defines the blank characters and the trimming of text.
-/

namespace HierarchicalQuota.Text

/-- A blank is a character with the Unicode property White_Space. -/
def isBlank (char : Char) : Bool :=
  let point := char.toNat
  (0x09 ≤ point ∧ point ≤ 0x0d) ∨ point = 0x20 ∨ point = 0x85 ∨ point = 0xa0 ∨ point = 0x1680 ∨
    (0x2000 ≤ point ∧ point ≤ 0x200a) ∨ point = 0x2028 ∨ point = 0x2029 ∨ point = 0x202f ∨
    point = 0x205f ∨ point = 0x3000

/-- Trimming removes the blanks at both ends. -/
def trim (text : List Char) : List Char :=
  ((text.dropWhile isBlank).reverse.dropWhile isBlank).reverse

/-- A text is trimmed if it neither starts nor ends with a blank. -/
def isTrimmed (text : List Char) : Bool :=
  text.head?.all (!isBlank ·) && text.getLast?.all (!isBlank ·)

theorem isTrimmed_iff (text : List Char) :
    isTrimmed text ↔ (∀ char ∈ text.head?, isBlank char = false) ∧
      ∀ char ∈ text.getLast?, isBlank char = false := by
  simp [isTrimmed, Option.all_eq_true]

theorem head?_dropWhile_not {α : Type} (accepts : α → Bool) (items : List α) :
    ∀ item ∈ (items.dropWhile accepts).head?, accepts item = false := by
  induction items with
  | nil => simp
  | cons first rest inductionHypothesis =>
      by_cases accepted : accepts first
      · simpa [List.dropWhile_cons, accepted] using inductionHypothesis
      · simp [accepted]

theorem dropWhile_eq_self {α : Type} (accepts : α → Bool) (items : List α)
    (rejected : ∀ item ∈ items.head?, accepts item = false) :
    items.dropWhile accepts = items := by
  cases items with
  | nil => rfl
  | cons first rest => simp [rejected first (by simp)]

theorem trim_subset (text : List Char) : trim text ⊆ text := by
  intro char member
  simp only [trim, List.mem_reverse] at member
  have inner := (List.dropWhile_suffix isBlank).mem member
  rw [List.mem_reverse] at inner
  exact (List.dropWhile_suffix isBlank).mem inner

/-- A prefix of a list that is not empty keeps its first item. -/
theorem head?_of_shorter {α : Type} {first second : List α} (shorter : first <+: second)
    (nonempty : first ≠ []) : first.head? = second.head? := by
  obtain ⟨rest, rfl⟩ := shorter
  cases first with
  | nil => exact absurd rfl nonempty
  | cons item tail => rfl

theorem isTrimmed_trim (text : List Char) : isTrimmed (trim text) := by
  rw [isTrimmed_iff]
  constructor
  · intro char member
    have shorter : trim text <+: text.dropWhile isBlank := by
      rw [trim, ← List.reverse_suffix, List.reverse_reverse]
      exact List.dropWhile_suffix isBlank
    by_cases empty : trim text = []
    · simp [empty] at member
    · rw [head?_of_shorter shorter empty] at member
      exact head?_dropWhile_not isBlank text char member
  · intro char member
    rw [trim, List.getLast?_reverse] at member
    exact head?_dropWhile_not isBlank _ char member

theorem trim_of_isTrimmed {text : List Char} (trimmed : isTrimmed text) : trim text = text := by
  rw [isTrimmed_iff] at trimmed
  rw [trim, dropWhile_eq_self isBlank text trimmed.1]
  rw [dropWhile_eq_self isBlank text.reverse, List.reverse_reverse]
  simpa [List.head?_reverse] using trimmed.2

end HierarchicalQuota.Text
