/-
This file defines the segments of a text between separators, and their joining.
-/

namespace HierarchicalQuota.Text

/-- The segments of a text are its longest parts without the separator, empty ones included. -/
def split (separator : Char) : List Char → List (List Char)
  | [] => [[]]
  | char :: rest =>
      if char = separator then [] :: split separator rest
      else match split separator rest with
        | [] => [[char]]
        | segment :: segments => (char :: segment) :: segments

/-- Joining puts the separator between neighbouring segments. -/
def join (separator : Char) : List (List Char) → List Char
  | [] => []
  | [segment] => segment
  | segment :: next :: segments => segment ++ separator :: join separator (next :: segments)

theorem split_ne_nil (separator : Char) (text : List Char) : split separator text ≠ [] := by
  cases text with
  | nil => simp [split]
  | cons char rest =>
      rw [split]
      split
      · simp
      · split <;> simp

theorem separator_not_mem_split (separator : Char) (text : List Char) :
    ∀ segment ∈ split separator text, separator ∉ segment := by
  induction text with
  | nil => simp [split]
  | cons char rest inductionHypothesis =>
      rw [split]
      split
      · simpa using inductionHypothesis
      · rename_i different
        split
        · simpa using fun equal => different equal.symm
        · rename_i segment segments rest_eq
          rw [rest_eq] at inductionHypothesis
          simp only [List.mem_cons, forall_eq_or_imp] at inductionHypothesis ⊢
          exact ⟨by simpa using ⟨fun equal => different equal.symm, inductionHypothesis.1⟩,
            inductionHypothesis.2⟩

theorem split_of_not_mem {separator : Char} {segment : List Char} (absent : separator ∉ segment) :
    split separator segment = [segment] := by
  induction segment with
  | nil => rfl
  | cons char rest inductionHypothesis =>
      simp only [List.mem_cons, not_or] at absent
      rw [split, if_neg (fun equal => absent.1 equal.symm), inductionHypothesis absent.2]

theorem split_append_separator {separator : Char} {segment : List Char}
    (absent : separator ∉ segment) (rest : List Char) :
    split separator (segment ++ separator :: rest) = segment :: split separator rest := by
  induction segment with
  | nil => simp [split]
  | cons char tail inductionHypothesis =>
      simp only [List.mem_cons, not_or] at absent
      rw [List.cons_append, split, if_neg (fun equal => absent.1 equal.symm),
        inductionHypothesis absent.2]

theorem split_join {separator : Char} {segments : List (List Char)} (nonempty : segments ≠ [])
    (absent : ∀ segment ∈ segments, separator ∉ segment) :
    split separator (join separator segments) = segments := by
  induction segments with
  | nil => exact absurd rfl nonempty
  | cons segment rest inductionHypothesis =>
      have first := absent segment (by simp)
      cases rest with
      | nil => exact split_of_not_mem first
      | cons next others =>
          rw [join, split_append_separator first, inductionHypothesis (by simp)
            (fun item member => absent item (List.mem_cons_of_mem _ member))]

end HierarchicalQuota.Text
