import Mathlib.Algebra.BigOperators.Group.List.Basic

namespace HierarchicalQuota

variable {α β κ M : Type} [AddCommMonoid M]

/-- Items that are filtered out may as well add zero. -/
theorem sum_map_filter (keep : α → Bool) (value : α → M) (items : List α) :
    ((items.filter keep).map value).sum =
      (items.map fun item => if keep item then value item else 0).sum := by
  have split := List.sum_map_ite (fun item => keep item = true) value (fun _ => 0) items
  rw [split]
  simp

/-- A sum over the parts of all items is formed part by part. -/
theorem sum_map_flatMap (part : α → List β) (value : β → M) (items : List α) :
    ((items.flatMap part).map value).sum =
      (items.map fun item => ((part item).map value).sum).sum := by
  induction items with
  | nil => rfl
  | cons item items inductionHypothesis =>
      rw [List.flatMap_cons, List.map_append, List.sum_append, inductionHypothesis, List.map_cons,
        List.sum_cons]

/-- Two nested sums can be taken in either order. -/
theorem sum_map_comm (value : α → β → M) (rows : List α) (columns : List β) :
    (rows.map fun row => (columns.map (value row)).sum).sum =
      (columns.map fun column => (rows.map fun row => value row column).sum).sum := by
  induction rows with
  | nil => simp
  | cons row rows inductionHypothesis =>
      simp only [List.map_cons, List.sum_cons]
      rw [inductionHypothesis, ← List.sum_map_add]

/-- Items that all count as zero have the sum zero. -/
theorem sum_map_eq_zero {value : α → M} {items : List α}
    (zero : ∀ item ∈ items, value item = 0) : (items.map value).sum = 0 := by
  rw [List.map_congr_left zero]
  simp

/-- Where keys are distinct, one item has the key of a member. -/
theorem sum_map_key [DecidableEq κ] {key : α → κ} {items : List α}
    (distinct : (items.map key).Nodup) {item : α} (member : item ∈ items) (value : α → M) :
    (items.map fun other => if key other = key item then value other else 0).sum = value item := by
  induction items with
  | nil => cases member
  | cons head rest inductionHypothesis =>
      rw [List.map_cons, List.nodup_cons] at distinct
      rw [List.map_cons, List.sum_cons]
      rcases List.mem_cons.1 member with rfl | later
      · rw [if_pos rfl, sum_map_eq_zero, add_zero]
        intro other otherMember
        apply if_neg
        intro same
        exact distinct.1 (same ▸ List.mem_map_of_mem otherMember)
      · have different : key head ≠ key item := by
          intro same
          exact distinct.1 (same ▸ List.mem_map_of_mem later)
        rw [if_neg different, zero_add]
        exact inductionHypothesis distinct.2 later

/-- A sum over one item's occurrences is a multiple of its value. -/
theorem sum_map_occurrences [DecidableEq α] (items : List α) (item : α) (value : M) :
    (items.map fun other => if other = item then value else 0).sum = items.count item • value := by
  induction items with
  | nil => simp
  | cons head rest inductionHypothesis =>
      rw [List.map_cons, List.sum_cons, inductionHypothesis, List.count_cons]
      by_cases same : head = item
      · rw [if_pos same, if_pos (beq_iff_eq.2 same), add_nsmul, one_nsmul, add_comm]
      · simp [same]

end HierarchicalQuota
