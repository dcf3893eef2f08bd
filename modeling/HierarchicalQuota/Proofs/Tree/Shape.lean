import HierarchicalQuota.BalancedTree
import HierarchicalQuota.Proofs.Edits
import HierarchicalQuota.Proofs.Indexes
import Mathlib.Algebra.BigOperators.Ring.Finset

namespace HierarchicalQuota.TreeShape

section Names

/-- Different numbers are written differently. -/
theorem toString_injective : Function.Injective (toString : Nat → String) := by
  intro number other same
  have digits : Nat.toDigits 10 number = Nat.toDigits 10 other := by
    simpa only [Nat.toString_eq_repr, Nat.toList_repr] using congrArg String.toList same
  have read := congrArg (fun digits => Nat.ofDigitChars 10 digits 0) digits
  simpa using read

/-- The kind of a level ends with the number of the level. -/
theorem toList_levelKind (level : Nat) :
    (levelKind level).toList = "level".toList ++ (toString level).toList := by
  change ("level" ++ toString level).toList = _
  rw [String.toList_append]

/-- Different levels have different kinds. -/
theorem levelKind_injective : Function.Injective levelKind := by
  intro level other same
  have chars := congrArg String.toList same
  rw [toList_levelKind, toList_levelKind, List.append_cancel_left_eq] at chars
  exact toString_injective (String.toList_injective chars)

/-- No level has the kind of the items. -/
theorem levelKind_ne_itemKind (level : Nat) : levelKind level ≠ itemKind := by
  intro same
  have chars := congrArg (fun kind => kind.toList.head?) same
  simp [toList_levelKind, itemKind] at chars

/-- A number is written without a dot, so the last dot of an id is the one before its number. -/
theorem dot_not_mem_toString (index : Nat) : '.' ∉ (toString index).toList := by
  intro member
  rw [Nat.toString_eq_repr, Nat.toList_repr] at member
  have digit := Nat.isDigit_of_mem_toDigits (by omega) (by omega) member
  simp at digit

/-- What follows the last dot is what stands before the first dot from the end. -/
theorem takeWhile_reverse (front : List Char) {rest : List Char} (plain : '.' ∉ rest) :
    ((front ++ '.' :: rest).reverse.takeWhile fun char => char ≠ '.') = rest.reverse := by
  have before : ∀ char ∈ rest.reverse, decide (char ≠ '.') = true := by
    intro char member
    rw [List.mem_reverse] at member
    simp only [decide_eq_true_eq]
    intro same
    exact plain (same ▸ member)
  rw [List.reverse_append, List.reverse_cons, List.append_assoc,
    List.takeWhile_append_of_pos before]
  simp

/-- An id determines the id it extends and the number it extends it by. -/
theorem id_inj {parent other : String} {index number : Nat}
    (same : s!"{parent}.{index}" = s!"{other}.{number}") : parent = other ∧ index = number := by
  change parent ++ "." ++ toString index = other ++ "." ++ toString number at same
  have chars : parent.toList ++ '.' :: (toString index).toList =
      other.toList ++ '.' :: (toString number).toList := by
    simpa using congrArg String.toList same
  have ends := congrArg (fun chars => chars.reverse.takeWhile fun char => char ≠ '.') chars
  rw [takeWhile_reverse _ (dot_not_mem_toString index),
    takeWhile_reverse _ (dot_not_mem_toString number), List.reverse_inj] at ends
  rw [ends, List.append_cancel_right_eq] at chars
  exact ⟨String.toList_injective chars, toString_injective (String.toList_injective ends)⟩

end Names

section Levels

variable (shape : TreeShape)

/-- The scopes of a level are listed in the order in which they are added. -/
def scopesAt : Nat → List Entity
  | 0 => [root]
  | level + 1 => (scopesAt level).flatMap (shape.children (level + 1))

variable {shape} {level : Nat} {scope parent : Entity}

/-- The children of a scope extend its id by a number each. -/
theorem mem_children {child : Entity} :
    child ∈ shape.children level parent ↔
      ∃ index < shape.fanout, child = ⟨levelKind level, s!"{parent.id}.{index}"⟩ := by
  simp [children, eq_comm]

/-- The kind of a scope tells its level. -/
theorem kind_of_mem_scopesAt (member : scope ∈ shape.scopesAt level) :
    scope.kind = levelKind level := by
  cases level with
  | zero =>
      rw [scopesAt, List.mem_singleton] at member
      rw [member]
      rfl
  | succ level =>
      rw [scopesAt, List.mem_flatMap] at member
      obtain ⟨parent, -, isChild⟩ := member
      obtain ⟨index, -, named⟩ := mem_children.1 isChild
      rw [named]

/-- No scope is on two levels. -/
theorem level_eq {other : Nat} (member : scope ∈ shape.scopesAt level)
    (also : scope ∈ shape.scopesAt other) : level = other := by
  have kind := kind_of_mem_scopesAt member
  rw [kind_of_mem_scopesAt also] at kind
  exact (levelKind_injective kind).symm

/-- A scope is the child of one parent only. -/
theorem parent_eq {child other : Entity} (member : parent ∈ shape.scopesAt level)
    (also : other ∈ shape.scopesAt level) (isChild : child ∈ shape.children (level + 1) parent)
    (alsoChild : child ∈ shape.children (level + 1) other) : parent = other := by
  obtain ⟨index, -, named⟩ := mem_children.1 isChild
  obtain ⟨number, -, alsoNamed⟩ := mem_children.1 alsoChild
  rw [named] at alsoNamed
  have ids := id_inj (congrArg Entity.id alsoNamed)
  have kinds := (kind_of_mem_scopesAt member).trans (kind_of_mem_scopesAt also).symm
  exact Entity.ext kinds ids.1

/-- The children of a scope have different numbers. -/
theorem nodup_children (level : Nat) (parent : Entity) : (shape.children level parent).Nodup := by
  apply List.nodup_range.map
  intro index number same
  exact (id_inj (congrArg Entity.id same)).2

/-- No scope of a level is listed twice, because a child determines its parent. -/
theorem nodup_scopesAt (level : Nat) : (shape.scopesAt level).Nodup := by
  induction level with
  | zero => simp [scopesAt]
  | succ level inductionHypothesis =>
      rw [scopesAt, List.nodup_flatMap]
      constructor
      · intro parent _
        exact nodup_children (level + 1) parent
      · apply inductionHypothesis.imp_of_mem
        intro parent other member also different child isChild alsoChild
        exact different (parent_eq member also isChild alsoChild)

/-- Each level has as many scopes as the one above it, times the fanout. -/
theorem length_scopesAt (level : Nat) : (shape.scopesAt level).length = shape.fanout ^ level := by
  induction level with
  | zero => rfl
  | succ level inductionHypothesis =>
      simp [scopesAt, List.length_flatMap, children, inductionHypothesis, pow_succ]

end Levels

section Links

variable (shape : TreeShape)

/-- The links of a level lead from the scopes below it to their parents. -/
def linksAt (level : Nat) : List (Entity × Entity) :=
  (shape.scopesAt level).flatMap fun parent =>
    (shape.children (level + 1) parent).map fun child => (child, parent)

/-- The links of a tree lead from every scope but the root to its parent. -/
def links : List (Entity × Entity) := (List.range (shape.depth - 1)).flatMap shape.linksAt

variable {shape} {level : Nat} {child parent : Entity}

/-- A link of a level joins one of its scopes with a child of it. -/
theorem mem_linksAt : (child, parent) ∈ shape.linksAt level ↔
    parent ∈ shape.scopesAt level ∧ child ∈ shape.children (level + 1) parent := by
  simp [linksAt]

/-- A link joins a scope of an inner level with a child of it. -/
theorem mem_links : (child, parent) ∈ shape.links ↔ ∃ level, level + 1 < shape.depth ∧
    parent ∈ shape.scopesAt level ∧ child ∈ shape.children (level + 1) parent := by
  simp [links, mem_linksAt, Nat.lt_sub_iff_add_lt]

/-- The scopes that are linked to a level are those of the next. -/
theorem map_fst_linksAt (level : Nat) :
    (shape.linksAt level).map Prod.fst = shape.scopesAt (level + 1) := by
  simp [linksAt, scopesAt, List.map_flatMap, Function.comp_def]

/-- The two ends of a link are on neighbouring levels. -/
theorem mem_scopesAt_of_mem_links (member : (child, parent) ∈ shape.links) :
    ∃ level, level + 1 < shape.depth ∧ parent ∈ shape.scopesAt level ∧
      child ∈ shape.scopesAt (level + 1) := by
  obtain ⟨level, low, parentMember, isChild⟩ := mem_links.1 member
  exact ⟨level, low, parentMember, List.mem_flatMap.2 ⟨parent, parentMember, isChild⟩⟩

/-- No scope is linked twice, within a level or on two levels. -/
theorem nodup_map_fst_links : (shape.links.map Prod.fst).Nodup := by
  rw [links, List.map_flatMap, List.nodup_flatMap]
  constructor
  · intro level _
    rw [map_fst_linksAt]
    exact nodup_scopesAt (level + 1)
  · apply List.nodup_range.imp
    intro level other different child member also
    beta_reduce at member also
    rw [map_fst_linksAt] at member also
    have same := level_eq member also
    omega

/-- A tree has a link for each of its scopes but the root. -/
theorem length_links (shape : TreeShape) :
    shape.links.length =
      ((List.range (shape.depth - 1)).map fun level => shape.fanout ^ (level + 1)).sum := by
  have each (level : Nat) : (shape.linksAt level).length = shape.fanout ^ (level + 1) := by
    rw [← length_scopesAt, ← map_fst_linksAt, List.length_map]
  simp [links, List.length_flatMap, each]

end Links

section Attach

/-- A scope below a parent knows its parent. -/
def below (parent : Entity) : Node :=
  { relations := (∅ : Table String Entity).insert "parent" parent }

/-- The children of some links are added to a graph, one after the other. -/
def attach (links : List (Entity × Entity)) (graph : Graph) : Graph :=
  links.foldl (fun graph link => graph.insert link.1 (below link.2)) graph

variable {links : List (Entity × Entity)} {graph : Graph}

theorem attach_cons (link : Entity × Entity) :
    attach (link :: links) graph = attach links (graph.insert link.1 (below link.2)) := rfl

theorem attach_append (others : List (Entity × Entity)) :
    attach (links ++ others) graph = attach others (attach links graph) := List.foldl_append

/-- New scopes leave the relations that lead to quota parents as they are. -/
theorem parentRelations_attach : (attach links graph).parentRelations = graph.parentRelations := by
  induction links generalizing graph with
  | nil => rfl
  | cons link links inductionHypothesis => exact inductionHypothesis

/-- A scope without a link keeps its node. -/
theorem node?_attach_of_absent {scope : Entity} (absent : scope ∉ links.map Prod.fst) :
    (attach links graph).node? scope = graph.node? scope := by
  induction links generalizing graph with
  | nil => rfl
  | cons link links inductionHypothesis =>
      rw [List.map_cons, List.mem_cons, not_or] at absent
      rw [attach_cons, inductionHypothesis absent.2, Graph.node?_insert, if_neg (Ne.symm absent.1)]

/-- A scope with one link knows its parent afterwards. -/
theorem node?_attach_of_mem (distinct : (links.map Prod.fst).Nodup) {child parent : Entity}
    (member : (child, parent) ∈ links) :
    (attach links graph).node? child = some (below parent) := by
  induction links generalizing graph with
  | nil => cases member
  | cons link links inductionHypothesis =>
      rw [List.map_cons, List.nodup_cons] at distinct
      rw [attach_cons]
      cases member with
      | head =>
          rw [node?_attach_of_absent distinct.1, Graph.node?_insert, if_pos rfl]
      | tail _ later => exact inductionHypothesis distinct.2 later

/-- Each link adds one scope, if the children are new and different. -/
theorem size_attach (distinct : (links.map Prod.fst).Nodup)
    (fresh : ∀ child ∈ links.map Prod.fst, graph.contains child = false) :
    (attach links graph).size = graph.size + links.length := by
  induction links generalizing graph with
  | nil => rfl
  | cons link links inductionHypothesis =>
      rw [List.map_cons, List.nodup_cons] at distinct
      rw [List.map_cons, List.forall_mem_cons] at fresh
      have others : ∀ child ∈ links.map Prod.fst,
          (graph.insert link.1 (below link.2)).contains child = false := by
        intro child member
        rw [Bool.eq_false_iff, ne_eq, Graph.contains_insert, not_or]
        constructor
        · intro same
          exact distinct.1 (same ▸ member)
        · simp [fresh.2 child member]
      have one : (graph.insert link.1 (below link.2)).size = graph.size + 1 := by
        have absent := fresh.1
        simp only [Graph.contains] at absent
        simp [Graph.size, Graph.insert, Std.ExtTreeMap.size_insert, absent]
      rw [attach_cons, inductionHypothesis distinct.2 others, one, List.length_cons]
      omega

end Attach

end HierarchicalQuota.TreeShape
