import HierarchicalQuota.Proofs.Balance
import HierarchicalQuota.Proofs.Tree.Shape

namespace HierarchicalQuota.TreeShape

section Registry

/-- Registrations with new and distinct keys are all accepted. -/
theorem foldlM_register {ι : Type} (registration : ι → Registration) (items : List ι)
    (registry : Registry)
    (distinct : ((registry.registrations ++ items.map registration).map Registration.key).Nodup) :
    items.foldlM (fun registry item =>
        registry.register (registration item).kind (registration item).field) registry =
      .ok ⟨registry.registrations ++ items.map registration, distinct⟩ := by
  induction items generalizing registry with
  | nil => simp [pure, Except.pure]
  | cons item items inductionHypothesis =>
      have first : (registration item).key ∉ registry.registrations.map Registration.key := by
        intro taken
        rw [List.map_append, List.map_cons, List.map_cons, List.nodup_append] at distinct
        exact distinct.2.2 _ taken _ List.mem_cons_self rfl
      obtain ⟨next, accepted, extended⟩ := Registry.register_of_fresh first
      have others : ((next.registrations ++ items.map registration).map Registration.key).Nodup := by
        rw [extended]
        simpa using distinct
      rw [List.foldlM_cons, accepted]
      change items.foldlM _ next = _
      rw [inductionHypothesis next others]
      simp [extended]

variable (shape : TreeShape)

/-- The inner levels have one field each, and the leaves have two. -/
def registrations : List Registration :=
  ((List.range (shape.depth - 1)).map fun level => ⟨levelKind level, innerField level⟩) ++
    shape.leafFields.map fun field => ⟨levelKind (shape.depth - 1), field⟩

/-- No two levels have one kind, and the two fields of the leaves have different names. -/
theorem distinct_registrations : (shape.registrations.map Registration.key).Nodup := by
  rw [registrations, List.map_append, List.map_map, List.map_map, List.nodup_append]
  refine ⟨?_, ?_, ?_⟩
  · apply List.nodup_range.map
    intro level other same
    exact levelKind_injective (congrArg Prod.fst same)
  · simp [leafFields, Registration.key]
  · intro key member leafKey leafMember same
    obtain ⟨level, low, rfl⟩ := List.mem_map.1 member
    obtain ⟨field, -, rfl⟩ := List.mem_map.1 leafMember
    have level_eq := levelKind_injective (congrArg Prod.fst same)
    rw [List.mem_range] at low
    omega

/-- The registry of a tree lists its levels from the top to the leaves. -/
def grownRegistry : Registry := ⟨shape.registrations, shape.distinct_registrations⟩

/-- No two levels register the same field, so the registration succeeds. -/
theorem registerLevels_eq : shape.registerLevels = .ok shape.grownRegistry := by
  have inner : (((Registry.empty.registrations ++ (List.range (shape.depth - 1)).map fun level =>
      (⟨levelKind level, innerField level⟩ : Registration))).map Registration.key).Nodup := by
    have both := shape.distinct_registrations
    rw [registrations, List.map_append, List.nodup_append] at both
    exact both.1
  have folded := foldlM_register (fun level => ⟨levelKind level, innerField level⟩)
    (List.range (shape.depth - 1)) Registry.empty inner
  have leaves := foldlM_register (fun field => ⟨levelKind (shape.depth - 1), field⟩)
    shape.leafFields ⟨_, inner⟩ shape.distinct_registrations
  rw [registerLevels]
  exact (congrArg (· >>= _) folded).trans leaves

/-- Every tree with a level has its registry. -/
theorem registry_eq (positive : 1 ≤ shape.depth) : shape.registry = .ok shape.grownRegistry := by
  rw [registry, if_neg (by omega), registerLevels_eq]
  rfl

variable {shape} {registration : Registration} {kind : String} {field : Field} {level : Nat}

/-- A registration is for an inner level or for the leaves. -/
theorem mem_registrations : registration ∈ shape.registrations ↔
    (∃ level, level + 1 < shape.depth ∧ registration = ⟨levelKind level, innerField level⟩) ∨
      ∃ field ∈ shape.leafFields, registration = ⟨levelKind (shape.depth - 1), field⟩ := by
  simp [registrations, Nat.lt_sub_iff_add_lt, eq_comm]

/-- An inner scope has one field, and a leaf has those of the leaves. -/
theorem mem_fields : field ∈ shape.grownRegistry.fields kind ↔
    (∃ level, level + 1 < shape.depth ∧ kind = levelKind level ∧ field = innerField level) ∨
      kind = levelKind (shape.depth - 1) ∧ field ∈ shape.leafFields := by
  rw [Registry.mem_fields_iff, grownRegistry, mem_registrations]
  simp [and_comm]

/-- Only the inner levels sum, and each of them sums the usage of the next level. -/
theorem eq_innerField_of_aggregator (member : field ∈ shape.grownRegistry.fields kind)
    (aggregator : field.aggregator?.isSome = true) :
    ∃ level, level + 1 < shape.depth ∧ kind = levelKind level ∧ field = innerField level := by
  cases mem_fields.1 member with
  | inl inner => exact inner
  | inr leaf =>
      have plain : ∀ field ∈ shape.leafFields, field.aggregator? = none := by
        simp [leafFields, Field.aggregator?]
      simp [plain field leaf.2] at aggregator

/-- Every field is connected to its scopes and starts without usage. -/
theorem starts_unused (member : field ∈ shape.grownRegistry.fields kind) :
    field.condition = none ∧ field.defaultUsage = .constant 0 := by
  cases mem_fields.1 member with
  | inl inner =>
      obtain ⟨level, -, -, rfl⟩ := inner
      exact ⟨rfl, rfl⟩
  | inr leaf =>
      have starts : ∀ field ∈ shape.leafFields,
          field.condition = none ∧ field.defaultUsage = .constant 0 := by
        simp [leafFields]
      exact starts field leaf.2

/-- Scopes are not counted, because leaves only count items. -/
theorem targeting_levelKind (level : Nat) :
    shape.grownRegistry.targeting (levelKind level) = [] := by
  rw [Registry.targeting, List.flatMap_eq_nil_iff]
  intro registration member
  have different := (levelKind_ne_itemKind level).symm
  cases mem_registrations.1 member with
  | inl inner =>
      obtain ⟨level, -, rfl⟩ := inner
      rfl
  | inr leaf =>
      obtain ⟨field, listed, rfl⟩ := leaf
      simp only [leafFields, List.mem_cons, List.not_mem_nil, or_false] at listed
      cases listed with
      | inl usage => simp [usage, Field.targets?]
      | inr count => simp [count, Field.targets?, different]

/-- Every inner level sums the usage of the next. -/
theorem innerField_mem (inner : level + 1 < shape.depth) :
    innerField level ∈ shape.grownRegistry.fields (levelKind level) :=
  mem_fields.2 (.inl ⟨level, inner, rfl, rfl⟩)

/-- Every level has a quota for the usage. -/
theorem exists_usage (low : level < shape.depth) :
    ∃ field ∈ shape.grownRegistry.fields (levelKind level), field.name = "usage" := by
  by_cases inner : level + 1 < shape.depth
  · exact ⟨innerField level, innerField_mem inner, rfl⟩
  · have last : level = shape.depth - 1 := by omega
    refine ⟨{ name := "usage", defaultLimit := .constant shape.leafLimit }, ?_, rfl⟩
    rw [mem_fields, last]
    exact .inr ⟨rfl, by simp [leafFields]⟩

end Registry

section Graph

variable (shape : TreeShape)

/-- The graph of a grown tree holds the root and all links. -/
def grownGraph : Graph := attach shape.links (shape.emptyGraph.insert root {})

/-- A grown tree uses its registry with its graph. -/
def grownEngine : Engine := ⟨shape.grownRegistry, shape.grownGraph⟩

/-- The leaves are the scopes of the lowest level. -/
def grown : BalancedTree where
  engine := shape.grownEngine
  leaves := shape.scopesAt (shape.depth - 1)

/-- Every level but the first has the parent relation. -/
theorem parentRelations_emptyGraph (kind : String) :
    shape.emptyGraph.parentRelations.getD kind [] =
      if ∃ level < shape.depth - 1, kind = levelKind (level + 1) then ["parent"] else [] := by
  rw [emptyGraph]
  induction shape.depth - 1 with
  | zero => simp [Graph.empty]
  | succ count inductionHypothesis =>
      rw [List.range_succ, List.foldl_append, List.foldl_cons, List.foldl_nil,
        Graph.withParentRelations, Std.ExtTreeMap.getD_insert, inductionHypothesis]
      simp only [Std.LawfulEqOrd.compare_eq_iff_eq, Nat.exists_lt_succ_right]
      by_cases last : levelKind (count + 1) = kind
      · simp [last]
      · simp [last, Ne.symm last]

variable {shape} {scope child parent : Entity} {level : Nat}

/-- Every scope below another knows its parent. -/
theorem node?_of_mem_links (member : (child, parent) ∈ shape.links) :
    shape.grownGraph.node? child = some (below parent) :=
  node?_attach_of_mem nodup_map_fst_links member

/-- Every linked scope has a parent. -/
theorem exists_link (linked : child ∈ shape.links.map Prod.fst) :
    ∃ parent, (child, parent) ∈ shape.links := by
  simpa using linked

theorem root_mem_scopesAt (shape : TreeShape) : root ∈ shape.scopesAt 0 := by simp [scopesAt]

/-- The root has no parent. -/
theorem root_not_mem_links : root ∉ shape.links.map Prod.fst := by
  intro linked
  obtain ⟨parent, member⟩ := exists_link linked
  obtain ⟨level, -, -, isChild⟩ := mem_scopesAt_of_mem_links member
  have levels := level_eq shape.root_mem_scopesAt isChild
  omega

theorem nodes_emptyGraph : shape.emptyGraph.nodes = ∅ := by
  rw [emptyGraph]
  induction shape.depth - 1 with
  | zero => rfl
  | succ count inductionHypothesis =>
      rw [List.range_succ, List.foldl_append, List.foldl_cons, List.foldl_nil]
      exact inductionHypothesis

/-- At first there is the root alone. -/
theorem node?_start (scope : Entity) :
    (shape.emptyGraph.insert root {}).node? scope = if root = scope then some {} else none := by
  rw [Graph.node?_insert]
  simp [Graph.node?, nodes_emptyGraph]

/-- Without a link there is no scope but the root. -/
theorem node?_of_not_mem_links (absent : scope ∉ shape.links.map Prod.fst) :
    shape.grownGraph.node? scope = if root = scope then some {} else none := by
  rw [grownGraph, node?_attach_of_absent absent, node?_start]

/-- A linked scope has one relation, which leads to its parent. -/
theorem related_of_mem_links (member : (child, parent) ∈ shape.links) (relation : String) :
    shape.grownGraph.related child relation =
      if "parent" = relation then some parent else none := by
  rw [Graph.related, node?_of_mem_links member]
  simp [below, Std.ExtTreeMap.getElem?_insert]

/-- A scope without a link has no relations. -/
theorem related_of_not_mem_links (absent : scope ∉ shape.links.map Prod.fst) (relation : String) :
    shape.grownGraph.related scope relation = none := by
  rw [Graph.related, node?_of_not_mem_links absent]
  split <;> simp

/-- The parent relation leads along the links. -/
theorem related_grownGraph :
    shape.grownGraph.related child "parent" = some parent ↔ (child, parent) ∈ shape.links := by
  constructor
  · intro found
    by_cases linked : child ∈ shape.links.map Prod.fst
    · obtain ⟨other, member⟩ := exists_link linked
      rw [related_of_mem_links member, if_pos rfl, Option.some.injEq] at found
      exact found ▸ member
    · rw [related_of_not_mem_links linked] at found
      cases found
  · intro member
    rw [related_of_mem_links member, if_pos rfl]

/-- The graph contains the scopes of all levels, and no others. -/
theorem contains_grownGraph (positive : 1 ≤ shape.depth) :
    shape.grownGraph.contains scope = true ↔
      ∃ level < shape.depth, scope ∈ shape.scopesAt level := by
  rw [Graph.contains_eq]
  constructor
  · intro present
    by_cases linked : scope ∈ shape.links.map Prod.fst
    · obtain ⟨parent, member⟩ := exists_link linked
      obtain ⟨level, low, -, isChild⟩ := mem_scopesAt_of_mem_links member
      exact ⟨level + 1, low, isChild⟩
    · rw [node?_of_not_mem_links linked] at present
      split at present
      · rename_i isRoot
        exact ⟨0, positive, isRoot ▸ shape.root_mem_scopesAt⟩
      · cases present
  · intro placed
    obtain ⟨level, low, member⟩ := placed
    cases level with
    | zero =>
        rw [scopesAt, List.mem_singleton] at member
        rw [member, node?_of_not_mem_links root_not_mem_links, if_pos rfl]
        rfl
    | succ level =>
        rw [scopesAt, List.mem_flatMap] at member
        obtain ⟨parent, parentMember, isChild⟩ := member
        rw [node?_of_mem_links (mem_links.2 ⟨level, low, parentMember, isChild⟩)]
        rfl

/-- A tree has one scope for each of the powers of its fanout, level by level. -/
theorem size_grownGraph (positive : 1 ≤ shape.depth) :
    shape.grownGraph.size = ((List.range shape.depth).map fun level => shape.fanout ^ level).sum := by
  have fresh : ∀ child ∈ shape.links.map Prod.fst,
      (shape.emptyGraph.insert root {}).contains child = false := by
    intro child member
    have different : root ≠ child := fun same => root_not_mem_links (same ▸ member)
    rw [Graph.contains_eq, node?_start, if_neg different]
    rfl
  have one : (shape.emptyGraph.insert root {}).size = 1 := by
    simp [Graph.size, Graph.insert, nodes_emptyGraph, Std.ExtTreeMap.size_insert]
  obtain ⟨inner, depth⟩ : ∃ inner, shape.depth = inner + 1 := ⟨shape.depth - 1, by omega⟩
  rw [grownGraph, size_attach nodup_map_fst_links fresh, one, length_links, depth,
    List.range_succ_eq_map, List.map_cons, List.map_map, List.sum_cons]
  rfl

/-- The quota parent of a scope is its parent. -/
theorem quotaParents_grownGraph (scope : Entity) :
    shape.grownGraph.quotaParents scope = (shape.grownGraph.related scope "parent").toList := by
  rw [Graph.quotaParents]
  have relations : shape.grownGraph.parentRelations = shape.emptyGraph.parentRelations :=
    parentRelations_attach
  rw [relations, parentRelations_emptyGraph]
  split
  · cases found : shape.grownGraph.related scope "parent" <;> simp [found]
  · rename_i unrelated
    cases found : shape.grownGraph.related scope "parent" with
    | none => rfl
    | some parent =>
        obtain ⟨level, low, -, isChild⟩ := mem_scopesAt_of_mem_links (related_grownGraph.1 found)
        exact absurd ⟨level, by omega, kind_of_mem_scopesAt isChild⟩ unrelated

/-- Quota parents are found along the links. -/
theorem mem_quotaParents :
    parent ∈ shape.grownGraph.quotaParents child ↔ (child, parent) ∈ shape.links := by
  rw [quotaParents_grownGraph, Option.mem_toList, related_grownGraph]

/-- No scope has more scopes above it than there are levels above its own. -/
theorem le_of_climbs {hops : Nat} (climbs : shape.grownGraph.Climbs hops scope)
    (member : scope ∈ shape.scopesAt level) : hops ≤ level := by
  induction hops generalizing scope level with
  | zero => exact Nat.zero_le level
  | succ hops inductionHypothesis =>
      obtain ⟨parent, hop, rest⟩ := climbs
      obtain ⟨above, -, parentMember, isChild⟩ :=
        mem_scopesAt_of_mem_links (mem_quotaParents.1 hop)
      have bound := inductionHypothesis rest parentMember
      have levels := level_eq member isChild
      omega

/-- A tree is shallow if it has no more levels than the depth bound allows. -/
theorem shallow_grownGraph (bound : shape.depth ≤ maxHierarchyDepth) :
    shape.grownGraph.Shallow := by
  intro scope climbs
  obtain ⟨parent, hop, -⟩ := id climbs
  obtain ⟨level, low, -, isChild⟩ := mem_scopesAt_of_mem_links (mem_quotaParents.1 hop)
  have hops := le_of_climbs climbs isChild
  omega

/-- The children that an inner scope sums are the scopes that are linked to it. -/
theorem mem_referencing_grownGraph (kind : parent.kind = levelKind level) :
    child ∈ shape.grownGraph.referencing (levelKind (level + 1)) toParent parent ↔
      (child, parent) ∈ shape.links := by
  rw [Graph.mem_referencing, Graph.resolve_of_hop rfl, related_grownGraph]
  constructor
  · intro selected
    exact selected.2.2
  · intro linked
    obtain ⟨above, -, parentMember, isChild⟩ := mem_scopesAt_of_mem_links linked
    have levels : level = above :=
      levelKind_injective (kind.symm.trans (kind_of_mem_scopesAt parentMember))
    refine ⟨?_, ?_, linked⟩
    · rw [Graph.contains_eq, node?_of_mem_links linked]
      rfl
    · rw [levels]
      exact kind_of_mem_scopesAt isChild

/-- The graph of a grown tree matches its aggregators. -/
theorem matching_grownEngine (shape : TreeShape) : shape.grownEngine.Matching := by
  intro parent field rule quota registered isRule isQuota child _
  obtain ⟨level, inner, kind, rfl⟩ :=
    eq_innerField_of_aggregator registered (Option.isSome_of_eq_some isRule)
  obtain rfl := Option.some.inj isRule
  change (shape.grownGraph.quotaParents child).count parent =
    if child ∈ shape.grownGraph.referencing (levelKind (level + 1)) toParent parent then 1 else 0
  by_cases linked : (child, parent) ∈ shape.links
  · rw [if_pos ((mem_referencing_grownGraph kind).2 linked), quotaParents_grownGraph,
      related_grownGraph.2 linked]
    simp
  · rw [if_neg fun selected => linked ((mem_referencing_grownGraph kind).1 selected),
      List.count_eq_zero]
    intro hop
    exact linked (mem_quotaParents.1 hop)

end Graph

end HierarchicalQuota.TreeShape
