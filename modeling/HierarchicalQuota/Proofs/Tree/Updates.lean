import HierarchicalQuota.Proofs.Reversal
import HierarchicalQuota.Proofs.Validation
import HierarchicalQuota.Proofs.Tree.Growth
import Mathlib.Algebra.Order.BigOperators.Group.List

namespace HierarchicalQuota

open HierarchicalQuota.Action (Ensures outcome after)
open LawfulStore (lookup put)

variable {σ : Type} [QuotaStore σ] [LawfulStore σ]

/-- An operation is on a leaf if it changes or sets the usage of a leaf. -/
def Operation.OnLeaf (tree : BalancedTree) : Operation → Prop
  | .setUsage scope name _ | .addUsage scope name _ _ => scope ∈ tree.leaves ∧ name = "usage"
  | .getOrCreate .. | .initializeScope .. | .setLimit .. | .updateLimit .. | .childDeleted ..
  | .applyChanges .. => False

/-- It is enough to look for the scope among the leaves. -/
instance (tree : BalancedTree) : (operation : Operation) → Decidable (operation.OnLeaf tree)
  | .setUsage scope name _ | .addUsage scope name _ _ =>
      inferInstanceAs (Decidable (scope ∈ tree.leaves ∧ name = "usage"))
  | .getOrCreate .. | .initializeScope .. | .setLimit .. | .updateLimit .. | .childDeleted ..
  | .applyChanges .. => isFalse id

namespace BalancedTree

/-- The children of a scope are the scopes of the level below whose only quota parent it is. -/
def childrenOf (tree : BalancedTree) (level : Nat) (scope : Entity) : List Entity :=
  (tree.engine.graph.instances (TreeShape.levelKind (level + 1))).filter fun child =>
    tree.engine.graph.quotaParents child = [scope]

/-- The usage that some scopes hold together is the sum of what is stored for them. -/
def usageOf (store : σ) (scopes : List Entity) : Int :=
  (scopes.map fun scope => reading store scope "usage" .usage).sum

/-- A tree of some depth sums up if every scope has a usage, the usage of every inner scope is the
sum over its children, and the usage of the root is the sum over the leaves. -/
structure SumsUp (tree : BalancedTree) (depth : Nat) (store : σ) : Prop where
  stored : ∀ scope, tree.engine.graph.contains scope = true →
    ∃ quota, lookup store scope "usage" = some quota
  inner : ∀ level, level + 1 < depth →
    ∀ scope ∈ tree.engine.graph.instances (TreeShape.levelKind level),
      reading store scope "usage" .usage = usageOf store (tree.childrenOf level scope)
  root : ∃ usage : Amount,
    outcome (tree.engine.usage TreeShape.root "usage") store = .ok usage ∧
      usage.value = usageOf store tree.leaves

end BalancedTree

namespace TreeShape

variable {shape : TreeShape} {store : σ} {leaf : Entity}

/-- A store is in order for a tree if every aggregate is the sum over its children, every scope has
its records, and no leaf has a negative usage. -/
structure InOrder (shape : TreeShape) (store : σ) : Prop where
  balanced : shape.grownEngine.Balanced store
  furnished : ∀ scope, shape.grownGraph.contains scope = true →
    ∀ field ∈ shape.grownRegistry.fields scope.kind, stored store scope field.name = true
  floor : ∀ leaf ∈ shape.grown.leaves, 0 ≤ reading store leaf "usage" .usage

/-- A tree that has just grown is in order, because all its usages are zero. -/
theorem Ready.inOrder (ready : shape.Ready shape.grownGraph store) : shape.InOrder store := by
  refine ⟨?_, ready.furnished, fun leaf _ => (ready.unused leaf "usage").ge⟩
  intro aggregate present quota found
  obtain ⟨level, -, -, inner⟩ :=
    eq_innerField_of_aggregator present.registered present.aggregator
  have own := ready.unused aggregate.scope aggregate.field.name
  rw [reading_of_some found] at own
  have children : shape.grownEngine.childTotal store aggregate.scope aggregate.field = 0 := by
    rw [inner]
    exact sum_map_eq_zero fun child _ => ready.unused child "usage"
  rw [children, add_zero]
  exact own

section Leaves

variable (positive : 1 ≤ shape.depth)

include positive

/-- The leaves are scopes of the graph. -/
theorem contains_leaf (member : leaf ∈ shape.grown.leaves) :
    shape.grownGraph.contains leaf = true :=
  (contains_grownGraph positive).2 ⟨shape.depth - 1, by omega, member⟩

/-- The usage of a leaf is registered and connected. -/
theorem exists_leafUsage (member : leaf ∈ shape.grown.leaves) :
    ∃ field, shape.grownEngine.registry.field? leaf.kind "usage" = some field ∧
      field.isConnected leaf shape.grownEngine.graph = true := by
  have lowest : shape.depth - 1 < shape.depth := by omega
  obtain ⟨field, registered, named⟩ := exists_usage lowest
  rw [← kind_of_mem_scopesAt member] at registered
  refine ⟨field, Registry.field?_eq_some_iff.2 ⟨registered, named⟩, ?_⟩
  simp [Field.isConnected, (starts_unused registered).1]

/-- All quota parents have their aggregates, so a change finds nothing missing. -/
theorem InOrder.covered (inOrder : shape.InOrder store) (scope : Entity) :
    shape.grownEngine.Covered store scope := by
  apply Engine.covered_of_stored
  intro child _ parent hop field registered _ _
  obtain ⟨level, low, parentMember, -⟩ := mem_scopesAt_of_mem_links (mem_quotaParents.1 hop)
  exact inOrder.furnished parent
    ((contains_grownGraph positive).2 ⟨level, by omega, parentMember⟩) field registered

omit positive in
/-- No field of a leaf sums. -/
theorem not_hasAggregate_leaf (member : leaf ∈ shape.grown.leaves) (field : Field) :
    ¬ shape.grownEngine.HasAggregate ⟨leaf, field⟩ := by
  intro present
  obtain ⟨level, inner, kind, -⟩ :=
    eq_innerField_of_aggregator present.registered present.aggregator
  have levels := levelKind_injective ((kind_of_mem_scopesAt member).symm.trans kind)
  omega

omit positive in
/-- No change reaches a leaf from below. -/
theorem not_reaches_leaf (member : leaf ∈ shape.grown.leaves) (scope : Entity) (name : String) :
    ¬ shape.grownEngine.Reaches scope leaf name := by
  intro reaches
  obtain ⟨aggregate, above, same, -⟩ := reaches
  apply not_hasAggregate_leaf (same ▸ member : aggregate.scope ∈ shape.grown.leaves) aggregate.field
  exact above.toHasAggregate

variable (bound : shape.depth ≤ maxHierarchyDepth)

include bound

/-- A leaf whose usage has been written passes the change on, and the tree is in order again. -/
theorem ensures_childChanged_inOrder (inOrder : shape.InOrder store)
    (member : leaf ∈ shape.grown.leaves) {quota : Quota}
    (found : lookup store leaf "usage" = some quota)
    {usage : Amount} (floor : 0 ≤ usage.value) :
    Ensures StoreCall.ExactShift
      (shape.grownEngine.childChanged leaf "usage" .usage quota.usage usage)
      (put store leaf "usage" { quota with usage }) fun _ after => shape.InOrder after := by
  have shallow : shape.grownEngine.graph.Shallow := shallow_grownGraph bound
  obtain ⟨field, known, -⟩ := exists_leafUsage positive member
  have written := Moved.of_put found usage
  have covered : shape.grownEngine.Covered (put store leaf "usage" { quota with usage }) leaf := by
    apply (inOrder.covered positive leaf).mono
    intro other label present
    rwa [written.stored_eq]
  have earlier := inOrder.floor leaf member
  rw [reading_of_some found] at earlier
  have difference : (usage - quota.usage).value = usage.value - quota.usage.value :=
    Amount.subtractsExactly_of_nonneg floor earlier
  -- Once the leaf is written, its change is owed to the scope above it.
  have owing : shape.grownEngine.Owing (put store leaf "usage" { quota with usage })
      fun other label => 0 + (usage - quota.usage).value *
        shape.grownEngine.directChains leaf "usage" .usage other label := by
    refine (inOrder.balanced.put shape.matching_grownEngine (by rw [known]; rfl) ?_).congr ?_
    · intro other present _
      exact absurd present (not_hasAggregate_leaf member other)
    · intro other label
      rw [reading_of_some found, reading_of_some found, difference]
      simp [Quota.value]
  refine (Engine.ensures_childChanged_covered shallow covered
    (.inl shiftsExactly_exactShift)).mono ?_
  intro result after passed
  obtain ⟨-, moved⟩ := passed
  refine ⟨?_, ?_, ?_⟩
  · apply owing.of_moved shape.matching_grownEngine (shallow leaf)
    apply moved.congr
    intro other label _
    rw [Engine.chains_of_covered covered, Engine.paths]
  · intro scope present other registered
    rw [moved.stored_eq, written.stored_eq]
    exact inOrder.furnished scope present other registered
  · intro other otherMember
    have still : lookup after other "usage" =
        lookup (put store leaf "usage" { quota with usage }) other "usage" := by
      apply moved.lookup_eq
      rw [Engine.paths_eq_zero (not_reaches_leaf otherMember leaf "usage")]
      simp
    rw [reading, still, LawfulStore.lookup_put]
    split
    · exact floor
    · exact inOrder.floor other otherMember

/-- Every operation on a leaf keeps the tree in order, whether it is applied or refused. -/
theorem ensures_perform_inOrder {operation : Operation} (onLeaf : operation.OnLeaf shape.grown)
    (inOrder : shape.InOrder store) :
    Ensures StoreCall.ExactShift (shape.grownEngine.perform operation) store
      fun _ after => shape.InOrder after := by
  have usageOf {scope : Entity} (member : scope ∈ shape.grown.leaves) :
      ∃ quota, lookup store scope "usage" = some quota ∧
        Ensures StoreCall.ExactShift (shape.grownEngine.getOrCreate scope "usage") store
          fun result after => result = .ok quota ∧ after = store := by
    obtain ⟨field, known, connected⟩ := exists_leafUsage positive member
    obtain ⟨registered, named⟩ := Registry.field?_eq_some_iff.1 known
    have present := inOrder.furnished scope (contains_leaf positive member) field registered
    rw [named] at present
    obtain ⟨quota, found⟩ := lookup_of_stored present
    exact ⟨quota, found, Engine.ensures_getOrCreate_stored known connected found⟩
  cases operation with
  | setUsage scope name usage =>
      obtain ⟨member, rfl⟩ := onLeaf
      obtain ⟨quota, found, reads⟩ := usageOf member
      refine Action.ensures_bind (fun _ => inferInstance) (Action.ensures_discard (reads.mono ?_))
      intro result middle read
      obtain ⟨rfl, rfl⟩ := read
      refine Action.ensures_bind (fun _ => inferInstance) (Action.ensures_access
        (Action.ensures_setUsage (fun other otherFound _ => ?_) fun absent => ?_))
      · obtain rfl := Option.some.inj (found.symm.trans otherFound)
        exact ensures_childChanged_inOrder positive bound inOrder member found
          (Amount.zero_le_value_max_zero usage)
      · rw [found] at absent
        cases absent
  | addUsage scope name delta validate =>
      obtain ⟨member, rfl⟩ := onLeaf
      obtain ⟨quota, found, reads⟩ := usageOf member
      suffices applies : Ensures StoreCall.ExactShift
          (shape.grownEngine.applyDelta scope "usage" delta validate) store
          fun _ after => shape.InOrder after from
        Action.ensures_discard (applies.mono fun result after kept => by cases result <;> exact kept)
      refine Engine.ensures_applyDelta_of_steps (fun _ => inOrder) fun _ => reads.mono ?_
      intro result middle read
      obtain ⟨rfl, rfl⟩ := read
      refine Action.ensures_addUsage (fun other otherFound _ _ => ?_) (fun _ _ _ _ => inOrder)
        fun absent => ?_
      · obtain rfl := Option.some.inj (found.symm.trans otherFound)
        exact ensures_childChanged_inOrder positive bound inOrder member found
          (Amount.zero_le_value_max_zero _)
      · rw [found] at absent
        cases absent
  | getOrCreate | initializeScope | setLimit | updateLimit | childDeleted | applyChanges =>
      exact onLeaf.elim

/-- A tree stays in order from operation to operation. -/
theorem ensures_performAll_inOrder {operations : List Operation}
    (onLeaves : ∀ operation ∈ operations, operation.OnLeaf shape.grown)
    (inOrder : shape.InOrder store) :
    Ensures StoreCall.ExactShift (shape.grownEngine.performAll operations) store
      fun result after => result = .ok ⟨⟩ ∧ shape.InOrder after := by
  refine Action.ensures_forM (fun operation member middle kept => ?_) inOrder
  refine Action.ensures_discard (Action.ensures_attempt
    ((ensures_perform_inOrder positive bound (onLeaves operation member) kept).mono ?_))
  exact fun _ _ keptAfter => ⟨rfl, keptAfter⟩

end Leaves

section Levels

open BalancedTree (usageOf)

variable {level : Nat} {scope : Entity}

/-- The usage of several scopes does not depend on their order. -/
theorem usageOf_perm {scopes others : List Entity} (perm : scopes.Perm others) :
    usageOf store scopes = usageOf store others := (perm.map _).sum_eq

/-- The instances of the kind of a level are its scopes. -/
theorem mem_instances_grown (positive : 1 ≤ shape.depth) (low : level < shape.depth) :
    scope ∈ shape.grown.engine.graph.instances (levelKind level) ↔ scope ∈ shape.scopesAt level := by
  change scope ∈ shape.grownGraph.instances (levelKind level) ↔ _
  rw [Graph.mem_instances, contains_grownGraph positive]
  constructor
  · intro instanceOf
    obtain ⟨⟨other, -, member⟩, kind⟩ := instanceOf
    rw [levelKind_injective (kind.symm.trans (kind_of_mem_scopesAt member))]
    exact member
  · intro member
    exact ⟨⟨level, low, member⟩, kind_of_mem_scopesAt member⟩

/-- The scopes linked to an inner scope are its children. -/
theorem mem_links_iff (inner : level + 1 < shape.depth) (member : scope ∈ shape.scopesAt level)
    {child : Entity} : (child, scope) ∈ shape.links ↔ child ∈ shape.children (level + 1) scope := by
  rw [mem_links]
  constructor
  · intro linked
    obtain ⟨other, -, also, isChild⟩ := linked
    rw [level_eq member also]
    exact isChild
  · intro isChild
    exact ⟨level, inner, member, isChild⟩

/-- The children that the graph knows of a scope are those that were added for it. -/
theorem perm_childrenOf (inner : level + 1 < shape.depth) (member : scope ∈ shape.scopesAt level) :
    (shape.grown.childrenOf level scope).Perm (shape.children (level + 1) scope) := by
  have distinct : (shape.grown.childrenOf level scope).Nodup :=
    (Graph.nodup_instances _ _).filter _
  rw [List.perm_ext_iff_of_nodup distinct (nodup_children _ _)]
  intro child
  rw [BalancedTree.childrenOf, List.mem_filter, decide_eq_true_eq,
    mem_instances_grown (by omega) inner]
  change _ ∧ shape.grownGraph.quotaParents child = [scope] ↔ _
  constructor
  · intro known
    rw [← mem_links_iff inner member, ← mem_quotaParents, known.2]
    exact List.mem_singleton_self scope
  · intro isChild
    have linked := related_grownGraph.2 ((mem_links_iff inner member).2 isChild)
    constructor
    · exact List.mem_flatMap.2 ⟨scope, member, isChild⟩
    · rw [quotaParents_grownGraph, linked]
      rfl

/-- What an inner scope sums is the usage of its children. -/
theorem childTotal_innerField (inner : level + 1 < shape.depth)
    (member : scope ∈ shape.scopesAt level) :
    shape.grownEngine.childTotal store scope (innerField level) =
      usageOf store (shape.children (level + 1) scope) := by
  change usageOf store (shape.grownGraph.referencing (levelKind (level + 1)) toParent scope) = _
  apply usageOf_perm
  rw [List.perm_ext_iff_of_nodup (Graph.nodup_referencing _ _ _ _) (nodup_children _ _)]
  intro child
  rw [mem_referencing_grownGraph (kind_of_mem_scopesAt member), mem_links_iff inner member]

/-- Every scope has a record of its usage. -/
theorem InOrder.exists_usage (inOrder : shape.InOrder store) (low : level < shape.depth)
    (member : scope ∈ shape.scopesAt level) :
    ∃ quota, lookup store scope "usage" = some quota := by
  obtain ⟨field, registered, named⟩ := TreeShape.exists_usage low
  rw [← kind_of_mem_scopesAt member] at registered
  have present := inOrder.furnished scope
    ((contains_grownGraph (by omega)).2 ⟨level, low, member⟩) field registered
  rw [named] at present
  exact lookup_of_stored present

/-- Where a tree is in order, an inner scope holds the usage of its children. -/
theorem InOrder.reading_eq (inOrder : shape.InOrder store) (inner : level + 1 < shape.depth)
    (member : scope ∈ shape.scopesAt level) :
    reading store scope "usage" .usage = usageOf store (shape.children (level + 1) scope) := by
  obtain ⟨quota, found⟩ := inOrder.exists_usage (by omega) member
  have registered : innerField level ∈ shape.grownRegistry.fields scope.kind := by
    rw [kind_of_mem_scopesAt member]
    exact innerField_mem inner
  have balanced := inOrder.balanced ⟨scope, innerField level⟩ ⟨registered, rfl, rfl⟩ quota found
  rw [add_zero, childTotal_innerField inner member] at balanced
  rw [reading_of_some found]
  exact balanced

/-- Neighbouring levels hold the same usage. -/
theorem InOrder.usageOf_succ (inOrder : shape.InOrder store) (inner : level + 1 < shape.depth) :
    usageOf store (shape.scopesAt (level + 1)) = usageOf store (shape.scopesAt level) := by
  rw [scopesAt, usageOf, sum_map_flatMap, usageOf]
  apply congrArg List.sum
  apply List.map_congr_left
  intro scope member
  exact (inOrder.reading_eq inner member).symm

/-- Every level holds the usage of the root. -/
theorem InOrder.usageOf_level (inOrder : shape.InOrder store) (low : level < shape.depth) :
    usageOf store (shape.scopesAt level) = reading store root "usage" .usage := by
  induction level with
  | zero => simp [usageOf, scopesAt]
  | succ level inductionHypothesis =>
      rw [inOrder.usageOf_succ low, inductionHypothesis (by omega)]

/-- A tree in order sums up: each inner scope over its children, and the root over all leaves. -/
theorem InOrder.sumsUp (positive : 1 ≤ shape.depth) (inOrder : shape.InOrder store) :
    shape.grown.SumsUp shape.depth store := by
  have atRoot := shape.root_mem_scopesAt
  refine ⟨?_, ?_, ?_⟩
  · intro scope present
    obtain ⟨level, low, member⟩ := (contains_grownGraph positive).1 present
    exact inOrder.exists_usage low member
  · intro level inner scope isInstance
    have member := (mem_instances_grown positive (by omega)).1 isInstance
    rw [usageOf_perm (perm_childrenOf inner member)]
    exact inOrder.reading_eq inner member
  · obtain ⟨quota, found⟩ := inOrder.exists_usage positive atRoot
    obtain ⟨field, registered, named⟩ := TreeShape.exists_usage positive
    have known : (shape.grownRegistry.field? root.kind "usage").isSome := by
      rw [← named]
      exact Registry.isSome_field? registered
    have lowest : shape.depth - 1 < shape.depth := by omega
    have total := inOrder.usageOf_level lowest
    rw [reading_of_some found] at total
    have floor : 0 ≤ usageOf store shape.grown.leaves := by
      apply List.sum_nonneg
      intro usage member
      obtain ⟨leaf, isLeaf, rfl⟩ := List.mem_map.1 member
      exact inOrder.floor leaf isLeaf
    refine ⟨max quota.usage 0, (Action.eq_ok_iff.1 (Engine.usage_eq_ok known found)).1, ?_⟩
    change usageOf store shape.grown.leaves = quota.usage.value at total
    rw [Amount.value_max, Amount.value_zero, ← total, max_eq_left floor]

/-- A tree of 1 to 64 levels grows to its full size with distinct leaves, and after any changes of
its leaves, applied or refused, the root is the sum of the leaves and every inner scope the sum over
its children. No sum that an aggregate forms may be cut off. -/
theorem build_sumsUp (shape : TreeShape) (positive : 1 ≤ shape.depth)
    (bound : shape.depth ≤ maxHierarchyDepth) (store : σ)
    (fresh : ∀ scope name, lookup store scope name = none) :
    outcome shape.build store = .ok shape.grown ∧
      shape.grown.engine.graph.size =
        ((List.range shape.depth).map fun level => shape.fanout ^ level).sum ∧
      shape.grown.leaves.Perm (shape.grown.engine.graph.instances (levelKind (shape.depth - 1))) ∧
      shape.grown.leaves.Nodup ∧
      shape.grown.leaves.length = shape.fanout ^ (shape.depth - 1) ∧
      ∀ operations : List Operation,
        (∀ operation ∈ operations, operation.OnLeaf shape.grown) →
        RecordedStore.AllFit StoreCall.ExactShift (Action.history
          (shape.grown.engine.performAll operations) (after shape.build store)) →
        shape.grown.SumsUp shape.depth
          (after (shape.grown.engine.performAll operations) (after shape.build store)) := by
  have unused : Unused store := fun scope name => reading_of_none (fresh scope name) .usage
  obtain ⟨built, run, ready⟩ := yields_build positive unused
  obtain ⟨succeeds, rfl⟩ := Action.eq_ok_iff.1 run
  refine ⟨succeeds, size_grownGraph positive, ?_, nodup_scopesAt _, length_scopesAt _, ?_⟩
  · apply (List.perm_ext_iff_of_nodup (nodup_scopesAt _) (Graph.nodup_instances _ _)).2
    intro scope
    exact (mem_instances_grown positive (by omega)).symm
  · intro operations onLeaves exact
    have kept := (ensures_performAll_inOrder positive bound onLeaves ready.inOrder).of_allFit
      (RecordedStore.answersAlike.performAll shape.grown.engine operations) exact
    exact kept.2.sumsUp positive

end Levels

section Sample

/-- This tree has three levels and four leaves, each with a limit. -/
def sampleShape : TreeShape := { depth := 3, fanout := 2, leafLimit := 5 }

/-- The second change is refused for the limit, and the fourth stops at zero. -/
def sampleChanges : List Operation :=
  [.addUsage ⟨"level2", "0.0.1"⟩ "usage" 4 true, .addUsage ⟨"level2", "0.0.1"⟩ "usage" 2 true,
    .setUsage ⟨"level2", "0.1.0"⟩ "usage" 7, .addUsage ⟨"level2", "0.0.1"⟩ "usage" (-9) false]

/-- The root has the usages of all four leaves after they have changed. -/
theorem build_sumsUp_sample :
    Action.outcome sampleShape.build MemoryStore.empty = .ok sampleShape.grown ∧
      sampleShape.grown.engine.graph.size = 7 ∧
      sampleShape.grown.leaves.length = 4 ∧
      sampleShape.grown.SumsUp 3 (Action.after (sampleShape.grown.engine.performAll sampleChanges)
        (Action.after sampleShape.build MemoryStore.empty)) := by
  obtain ⟨grows, size, -, -, leaves, sums⟩ := build_sumsUp sampleShape (by decide) (by decide)
    MemoryStore.empty MemoryStore.lookup_empty
  exact ⟨grows, size, leaves, sums sampleChanges (by decide +kernel) (by decide +kernel)⟩

end Sample

end TreeShape

end HierarchicalQuota
