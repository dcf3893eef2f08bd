import HierarchicalQuota.Field.Function
import HierarchicalQuota.Inventory.Layout
import HierarchicalQuota.Proofs.Counts
import HierarchicalQuota.Proofs.Recalculation

namespace HierarchicalQuota

namespace Field

/-- A field is plain if it has no condition, starts from zero, and counts each target once. -/
def isPlain (field : Field) : Bool :=
  field.condition.isNone &&
    (match field.defaultUsage with
    | .constant amount => amount = 0
    | .computed _ => false) &&
    match field.rule with
    | .counter rule => rule.weight.isNone && rule.currentUsage.isNone
    | .direct | .total _ | .aggregator _ => true

variable {field : Field} {rule : CounterRule} {graph : Graph}

/-- A plain field has none of the functions that could change its count. -/
theorem isPlain_iff :
    field.isPlain = true ↔ field.condition = none ∧ field.defaultUsage = .constant 0 ∧
      ∀ rule, field.rule = .counter rule → rule.weight = none ∧ rule.currentUsage = none := by
  unfold isPlain
  cases field.defaultUsage <;> cases field.rule <;> simp [and_assoc]

/-- A plain field is regular. -/
theorem regular_of_isPlain (plain : field.isPlain = true) : field.Regular := by
  obtain ⟨unconditional, idle, simple⟩ := isPlain_iff.1 plain
  refine ⟨unconditional, fun rule isRule => (simple rule isRule).2, ?_, ?_, ?_⟩
  · intro rule isRule weight isWeight
    rw [(simple rule isRule).1] at isWeight
    cases isWeight
  · intro rule isRule weight isWeight
    rw [(simple rule isRule).1] at isWeight
    cases isWeight
  · intro _ scope graph
    rw [idle]
    rfl

/-- A plain counter weighs each target as one. -/
theorem weight_of_isPlain (plain : field.isPlain = true) (isRule : field.rule = .counter rule)
    (target : Entity) : field.weight target graph = 1 := by
  rw [weight, isRule]
  dsimp only
  rw [((isPlain_iff.1 plain).2.2 rule isRule).1]
  rfl

/-- A number of targets that fits into the range is counted as it is. -/
theorem value_count {number : Nat} (fits : (number : Int) ≤ 9223372036854775807) :
    (ScopeFunction.count number).value = number := by
  rw [ScopeFunction.count, Amount.value_clamp]
  omega

/-- Ones add up to their number. -/
theorem foldl_add_one (amounts : List Amount) (ones : ∀ amount ∈ amounts, amount = 1)
    (number : Nat) :
    amounts.foldl (· + ·) (ScopeFunction.count number) =
      ScopeFunction.count (number + amounts.length) := by
  induction amounts generalizing number with
  | nil => rfl
  | cons amount amounts inductionHypothesis =>
      have next : ScopeFunction.count number + amount = ScopeFunction.count (number + 1) := by
        rw [ones amount List.mem_cons_self]
        apply Amount.ext
        change max _ (min (max _ (min (number : Int) _) + 1) _) =
          max _ (min (((number + 1 : Nat) : Int)) _)
        omega
      rw [List.foldl_cons, next,
        inductionHypothesis fun other member => ones other (List.mem_cons_of_mem _ member),
        List.length_cons, Nat.add_right_comm, Nat.add_assoc]

/-- The usage of a plain counter is the number of its targets. -/
theorem targetUsage?_of_isPlain (plain : field.isPlain = true)
    (isRule : field.rule = .counter rule) (scope : Entity) :
    field.targetUsage? scope graph =
      some (ScopeFunction.count (targetsOf rule.targets rule.path scope graph).length) := by
  have counted := foldl_add_one
    ((targetsOf rule.targets rule.path scope graph).map fun target => field.weight target graph)
    (by
      intro amount member
      obtain ⟨target, -, rfl⟩ := List.mem_map.1 member
      exact weight_of_isPlain plain isRule target) 0
  rw [List.length_map, Nat.zero_add] at counted
  rw [targetUsage?, isRule]
  dsimp only
  rw [((isPlain_iff.1 plain).2.2 rule isRule).2]
  exact congrArg some counted

/-- A recalculation expects the number of targets as the usage. -/
theorem expectedUsage?_of_isPlain {σ : Type} [QuotaStore σ] [LawfulStore σ] {engine : Engine}
    {store : σ} (plain : field.isPlain = true) (isRule : field.rule = .counter rule)
    (scope : Entity) :
    engine.expectedUsage? store scope field =
      some (ScopeFunction.count (targetsOf rule.targets rule.path scope engine.graph).length) := by
  rw [Engine.expectedUsage?, isRule]
  exact targetUsage?_of_isPlain plain isRule scope

/-- What a plain counter should hold is the number of its targets. -/
theorem weightTotal_of_isPlain (plain : field.isPlain = true)
    (isRule : field.rule = .counter rule) (scope : Entity) :
    field.weightTotal scope graph = (targetsOf rule.targets rule.path scope graph).length := by
  have targets : field.targets? = some (rule.targets, rule.path) := by rw [targets?, isRule]
  have ones : (targetsOf rule.targets rule.path scope graph).map
      (fun target => (field.weight target graph).value) =
        (targetsOf rule.targets rule.path scope graph).map fun _ => 1 := by
    apply List.map_congr_left
    intro target _
    rw [weight_of_isPlain plain isRule]
    rfl
  rw [weightTotal, targets]
  dsimp only
  rw [ones]
  simp

end Field

namespace Graph

variable {graph : Graph}

/-- A hierarchy in which no quota parent has quota parents is shallow. -/
theorem shallow_of_flat
    (flat : ∀ scope, ∀ parent ∈ graph.quotaParents scope, graph.quotaParents parent = []) :
    graph.Shallow := by
  intro scope climbs
  obtain ⟨parent, hop, grandparent, next, -⟩ := climbs
  rw [flat scope parent hop] at next
  cases next

end Graph

namespace Layout

/-- The registry of the layout is regular, because all of its fields are plain. -/
theorem regular_registry : registry.Regular := by
  have plain : ∀ registration ∈ registry.registrations, registration.field.isPlain = true := by
    decide
  exact fun registration member => Field.regular_of_isPlain (plain registration member)

section Counter

variable (name : String) (targets : List String) (path : RelationPath) (scope : Entity)

/-- The counters of the layout are plain. -/
theorem isPlain_counter : (counter name targets path).isPlain = true := rfl

/-- What a counter of the layout should hold is the number of its targets. -/
theorem weightTotal_counter (graph : Graph) :
    (counter name targets path).weightTotal scope graph =
      (Field.targetsOf targets path scope graph).length :=
  Field.weightTotal_of_isPlain (isPlain_counter name targets path) rfl scope

/-- A recalculation expects of a counter of the layout the number of its targets. -/
theorem expectedUsage?_counter {σ : Type} [QuotaStore σ] [LawfulStore σ] (engine : Engine)
    (store : σ) :
    engine.expectedUsage? store scope (counter name targets path) =
      some (ScopeFunction.count (Field.targetsOf targets path scope engine.graph).length) :=
  Field.expectedUsage?_of_isPlain (isPlain_counter name targets path) rfl scope

end Counter

/-- A graph is laid out if quota parents are the customers of projects and the services of
tenants. -/
def Fits (graph : Graph) : Prop := graph.parentRelations = emptyGraph.parentRelations

variable {graph : Graph}

/-- Only tenants and projects have quota parents. -/
theorem quotaParents_of_fits (fits : Fits graph) (scope : Entity) :
    graph.quotaParents scope =
      if scope.kind = tenant then (graph.related scope "service").toList
      else if scope.kind = project then (graph.related scope "customer").toList
      else [] := by
  have relations : graph.parentRelations.getD scope.kind [] =
      if scope.kind = tenant then ["service"]
      else if scope.kind = project then ["customer"] else [] := by
    rw [fits, emptyGraph, Graph.withParentRelations, Graph.withParentRelations,
      Std.ExtTreeMap.getD_insert, Std.ExtTreeMap.getD_insert]
    simp only [Std.LawfulEqCmp.compare_eq_iff_eq, eq_comm (b := scope.kind)]
    rfl
  have single (relation : String) :
      [relation].filterMap (graph.related scope) = (graph.related scope relation).toList := by
    cases related : graph.related scope relation <;> simp [related]
  rw [Graph.quotaParents, relations]
  split
  · exact single "service"
  · split
    · exact single "customer"
    · rfl

/-- Sums are over tenants, along the relation that leads to their quota parents. -/
theorem selectsChildren_of_fits (fits : Fits graph) :
    (⟨registry, graph⟩ : Engine).SelectsChildren := by
  have sums : ∀ registration ∈ registry.registrations, ∀ rule ∈ registration.field.aggregator?,
      rule.childKind = tenant ∧ rule.path = toService := by decide
  apply Engine.selectsChildren_of_agree
  intro registration member rule isRule child _ isChild parent resolved _
  obtain ⟨kind, path⟩ := sums registration member rule isRule
  have isTenant : child.kind = tenant := isChild.trans kind
  have single : graph.resolve child toService = graph.related child "service" :=
    Graph.resolve_of_hop rfl child
  have related : graph.related child "service" = some parent := by
    rw [← single, ← path]
    exact resolved
  rw [quotaParents_of_fits fits, if_pos isTenant, related]
  exact List.mem_singleton_self parent

/-- After a recalculation the records of existing scopes have the usages that are expected of them. -/
theorem storedUsage?_of_recalculateAll {σ : Type} [QuotaStore σ] [LawfulStore σ] {store after : σ}
    {report : Report} (fits : Fits graph)
    (run : (⟨registry, graph⟩ : Engine).recalculateAll store = .ok report after) {scope : Entity}
    (present : graph.contains scope = true) {field : Field}
    (registered : field ∈ registry.fields scope.kind) {usage : Amount}
    (expected : (⟨registry, graph⟩ : Engine).expectedUsage? after scope field = some usage) :
    storedUsage? after scope field.name = some usage := by
  have settled := Engine.settled_of_recalculateAll _ (selectsChildren_of_fits fits) run scope
    (Engine.mem_registeredScopes present registered) field registered
    ((regular_registry.of_mem_fields registered).isConnected scope graph)
  exact settled.storedUsage? expected

/-- A graph is flat if the customers of projects and the services of tenants are neither projects
nor tenants. -/
def Flat (graph : Graph) : Prop :=
  (∀ entity ∈ graph.instances project, ∀ parent ∈ graph.related entity "customer",
    parent.kind ≠ project ∧ parent.kind ≠ tenant) ∧
  ∀ entity ∈ graph.instances tenant, ∀ parent ∈ graph.related entity "service",
    parent.kind ≠ project ∧ parent.kind ≠ tenant

/-- It is enough to look at the projects and the tenants of the graph. -/
instance (graph : Graph) : Decidable (Flat graph) :=
  inferInstanceAs (Decidable ((∀ entity ∈ graph.instances project,
    ∀ parent ∈ graph.related entity "customer", parent.kind ≠ project ∧ parent.kind ≠ tenant) ∧
    ∀ entity ∈ graph.instances tenant, ∀ parent ∈ graph.related entity "service",
      parent.kind ≠ project ∧ parent.kind ≠ tenant))

/-- A flat graph that is laid out has chains of one hop. -/
theorem shallow_of_flat (fits : Fits graph) (flat : Flat graph) : graph.Shallow := by
  apply Graph.shallow_of_flat
  intro scope parent hop
  have present : graph.contains scope = true :=
    Std.ExtTreeMap.mem_keys.1 (Graph.mem_keys_of_mem_quotaParents hop)
  have neither : parent.kind ≠ project ∧ parent.kind ≠ tenant := by
    rw [quotaParents_of_fits fits] at hop
    split at hop
    · rename_i isTenant
      exact flat.2 scope (Graph.mem_instances.2 ⟨present, isTenant⟩) parent
        (Option.mem_toList.1 hop)
    · split at hop
      · rename_i isProject
        exact flat.1 scope (Graph.mem_instances.2 ⟨present, isProject⟩) parent
          (Option.mem_toList.1 hop)
      · cases hop
  rw [quotaParents_of_fits fits, if_neg neither.2, if_neg neither.1]

/-- The members of a scope are the entities of a kind that one relation leads to it. -/
def members (graph : Graph) (kind relation : String) (scope : Entity) : List Entity :=
  (graph.instances kind).filter fun entity => graph.related entity relation = some scope

/-- This field counts the resources of a customer. -/
def resourceCount : Field := counter "nc_resource_count" resourceKinds toProjectCustomer

theorem resourceCount_mem : resourceCount ∈ registry.fields customer :=
  List.mem_of_getElem (show (registry.fields customer)[2] = resourceCount from rfl)

/-- Vms and volumes are resources. -/
def resources (graph : Graph) : List Entity := resourceKinds.flatMap graph.instances

/-- The resources of a customer are those whose project belongs to it. -/
def resourcesOf (graph : Graph) (customer : Entity) : List Entity :=
  (resources graph).filter fun resource =>
    (graph.related resource "project").bind (graph.related · "customer") = some customer

/-- The entities that reference a scope along one relation are its members. -/
theorem referencing_eq_members {path : RelationPath} {relation : String}
    (hops : path.hops = [relation]) (kind : String) (scope : Entity) :
    graph.referencing kind path scope = members graph kind relation scope := by
  unfold Graph.referencing members
  congr 1
  funext entity
  rw [Graph.resolve_of_hop hops]

/-- The targets of a path with one hop are the members along it. -/
theorem targetsOf_of_hop {path : RelationPath} {relation : String}
    (hops : path.hops = [relation]) (kinds : List String) (scope : Entity) (graph : Graph) :
    Field.targetsOf kinds path scope graph =
      kinds.flatMap fun kind => members graph kind relation scope := by
  unfold Field.targetsOf
  congr 1
  funext kind
  exact referencing_eq_members hops kind scope

/-- The targets of one kind along one relation are the members of this kind. -/
theorem targetsOf_singleton {path : RelationPath} {relation : String}
    (hops : path.hops = [relation]) (kind : String) (scope : Entity) (graph : Graph) :
    Field.targetsOf [kind] path scope graph = members graph kind relation scope := by
  rw [targetsOf_of_hop hops]
  exact List.append_nil _

/-- The targets of the path through the project are the resources of the customer. -/
theorem targetsOf_toProjectCustomer (customer : Entity) :
    Field.targetsOf resourceKinds toProjectCustomer customer graph = resourcesOf graph customer := by
  have related (resource : Entity) : graph.resolve resource toProjectCustomer =
      (graph.related resource "project").bind (graph.related · "customer") :=
    Graph.resolve_of_hops rfl resource
  unfold resourcesOf resources Field.targetsOf Graph.referencing
  simp only [List.filter_flatMap, related]

/-- What the counter should hold for a customer is the number of its resources. -/
theorem weightTotal_resourceCount (customer : Entity) :
    resourceCount.weightTotal customer graph = (resourcesOf graph customer).length := by
  rw [← targetsOf_toProjectCustomer]
  exact weightTotal_counter ..

/-- A recalculation expects the number of resources as the usage. -/
theorem expectedUsage?_resourceCount {σ : Type} [QuotaStore σ] [LawfulStore σ] (engine : Engine)
    (store : σ) (customer : Entity) :
    engine.expectedUsage? store customer resourceCount =
      some (ScopeFunction.count (resourcesOf engine.graph customer).length) := by
  rw [← targetsOf_toProjectCustomer]
  exact expectedUsage?_counter ..

/-- A customer has no more resources than there are. -/
theorem length_resourcesOf_le (graph : Graph) (customer : Entity) :
    (resourcesOf graph customer).length ≤ (resources graph).length := List.length_filter_le ..

end Layout

end HierarchicalQuota
