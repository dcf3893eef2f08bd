import HierarchicalQuota.Engine.Propagation
import Mathlib.Logic.Relation

namespace HierarchicalQuota

namespace Graph

variable {graph : Graph}

/-- A scope climbs a number of hops if a chain of that many quota parents starts from it. -/
def Climbs (graph : Graph) : Nat → Entity → Prop
  | 0, _ => True
  | hops + 1, scope => ∃ parent ∈ graph.quotaParents scope, graph.Climbs hops parent

/-- A hierarchy is shallow if it has neither cycles nor chains that reach the depth bound. -/
def Shallow (graph : Graph) : Prop := ∀ scope, ¬ graph.Climbs maxHierarchyDepth scope

/-- The scopes above a scope are reached from it by one or more hops to quota parents. -/
def Above (graph : Graph) : Entity → Entity → Prop :=
  Relation.TransGen fun child parent => parent ∈ graph.quotaParents child

/-- A chain without its last hop is a chain. -/
theorem Climbs.shorten {hops : Nat} {scope : Entity} (climbs : graph.Climbs (hops + 1) scope) :
    graph.Climbs hops scope := by
  induction hops generalizing scope with
  | zero => trivial
  | succ hops inductionHypothesis =>
      obtain ⟨parent, member, rest⟩ := climbs
      exact ⟨parent, member, inductionHypothesis rest⟩

/-- A chain can be cut short anywhere. -/
theorem Climbs.of_le {fewer hops : Nat} {scope : Entity} (climbs : graph.Climbs hops scope)
    (bound : fewer ≤ hops) : graph.Climbs fewer scope := by
  induction bound with
  | refl => exact climbs
  | step _ inductionHypothesis => exact inductionHypothesis climbs.shorten

/-- A scope below another climbs at least one hop more. -/
theorem Climbs.below {hops : Nat} {child scope : Entity} (above : graph.Above child scope)
    (climbs : graph.Climbs hops scope) : graph.Climbs (hops + 1) child := by
  induction above using Relation.TransGen.head_induction_on with
  | single hop => exact ⟨_, hop, climbs⟩
  | head hop _ inductionHypothesis => exact Climbs.shorten ⟨_, hop, inductionHypothesis⟩

/-- Everything above a scope is a quota parent itself. -/
theorem Above.exists_child {scope other : Entity} (above : graph.Above scope other) :
    ∃ child, other ∈ graph.quotaParents child := by
  cases above with
  | single hop => exact ⟨_, hop⟩
  | tail _ hop => exact ⟨_, hop⟩

/-- A scope on a cycle climbs as high as one likes. -/
theorem climbs_of_above_self {scope : Entity} (above : graph.Above scope scope) (hops : Nat) :
    graph.Climbs hops scope := by
  induction hops with
  | zero => trivial
  | succ hops inductionHypothesis => exact inductionHypothesis.below above

/-- A shallow hierarchy has no cycle. -/
theorem Shallow.not_above_self (shallow : graph.Shallow) (scope : Entity) :
    ¬ graph.Above scope scope :=
  fun above => shallow scope (climbs_of_above_self above maxHierarchyDepth)

/-- A graph with fewer quota parents has fewer chains. -/
theorem Climbs.mono {other : Graph}
    (fewer : ∀ scope, other.quotaParents scope ⊆ graph.quotaParents scope) {hops : Nat}
    {scope : Entity} (climbs : other.Climbs hops scope) : graph.Climbs hops scope := by
  induction hops generalizing scope with
  | zero => trivial
  | succ hops inductionHypothesis =>
      obtain ⟨parent, member, rest⟩ := climbs
      exact ⟨parent, fewer scope member, inductionHypothesis rest⟩

/-- A hierarchy stays shallow if quota parents are only taken away. -/
theorem Shallow.of_subset (shallow : graph.Shallow) {other : Graph}
    (fewer : ∀ scope, other.quotaParents scope ⊆ graph.quotaParents scope) : other.Shallow :=
  fun scope climbs => shallow scope (climbs.mono fewer)

/-- Only entities of the graph have quota parents. -/
theorem mem_keys_of_mem_quotaParents {child parent : Entity}
    (member : parent ∈ graph.quotaParents child) : child ∈ graph.nodes.keys := by
  rw [quotaParents, List.mem_filterMap] at member
  obtain ⟨relation, -, related⟩ := member
  obtain ⟨node, found, -⟩ := Option.bind_eq_some_iff.1 related
  rw [Std.ExtTreeMap.mem_keys]
  exact Std.ExtTreeMap.mem_iff_isSome_getElem?.2 (Option.isSome_of_eq_some found)

/-- Chains are searched through the quota parents, which are finitely many. -/
instance decidableClimbs : (hops : Nat) → (scope : Entity) → Decidable (graph.Climbs hops scope)
  | 0, _ => isTrue trivial
  | hops + 1, scope =>
      have := decidableClimbs hops
      inferInstanceAs (Decidable (∃ parent ∈ graph.quotaParents scope, graph.Climbs hops parent))

/-- It is enough to look at the chains that start from entities of the graph. -/
theorem shallow_iff :
    graph.Shallow ↔ ∀ scope ∈ graph.nodes.keys, ¬ graph.Climbs maxHierarchyDepth scope := by
  constructor
  · intro shallow scope _
    exact shallow scope
  · intro low scope climbs
    obtain ⟨parent, member, rest⟩ := climbs
    exact low scope (mem_keys_of_mem_quotaParents member) ⟨parent, member, rest⟩

/-- Whether a hierarchy is shallow can be read off the nodes of the graph. -/
instance : Decidable graph.Shallow := decidable_of_iff _ shallow_iff.symm

/-- The instances of a kind are keys of a table, so none is listed twice. -/
theorem nodup_instances (graph : Graph) (kind : String) : (graph.instances kind).Nodup :=
  Std.ExtTreeMap.nodup_keys.filter _

/-- No entity is listed twice among those that reference a scope. -/
theorem nodup_referencing (graph : Graph) (kind : String) (path : RelationPath) (scope : Entity) :
    (graph.referencing kind path scope).Nodup :=
  (graph.nodup_instances kind).filter _

end Graph

/-- No child is summed twice. -/
theorem AggregatorRule.nodup_children (rule : AggregatorRule) (scope : Entity) (graph : Graph) :
    (rule.children scope graph).Nodup :=
  graph.nodup_referencing rule.childKind rule.path scope

namespace Engine

variable {engine : Engine}

/-- An aggregate exists if its field is a registered aggregator that its scope is connected to. -/
structure HasAggregate (engine : Engine) (aggregate : Aggregate) : Prop where
  registered : aggregate.field ∈ engine.registry.fields aggregate.scope.kind
  aggregator : aggregate.field.aggregator?.isSome
  connected : aggregate.field.isConnected aggregate.scope engine.graph

/-- The aggregates above a scope are those of the scopes above it. -/
structure AggregateAbove (engine : Engine) (scope : Entity) (aggregate : Aggregate) : Prop extends
    engine.HasAggregate aggregate where
  above : engine.graph.Above scope aggregate.scope

/-- The aggregates over a measure are the connected fields of quota parents that sum this measure of
this quota. -/
theorem mem_aggregatesOver {child : Entity} {quota : String} {measure : Measure}
    {aggregate : Aggregate} :
    aggregate ∈ engine.aggregatesOver child quota measure ↔
      aggregate.scope ∈ engine.graph.quotaParents child ∧
        aggregate.field ∈ engine.registry.fields aggregate.scope.kind ∧
        aggregate.field.childQuota? = some quota ∧
        aggregate.field.aggregator?.map (·.measure) = some measure ∧
        aggregate.field.isConnected aggregate.scope engine.graph := by
  obtain ⟨scope, field⟩ := aggregate
  simp only [aggregatesOver, Registry.aggregatorsOver, List.mem_flatMap, List.mem_map,
    List.mem_filter, Aggregate.mk.injEq, decide_eq_true_eq, Bool.decide_and, Bool.and_eq_true]
  constructor
  · rintro ⟨parent, member, other, ⟨⟨registered, sums, measures⟩, connected⟩, rfl, rfl⟩
    exact ⟨member, registered, sums, measures, connected⟩
  · rintro ⟨member, registered, sums, measures, connected⟩
    exact ⟨scope, member, field, ⟨⟨registered, sums, measures⟩, connected⟩, rfl, rfl⟩

/-- The aggregates over a measure of a child are above the child. -/
theorem aggregateAbove_of_mem {child : Entity} {quota : String} {measure : Measure}
    {aggregate : Aggregate} (member : aggregate ∈ engine.aggregatesOver child quota measure) :
    engine.AggregateAbove child aggregate := by
  obtain ⟨parent, registered, -, measures, connected⟩ := mem_aggregatesOver.1 member
  refine ⟨⟨registered, ?_, connected⟩, .single parent⟩
  cases rule : aggregate.field.aggregator? with
  | none => simp [rule] at measures
  | some rule => rfl

/-- What is above a scope is above everything below the scope. -/
theorem AggregateAbove.trans {child scope : Entity} {aggregate : Aggregate}
    (first : engine.graph.Above child scope) (second : engine.AggregateAbove scope aggregate) :
    engine.AggregateAbove child aggregate :=
  ⟨second.toHasAggregate, first.trans second.above⟩

end Engine

section Sample

/-- Teams are led to their organization by one relation. -/
def sampleToOrganization : RelationPath := ⟨["organization"], by decide, rfl⟩

/-- Users are led to their team by one relation. -/
def sampleToTeam : RelationPath := ⟨["team"], by decide, rfl⟩

/-- An organization sums one quota of its teams in one measure. -/
def sampleSum (name : String) (measure : Measure) : Field where
  name := name
  rule := .aggregator ⟨"team", sampleToOrganization, measure, none⟩

/-- A team counts the users that belong to it. -/
def sampleCounter : Field where
  name := "seats"
  rule := .counter { targets := ["user"], path := sampleToTeam }

/-- The organization sums the limits of storage and the usages of seats, and its teams count
seats. -/
def sampleRegistry : Registry where
  registrations :=
    [⟨"organization", sampleSum "storage" .limit⟩, ⟨"organization", sampleSum "seats" .usage⟩,
      ⟨"team", { name := "storage", defaultLimit := .constant 10 }⟩, ⟨"team", sampleCounter⟩]
  distinct := by decide

def sampleOrganization : Entity := ⟨"organization", "acme"⟩

def sampleTeam : Entity := ⟨"team", "red"⟩

def sampleUser : Entity := ⟨"user", "ann"⟩

/-- The user belongs to the team, and the team to the organization. -/
def sampleGraph : Graph :=
  (((Graph.empty.withParentRelations "team" ["organization"]).insert sampleOrganization {}).insert
    sampleTeam { relations := Std.ExtTreeMap.empty.insert "organization" sampleOrganization }).insert
      sampleUser { relations := Std.ExtTreeMap.empty.insert "team" sampleTeam }

def sampleEngine : Engine := ⟨sampleRegistry, sampleGraph⟩

/-- The sample hierarchy has two levels. -/
theorem shallow_sampleGraph : sampleGraph.Shallow := by decide +kernel

end Sample

end HierarchicalQuota
