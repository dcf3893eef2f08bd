/-
This file defines quota fields: the name of a quota, its defaults, and where its usage comes from.
-/

import HierarchicalQuota.Graph
import HierarchicalQuota.Quota

namespace HierarchicalQuota

/-- A scope function computes a value for an entity from the graph. -/
abbrev ScopeFunction (α : Type) := Entity → Graph → α

/-- A default is fixed, or it is computed for the scope that asks for it. -/
inductive DefaultValue where
  | constant (amount : Amount)
  | computed (amount : ScopeFunction Amount)

def DefaultValue.resolve (default : DefaultValue) (scope : Entity) (graph : Graph) : Amount :=
  match default with
  | .constant amount => amount
  | .computed amount => amount scope graph

/-- A counter weighs the instances of its target kinds that reference the scope. -/
structure CounterRule where
  targets : List String
  path : RelationPath
  weight : Option (ScopeFunction Amount) := none
  currentUsage : Option (List String → ScopeFunction Amount) := none

/-- A total sums one attribute over the instances of its target kinds that reference the scope. -/
structure TotalRule where
  targets : List String
  path : RelationPath
  summedAttribute : String

/-- An aggregator sums a measure over one quota of the scope's children. -/
structure AggregatorRule where
  childKind : String
  path : RelationPath
  measure : Measure
  childQuota : Option String := none

/-- The children of a scope are the entities of the child kind that reference it. -/
def AggregatorRule.children (rule : AggregatorRule) (scope : Entity) (graph : Graph) :
    List Entity :=
  graph.referencing rule.childKind rule.path scope

/-- The usage of a quota is set directly, counted, totalled or aggregated. -/
inductive UsageRule where
  | direct
  | counter (rule : CounterRule)
  | total (rule : TotalRule)
  | aggregator (rule : AggregatorRule)

/-- A field describes one named quota of a kind of scope. -/
structure Field where
  name : String
  rule : UsageRule := .direct
  defaultLimit : DefaultValue := .constant .unlimited
  defaultUsage : DefaultValue := .constant 0
  isBackend : Bool := false
  condition : Option (ScopeFunction Bool) := none

namespace Field

/-- A field whose creation condition fails for a scope is not connected to it. -/
def isConnected (field : Field) (scope : Entity) (graph : Graph) : Bool :=
  field.condition.all fun condition => condition scope graph

/-- The initial quota of a scope holds the defaults of the field. -/
def initial (field : Field) (scope : Entity) (graph : Graph) : Quota :=
  ⟨field.defaultLimit.resolve scope graph, field.defaultUsage.resolve scope graph⟩

def aggregator? (field : Field) : Option AggregatorRule :=
  match field.rule with
  | .aggregator rule => some rule
  | _ => none

/-- An aggregator sums the child quota of its own name unless it names another. -/
def childQuota? (field : Field) : Option String :=
  field.aggregator?.map fun rule => rule.childQuota.getD field.name

/-- The child quota can be named for an aggregator only. -/
def withChildQuota (field : Field) (name : String) : Field :=
  match field.rule with
  | .aggregator rule => { field with rule := .aggregator { rule with childQuota := some name } }
  | _ => field

/-- Counters and totals have target kinds and a path from a target to the scope. -/
def targets? (field : Field) : Option (List String × RelationPath) :=
  match field.rule with
  | .counter rule => some (rule.targets, rule.path)
  | .total rule => some (rule.targets, rule.path)
  | .direct | .aggregator _ => none

/-- The weight of a target is what it adds to the usage of its scope. -/
def weight (field : Field) (target : Entity) (graph : Graph) : Amount :=
  match field.rule with
  | .counter rule => rule.weight.elim 1 fun weight => weight target graph
  | .total rule => (graph.attributeOf target rule.summedAttribute).getD 0
  | .direct | .aggregator _ => 0

/-- Only a total follows the changes of an attribute. -/
def trackedAttribute? (field : Field) : Option String :=
  match field.rule with
  | .total rule => some rule.summedAttribute
  | _ => none

/-- The targets of a scope are listed kind by kind. -/
def targetsOf (kinds : List String) (path : RelationPath) (scope : Entity) (graph : Graph) :
    List Entity :=
  kinds.flatMap fun kind => graph.referencing kind path scope

/-- The weights of all targets are added up from the left. -/
def weightSum (field : Field) (kinds : List String) (path : RelationPath) (scope : Entity)
    (graph : Graph) : Amount :=
  ((targetsOf kinds path scope graph).map fun target => field.weight target graph).foldl (· + ·) 0

/-- The usage of a counter or a total follows from the graph. -/
def targetUsage? (field : Field) (scope : Entity) (graph : Graph) : Option Amount :=
  match field.rule with
  | .counter rule =>
      match rule.currentUsage with
      | some usage => some (usage rule.targets scope graph)
      | none => some (field.weightSum rule.targets rule.path scope graph)
  | .total rule => some (field.weightSum rule.targets rule.path scope graph)
  | .direct | .aggregator _ => none

end Field

end HierarchicalQuota
