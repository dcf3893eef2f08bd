/-
This file defines the full recalculation of all usages from the graph.
-/

import HierarchicalQuota.Engine.Creation

namespace HierarchicalQuota

/-- A report counts the scopes that were visited and the records that were repaired. -/
structure Report where
  scopes : Nat
  created : Nat := 0
  updated : Nat := 0
deriving DecidableEq, Inhabited

/-- A clean report tells that no record was created or updated. -/
def Report.isClean (report : Report) : Bool := report.created = 0 ∧ report.updated = 0

/-- The depth of a scope is the length of its longest chain of quota parents. Depths found on the
way are kept, and a scope that is not known when the levels are used up is too deep. -/
def Graph.depth (graph : Graph) (levels : Nat) (scope : Entity) (known : Table Entity Nat) :
    Except QuotaError (Nat × Table Entity Nat) :=
  match known[scope]? with
  | some depth => .ok (depth, known)
  | none =>
      match levels with
      | 0 => .error (.hierarchyTooDeep scope)
      | levels + 1 => do
          let (depth, known) ← (graph.quotaParents scope).foldlM
            (fun (depth, known) parent => do
              let (above, known) ← graph.depth levels parent known
              return (max depth (above + 1), known))
            (0, known)
          return (depth, known.insert scope depth)

/-- The depths of several scopes share what is known. -/
def Graph.depths (graph : Graph) : List Entity → Table Entity Nat →
    Except QuotaError (List (Nat × Entity))
  | [], _ => .ok []
  | scope :: scopes, known => do
      let (depth, known) ← graph.depth maxHierarchyDepth scope known
      let others ← graph.depths scopes known
      return (depth, scope) :: others

namespace Engine

variable {σ : Type} [QuotaStore σ]

/-- The scopes to recalculate are the instances of the registered kinds. -/
def registeredScopes (engine : Engine) : List Entity :=
  engine.registry.scopeKinds.flatMap engine.graph.instances

/-- Deeper scopes come first, and scopes of one depth are in order. -/
def bottomUp (first second : Nat × Entity) : Bool :=
  ((compare second.1 first.1).then (compare first.2 second.2)).isLE

/-- The true usage follows from the graph or from the children, and a direct usage has none. -/
def trueUsage? (engine : Engine) (scope : Entity) (field : Field) : Action σ (Option Amount) :=
  match field.rule with
  | .direct => return none
  | .counter _ | .total _ => return field.targetUsage? scope engine.graph
  | .aggregator _ => do
      let usage ← engine.sumChildren scope field
      return some usage

/-- A missing record is created from the defaults, and a usage that is not the true one is set. -/
def recalculateField (engine : Engine) (scope : Entity) (field : Field) (report : Report) :
    Action σ Report := do
  let (quota, created) ←
    Action.access (QuotaStore.getOrCreate scope field.name (field.initial scope engine.graph))
  let report := if created then { report with created := report.created + 1 } else report
  match ← engine.trueUsage? scope field with
  | none => return report
  | some usage =>
      if usage = quota.usage then return report
      else
        discard (Action.access (QuotaStore.setUsage scope field.name usage))
        return { report with updated := report.updated + 1 }

/-- Fields that are not connected to the scope are left alone. -/
def recalculateFields (engine : Engine) (scope : Entity) : List Field → Report → Action σ Report
  | [], report => return report
  | field :: fields, report => do
      if field.isConnected scope engine.graph then
        let report ← engine.recalculateField scope field report
        engine.recalculateFields scope fields report
      else
        engine.recalculateFields scope fields report

def recalculateScopes (engine : Engine) : List Entity → Report → Action σ Report
  | [], report => return report
  | scope :: scopes, report => do
      let report ← engine.recalculateFields scope (engine.registry.fields scope.kind) report
      engine.recalculateScopes scopes report

/-- One scope is recalculated from its children as they are stored. -/
def recalculateScope (engine : Engine) (scope : Entity) : Action σ Report :=
  engine.recalculateScopes [scope] { scopes := 1 }

/-- All scopes are recalculated, children before the parents that sum them. -/
def recalculateAll (engine : Engine) : Action σ Report := do
  let depths ← Action.ofExcept (engine.graph.depths engine.registeredScopes ∅)
  let scopes := (depths.mergeSort bottomUp).map (·.2)
  engine.recalculateScopes scopes { scopes := scopes.length }

end Engine

end HierarchicalQuota
