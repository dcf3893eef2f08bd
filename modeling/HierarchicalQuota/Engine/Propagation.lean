/-
This file defines how a change to a child's quota reaches the aggregates above it.
-/

import HierarchicalQuota.Engine

namespace HierarchicalQuota

/-- An aggregate is an aggregator field of one scope. -/
structure Aggregate where
  scope : Entity
  field : Field

/-- A wave holds the aggregates that moved, with their changes, and those without a record. -/
structure Wave where
  moved : List (Aggregate × Amount) := []
  missing : List Aggregate := []

namespace Engine

variable {σ : Type} [QuotaStore σ]

/-- The aggregates over a child's quota are found parent by parent, in the order of registration. -/
def aggregatesOver (engine : Engine) (child : Entity) (quota : String) (measure : Measure) :
    List Aggregate :=
  (engine.graph.quotaParents child).flatMap fun parent =>
    ((engine.registry.aggregatorsOver parent.kind quota measure).filter fun field =>
      field.isConnected parent engine.graph).map fun field => ⟨parent, field⟩

/-- Every aggregate is shifted in turn, and one that the store rejects stays where it is. -/
def shiftAll (delta : Amount) : List Aggregate → Action σ Wave
  | [] => return {}
  | aggregate :: rest => do
      match ← Action.attempt (QuotaStore.shiftUsage aggregate.scope aggregate.field.name delta) with
      | .ok (.applied old new _) =>
          let wave ← shiftAll delta rest
          return { wave with moved := (aggregate, new - old) :: wave.moved }
      | .ok (.rejected ..) => shiftAll delta rest
      | .error (.notFound ..) =>
          let wave ← shiftAll delta rest
          return { wave with missing := aggregate :: wave.missing }
      | .error error => throw (.storage error)

/-- A change shifts the aggregates over it, and each of these passes its own change on. The last
one to move passes on first. The answer lists the aggregates that had no record. -/
def propagate (engine : Engine) (levels : Nat) (child : Entity) (quota : String)
    (measure : Measure) (delta : Amount) : Action σ (List Aggregate) :=
  if delta = 0 then return []
  else match levels with
    | 0 => throw (.hierarchyTooDeep child)
    | levels + 1 => do
        let wave ← shiftAll delta (engine.aggregatesOver child quota measure)
        let missing ← Action.collect
          (fun (aggregate, change) =>
            engine.propagate levels aggregate.scope aggregate.field.name .usage change)
          wave.moved.reverse
        return wave.missing ++ missing

/-- A change of a record spreads from below the deepest level that is allowed. -/
def spread (engine : Engine) (child : Entity) (quota : String) (measure : Measure)
    (delta : Amount) : Action σ (List Aggregate) :=
  engine.propagate maxHierarchyDepth child quota measure delta

end Engine

end HierarchicalQuota
