/-
This file defines how a quota comes into being, together with the aggregates that need it.
-/

import HierarchicalQuota.Engine.Propagation

namespace HierarchicalQuota.Engine

variable {σ : Type} [QuotaStore σ]

/-- A child without a record adds nothing to the sum. -/
def sumOver (quota : String) (measure : Measure) : List Entity → Amount → Action σ Amount
  | [], sum => return sum
  | child :: children, sum => do
      match ← Action.access (QuotaStore.get child quota) with
      | some record => sumOver quota measure children (sum + record.value measure)
      | none => sumOver quota measure children sum

/-- The usage of an aggregate is the sum over its children, and other fields have none. -/
def sumChildren (engine : Engine) (scope : Entity) (field : Field) : Action σ Amount :=
  match field.aggregator?, field.childQuota? with
  | some rule, some quota => sumOver quota rule.measure (rule.children scope engine.graph) 0
  | _, _ => return 0

/-- A new aggregate starts from the sum over its children instead of its default usage. -/
def startingQuota (engine : Engine) (scope : Entity) (field : Field) : Action σ Quota :=
  let initial := field.initial scope engine.graph
  if field.aggregator?.isSome then do
    let usage ← engine.sumChildren scope field
    return { initial with usage }
  else
    return initial

/-- A new record is announced upwards, and aggregates found missing are created in turn. Each of
these nested creations adds a record, so a budget of one more than there can be is never used up. -/
def create (engine : Engine) (budget : Nat) (target : Aggregate) : Action σ Quota := do
  match ← Action.access (QuotaStore.get target.scope target.field.name) with
  | some existing => return existing
  | none =>
      let starting ← engine.startingQuota target.scope target.field
      let (quota, created) ←
        Action.access (QuotaStore.getOrCreate target.scope target.field.name starting)
      if created then
        match budget with
        | 0 => return quota
        | budget + 1 =>
            let usageMissing ← engine.spread target.scope target.field.name .usage quota.usage
            let limitMissing ← engine.spread target.scope target.field.name .limit quota.limit
            (usageMissing ++ limitMissing).forM fun aggregate =>
              discard (engine.create budget aggregate)
            return quota
      else
        return quota

/-- Only targets of relations are quota parents, so this number bounds the aggregates that exist. -/
def creationBudget (engine : Engine) : Nat :=
  (engine.graph.nodes.toList.flatMap fun entry => entry.2.relations.toList).length *
    engine.registry.registrations.length + 1

/-- Missing aggregates are created in the order in which they were found. -/
def createMissing (engine : Engine) (missing : List Aggregate) : Action σ Unit :=
  missing.forM fun aggregate => discard (engine.create engine.creationBudget aggregate)

/-- The record of a field is read, and created only if there is none. -/
def ensure (engine : Engine) (scope : Entity) (field : Field) : Action σ Quota := do
  match ← Action.access (QuotaStore.get scope field.name) with
  | some existing => return existing
  | none => engine.create engine.creationBudget ⟨scope, field⟩

/-- A quota that is registered and connected is read or created. -/
def getOrCreate (engine : Engine) (scope : Entity) (name : String) : Action σ Quota := do
  let field ← Action.ofExcept (engine.field scope name)
  if field.isConnected scope engine.graph then
    engine.ensure scope field
  else
    throw (.creationConditionFailed scope name)

end HierarchicalQuota.Engine
