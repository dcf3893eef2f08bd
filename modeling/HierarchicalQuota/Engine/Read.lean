/-
This file defines the reads of quotas, none of which creates a record.
-/

import HierarchicalQuota.Engine

namespace HierarchicalQuota.Engine

variable {σ : Type} [QuotaStore σ]

/-- A quota without a record reads as the field's defaults. -/
def effective (engine : Engine) (scope : Entity) (field : Field) : Action σ Quota := do
  let stored ← Action.access (QuotaStore.get scope field.name)
  return stored.getD (field.initial scope engine.graph)

/-- The usage is never reported below zero. -/
def usage (engine : Engine) (scope : Entity) (name : String) : Action σ Amount := do
  let field ← Action.ofExcept (engine.field scope name)
  let quota ← engine.effective scope field
  return max quota.usage 0

def limit (engine : Engine) (scope : Entity) (name : String) : Action σ Amount := do
  let field ← Action.ofExcept (engine.field scope name)
  let quota ← engine.effective scope field
  return quota.limit

/-- The connected quotas of a scope are listed in the order of their registration. -/
def quotas (engine : Engine) (scope : Entity) : Action σ (List Record) :=
  Action.collect
    (fun field => do
      if field.isConnected scope engine.graph then
        let quota ← engine.effective scope field
        return [⟨scope, field.name, quota⟩]
      else
        return [])
    (engine.registry.fields scope.kind)

/-- A sum of limits is unlimited as soon as one of them is. -/
def addLimit (sum limit : Amount) : Amount :=
  if sum = .unlimited ∨ limit = .unlimited then .unlimited else sum + limit

/-- A limit is added under the quota's name, and a usage under that name with a suffix. -/
def addMeasure (name : String) (quota : Quota) (sums : Table String Amount) :
    Measure → Table String Amount
  | .usage =>
      let key := name ++ "_usage"
      sums.insert key (sums.getD key 0 + quota.usage)
  | .limit => sums.insert name (addLimit (sums.getD name 0) quota.limit)

/-- Every named quota of a scope is looked up, and its measures are added in their order. -/
def sumScope (engine : Engine) (scope : Entity) (measures : List Measure) :
    List String → Table String Amount → Action σ (Table String Amount)
  | [], sums => return sums
  | name :: names, sums => do
      let field ← Action.ofExcept (engine.field scope name)
      let quota ← engine.effective scope field
      engine.sumScope scope measures names (measures.foldl (addMeasure name quota) sums)

/-- The scopes are summed one after the other. -/
def sumScopes (engine : Engine) (names : Option (List String)) (measures : List Measure) :
    List Entity → Table String Amount → Action σ (Table String Amount)
  | [], sums => return sums
  | scope :: scopes, sums => do
      let sums ← engine.sumScope scope measures (names.getD (engine.registry.names scope.kind)) sums
      engine.sumScopes names measures scopes sums

/-- Without a list of names, every registered quota of each scope is summed. -/
def sums (engine : Engine) (scopes : List Entity) (names : Option (List String))
    (measures : List Measure) : Action σ (Table String Amount) :=
  engine.sumScopes names measures scopes ∅

end HierarchicalQuota.Engine
