/-
This file defines the updates of one quota, each of which also updates the aggregates above it.
-/

import HierarchicalQuota.Engine.Creation

namespace HierarchicalQuota.Engine

variable {σ : Type} [QuotaStore σ]

/-- A change of a child's quota is spread, and aggregates found missing are created. -/
def childChanged (engine : Engine) (child : Entity) (name : String) (measure : Measure)
    (old new : Amount) : Action σ Unit := do
  let missing ← engine.spread child name measure (new - old)
  engine.createMissing missing

/-- Any limit can be set, also one below the usage. -/
def setLimit (engine : Engine) (scope : Entity) (name : String) (limit : Amount) :
    Action σ Unit := do
  discard (engine.getOrCreate scope name)
  let previous ← Action.access (QuotaStore.setLimit scope name limit)
  engine.childChanged scope name .limit (previous.getD limit) limit

/-- An administrator can neither change a backend's limit nor set a finite one below the usage. -/
def updateLimit (engine : Engine) (scope : Entity) (name : String) (limit : Amount) :
    Action σ Unit := do
  let field ← Action.ofExcept (engine.field scope name)
  if field.isBackend then
    throw (.backendQuota scope name)
  else
    let quota ← engine.getOrCreate scope name
    if limit ≠ .unlimited ∧ limit < quota.usage then
      throw (.limitBelowUsage quota.usage limit)
    else
      engine.setLimit scope name limit

/-- A negative usage is stored as zero. -/
def setUsage (engine : Engine) (scope : Entity) (name : String) (usage : Amount) :
    Action σ Unit := do
  discard (engine.getOrCreate scope name)
  let usage := max usage 0
  let previous ← Action.access (QuotaStore.setUsage scope name usage)
  engine.childChanged scope name .usage (previous.getD usage) usage

/-- The answer is the change that was stored, which the floor at zero can make smaller. -/
def applyDelta (engine : Engine) (scope : Entity) (name : String) (delta : Amount)
    (validate : Bool) : Action σ Amount :=
  if delta = 0 then return 0
  else do
    discard (engine.getOrCreate scope name)
    match ← Action.access (QuotaStore.addUsage scope name delta validate) with
    | .applied old new _ =>
        engine.childChanged scope name .usage old new
        return new - old
    | .rejected usage limit => throw (.limitExceeded ⟨scope, name, limit, usage + delta⟩)

/-- A validated change that would take the usage above a finite limit fails. -/
def addUsage (engine : Engine) (scope : Entity) (name : String) (delta : Amount)
    (validate : Bool) : Action σ Unit :=
  discard (engine.applyDelta scope name delta validate)

/-- Both numbers of a child's removed record are taken back from the aggregates above the child. -/
def withdraw (engine : Engine) (child : Entity) (record : Record) :
    Action σ (List Aggregate) := do
  let usageMissing ← engine.spread child record.name .usage (-record.quota.usage)
  let limitMissing ← engine.spread child record.name .limit (-record.quota.limit)
  return usageMissing ++ limitMissing

/-- The records of a scope are removed before their numbers are taken back. -/
def childDeleted (engine : Engine) (child : Entity) : Action σ Unit := do
  let records ← Action.access (QuotaStore.deleteScope child)
  let missing ← Action.collect (engine.withdraw child) records
  engine.createMissing missing

end HierarchicalQuota.Engine
