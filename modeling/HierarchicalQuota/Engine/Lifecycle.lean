/-
This file defines how quotas follow the creation, deletion and change of entities.
-/

import HierarchicalQuota.Engine.Batch

namespace HierarchicalQuota

/-- An event tells what has happened to an entity. -/
inductive EntityEvent where
  | created (entity : Entity)
  | deleted (entity : Entity)
  | attributeChanged (entity : Entity) (name : String) (old new : Amount)
deriving DecidableEq, Inhabited

/-- A target of counters and totals appears, disappears, or changes one attribute. -/
inductive TargetChange where
  | created
  | deleted
  | attributeChanged (name : String) (delta : Amount)
deriving DecidableEq, Inhabited

/-- A field that does not track the changed attribute is not affected. -/
def TargetChange.delta (change : TargetChange) (field : Field) (entity : Entity) (graph : Graph) :
    Amount :=
  match change with
  | .created => field.weight entity graph
  | .deleted => -field.weight entity graph
  | .attributeChanged name delta => if field.trackedAttribute? = some name then delta else 0

namespace Engine

variable {σ : Type} [QuotaStore σ]

/-- A targeting field asks for a change of the connected scope at the end of its path. -/
def targetRequest? (engine : Engine) (entity : Entity) (change : TargetChange)
    (registration : Registration) : Option (Except QuotaError Change) :=
  let field := registration.field
  let delta := change.delta field entity engine.graph
  if delta = 0 then none
  else do
    let (_, path) ← field.targets?
    let scope ← engine.graph.resolve entity path
    if scope.kind ≠ registration.kind then
      some (.error (.scopeKindMismatch scope field.name registration.kind))
    else if field.isConnected scope engine.graph then
      some (.ok ⟨scope, field.name, delta⟩)
    else
      none

/-- All fields that target the entity's kind are changed, or none is. -/
def applyTargetChange (engine : Engine) (entity : Entity) (change : TargetChange) :
    Action σ Unit :=
  engine.applyAll true
    ((engine.registry.targeting entity.kind).filterMap (engine.targetRequest? entity change)) []

/-- The answer counts the connected fields that had no record. -/
def initializeFields (engine : Engine) (scope : Entity) : List Field → Action σ Nat
  | [] => return 0
  | field :: fields => do
      if field.isConnected scope engine.graph then
        match ← Action.access (QuotaStore.get scope field.name) with
        | some _ => engine.initializeFields scope fields
        | none =>
            discard (engine.ensure scope field)
            let count ← engine.initializeFields scope fields
            return count + 1
      else
        engine.initializeFields scope fields

/-- Every connected quota of a scope gets a record. -/
def initializeScope (engine : Engine) (scope : Entity) : Action σ Nat :=
  engine.initializeFields scope (engine.registry.fields scope.kind)

/-- A scope whose creation is rejected loses its records again. -/
def entityCreated (engine : Engine) (entity : Entity) : Action σ Unit := do
  let isScope := engine.registry.isScopeKind entity.kind
  if isScope then
    discard (engine.initializeScope entity)
  match ← Action.attempt (engine.applyTargetChange entity .created) with
  | .ok () => return ()
  | .error error =>
      if isScope then
        discard (Action.attempt (engine.childDeleted entity))
      throw error

/-- The entity is taken from its counters before its own records are removed. -/
def entityDeleted (engine : Engine) (entity : Entity) : Action σ Unit := do
  engine.applyTargetChange entity .deleted
  if engine.registry.isScopeKind entity.kind then
    engine.childDeleted entity

/-- An attribute that keeps its value changes nothing. -/
def attributeChanged (engine : Engine) (entity : Entity) (name : String) (old new : Amount) :
    Action σ Unit :=
  if new - old = 0 then return ()
  else engine.applyTargetChange entity (.attributeChanged name (new - old))

def handle (engine : Engine) : EntityEvent → Action σ Unit
  | .created entity => engine.entityCreated entity
  | .deleted entity => engine.entityDeleted entity
  | .attributeChanged entity name old new => engine.attributeChanged entity name old new

end Engine

end HierarchicalQuota
