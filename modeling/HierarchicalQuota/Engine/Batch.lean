/-
This file defines the batches of changes, which are applied as a whole or not at all.
-/

import HierarchicalQuota.Engine.Read
import HierarchicalQuota.Engine.Update

namespace HierarchicalQuota

/-- A change adds an amount to the usage of one quota. -/
structure Change where
  scope : Entity
  name : String
  amount : Amount
deriving DecidableEq, Inhabited

namespace Engine

variable {σ : Type} [QuotaStore σ]

/-- A change is a violation if it is positive and takes the usage above a finite limit. -/
def violation? (engine : Engine) (scope : Entity) (name : String) (delta : Amount) :
    Action σ (List Violation) := do
  if 0 < delta then
    let limit ← engine.limit scope name
    if limit = .unlimited then
      return []
    else
      let usage ← engine.usage scope name
      let requested := usage + delta
      return if limit < requested then [⟨scope, name, limit, requested⟩] else []
  else
    return []

/-- A batch is checked as a whole, and all its violations are reported together. -/
def validateChange (engine : Engine) (scope : Entity) (deltas : List (String × Amount)) :
    Action σ Unit := do
  let violations ← Action.collect (fun (name, delta) => engine.violation? scope name delta) deltas
  if violations.isEmpty then
    return ()
  else
    throw (.quotasExceeded violations)

/-- A change that cannot be taken back is left standing. -/
def takeBack (engine : Engine) (change : Change) : Action σ Unit := do
  discard (Action.attempt (engine.applyDelta change.scope change.name (-change.amount) false))

/-- The changes are taken back one by one, the latest first. -/
def compensate (engine : Engine) (latestFirst : List Change) : Action σ Unit :=
  latestFirst.forM engine.takeBack

/-- The requests are applied in order. The first one that fails takes back all before it. -/
def applyAll (engine : Engine) (validate : Bool) :
    List (Except QuotaError Change) → List Change → Action σ Unit
  | [], _ => return ()
  | request :: requests, applied => do
      let outcome ← Action.attempt do
        let change ← Action.ofExcept request
        let amount ← engine.applyDelta change.scope change.name change.amount validate
        return { change with amount }
      match outcome with
      | .ok change => engine.applyAll validate requests (change :: applied)
      | .error error =>
          engine.compensate applied
          throw error

/-- Every named change, times the multiplier, is requested for every scope. -/
def requests (scopes : List Entity) (deltas : List (String × Amount)) (multiplier : Amount) :
    List Change :=
  deltas.flatMap fun (name, delta) => scopes.map fun scope => ⟨scope, name, delta * multiplier⟩

def applyChanges (engine : Engine) (scopes : List Entity) (deltas : List (String × Amount))
    (multiplier : Amount) (validate : Bool) : Action σ Unit :=
  engine.applyAll validate ((requests scopes deltas multiplier).map .ok) []

def increase (engine : Engine) (scopes : List Entity) (deltas : List (String × Amount))
    (validate : Bool) : Action σ Unit :=
  engine.applyChanges scopes deltas 1 validate

/-- A decrease is never rejected for a limit. -/
def decrease (engine : Engine) (scopes : List Entity) (deltas : List (String × Amount)) :
    Action σ Unit :=
  engine.applyChanges scopes deltas (-1) false

end Engine

end HierarchicalQuota
