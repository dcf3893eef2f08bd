/-
This file defines the engine, the actions it runs on a store, and how it reaches the store.
-/

import HierarchicalQuota.Registry
import HierarchicalQuota.Store

namespace HierarchicalQuota

/-- An engine applies the rules of a registry to the entities of a graph. -/
structure Engine where
  registry : Registry
  graph : Graph

/-- An action yields a value or an error, and in both cases the store as it is afterwards. -/
abbrev Action (σ : Type) := EStateM QuotaError σ

namespace Action

variable {σ α : Type}

/-- An error of the store is an error of the action. -/
def access (access : StoreAccess σ α) : Action σ α := EStateM.adaptExcept .storage access

/-- The outcome of an attempt is a value, also where the attempt fails. -/
def attempt {ε : Type} (access : EStateM ε σ α) : Action σ (Except ε α) := fun store =>
  match access store with
  | .ok value store => .ok (.ok value) store
  | .error error store => .ok (.error error) store

/-- A result that does not need the store is an action that leaves it alone. -/
def ofExcept (result : Except QuotaError α) : Action σ α := fun store =>
  match result with
  | .ok value => .ok value store
  | .error error => .error error store

/-- An action runs for every item in turn, and the lists it yields are appended. -/
def collect {ι : Type} (action : ι → Action σ (List α)) : List ι → Action σ (List α)
  | [] => return []
  | item :: items => do
      let first ← action item
      let others ← collect action items
      return first ++ others

end Action

namespace Engine

def field (engine : Engine) (scope : Entity) (name : String) : Except QuotaError Field :=
  engine.registry.field scope.kind name

end Engine

end HierarchicalQuota
