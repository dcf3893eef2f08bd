/-
This file defines stores with planned faults, on which failures can be tried out.
-/

import HierarchicalQuota.Store

namespace HierarchicalQuota

/-- A store method is one of the accesses of a store. -/
inductive StoreMethod where
  | get
  | getOrCreate
  | setLimit
  | setUsage
  | addUsage
  | shiftUsage
  | listScope
  | deleteScope
deriving DecidableEq, Inhabited

/-- A fault fails with an error, or it hides what the store knows about the record. -/
inductive FaultKind where
  | poisoned
  | inputOutput
  | notFound
  | hidden
deriving DecidableEq, Inhabited

/-- A fault fires on a method, for one scope and name or for all, as often as it is planned. -/
structure Fault where
  method : StoreMethod
  scope : Option Entity := none
  name : Option String := none
  times : Option Nat := none
  kind : FaultKind
deriving DecidableEq, Inhabited

namespace Fault

def matches? (fault : Fault) (method : StoreMethod) (scope : Entity) (name : String) : Bool :=
  fault.method = method ∧ fault.scope.all (· = scope) ∧ fault.name.all (· = name) ∧
    fault.times ≠ some 0

/-- A fault that has fired has one time less left. -/
def fired (fault : Fault) : Fault := { fault with times := fault.times.map (· - 1) }

/-- The first fault that matches fires. -/
def fire (method : StoreMethod) (scope : Entity) (name : String) :
    List Fault → Option FaultKind × List Fault
  | [] => (none, [])
  | fault :: faults =>
      if fault.matches? method scope name then (some fault.kind, fault.fired :: faults)
      else
        let (kind, rest) := fire method scope name faults
        (kind, fault :: rest)

end Fault

/-- A faulty store is a store together with the faults that are planned for it. -/
structure FaultyStore (σ : Type) where
  store : σ
  faults : List Fault := []

namespace FaultyStore

variable {σ : Type} [QuotaStore σ]

/-- An access of the inner store leaves the faults as they are. -/
def inner {α : Type} (access : StoreAccess σ α) : StoreAccess (FaultyStore σ) α := fun state =>
  match access state.store with
  | .ok value store => .ok value { state with store }
  | .error error store => .error error { state with store }

/-- An access fires a fault first, and only a hiding one lets the access go on in a changed form. -/
def guarded {α : Type} (method : StoreMethod) (scope : Entity) (name : String)
    (plain hidden : StoreAccess σ α) : StoreAccess (FaultyStore σ) α := fun state =>
  let (fault, faults) := Fault.fire method scope name state.faults
  let state := { state with faults }
  match fault with
  | none => inner plain state
  | some .poisoned => .error (.poisoned "injected") state
  | some .inputOutput => .error (.inputOutput "injected") state
  | some .notFound => .error (.notFound scope name) state
  | some .hidden => inner hidden state

/-- A hidden record is rejected with its own numbers, or with those of an absent limit. -/
def reject (scope : Entity) (name : String) : StoreAccess σ UsageUpdate := do
  match ← QuotaStore.get scope name with
  | some quota => return .rejected quota.usage quota.limit
  | none => return .rejected 0 .unlimited

instance : QuotaStore (FaultyStore σ) where
  get scope name := guarded .get scope name (QuotaStore.get scope name) (pure none)
  getOrCreate scope name initial :=
    guarded .getOrCreate scope name (QuotaStore.getOrCreate scope name initial)
      (QuotaStore.getOrCreate scope name initial)
  setLimit scope name limit :=
    guarded .setLimit scope name (QuotaStore.setLimit scope name limit) do
      discard (QuotaStore.setLimit scope name limit)
      return none
  setUsage scope name usage :=
    guarded .setUsage scope name (QuotaStore.setUsage scope name usage) do
      discard (QuotaStore.setUsage scope name usage)
      return none
  addUsage scope name delta validate :=
    guarded .addUsage scope name (QuotaStore.addUsage scope name delta validate)
      (reject scope name)
  shiftUsage scope name delta :=
    guarded .shiftUsage scope name (QuotaStore.shiftUsage scope name delta) (reject scope name)
  listScope scope :=
    guarded .listScope scope "" (QuotaStore.listScope scope) (QuotaStore.listScope scope)
  deleteScope scope :=
    guarded .deleteScope scope "" (QuotaStore.deleteScope scope) (QuotaStore.deleteScope scope)

end FaultyStore

end HierarchicalQuota
