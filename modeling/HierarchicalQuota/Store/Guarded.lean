/-
This file defines stores that are opened for reading only or for reading and writing.
-/

import HierarchicalQuota.Store

namespace HierarchicalQuota

/-- A guarded store is a store together with the permission to write. -/
structure GuardedStore (σ : Type) where
  store : σ
  writable : Bool

namespace GuardedStore

variable {σ : Type} [QuotaStore σ]

/-- An access of the inner store leaves the permission as it is. -/
def inner {α : Type} (access : StoreAccess σ α) : StoreAccess (GuardedStore σ) α := fun state =>
  match access state.store with
  | .ok value store => .ok value { state with store }
  | .error error store => .error error { state with store }

/-- A write needs the permission. -/
def write {α : Type} (access : StoreAccess σ α) : StoreAccess (GuardedStore σ) α := fun state =>
  if state.writable then inner access state else .error .readOnly state

/-- A change needs the permission only if it is applied. -/
def change (access : StoreAccess σ UsageUpdate) : StoreAccess (GuardedStore σ) UsageUpdate :=
  fun state =>
    match inner access state with
    | .ok (.applied old new limit) changed =>
        if state.writable then .ok (.applied old new limit) changed else .error .readOnly state
    | result => result

instance : QuotaStore (GuardedStore σ) where
  get scope name := inner (QuotaStore.get scope name)
  getOrCreate scope name initial := write (QuotaStore.getOrCreate scope name initial)
  setLimit scope name limit := write (QuotaStore.setLimit scope name limit)
  setUsage scope name usage := write (QuotaStore.setUsage scope name usage)
  addUsage scope name delta validate := change (QuotaStore.addUsage scope name delta validate)
  shiftUsage scope name delta := change (QuotaStore.shiftUsage scope name delta)
  listScope scope := inner (QuotaStore.listScope scope)
  deleteScope scope := write (QuotaStore.deleteScope scope)

end GuardedStore

end HierarchicalQuota
