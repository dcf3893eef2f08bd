/-
This file defines the store that keeps the records of each scope in a table of their own.
-/

import HierarchicalQuota.Store

namespace HierarchicalQuota

/-- A memory store maps scopes to their quotas, and every scope in it has a quota. -/
structure MemoryStore where
  scopes : Table Entity (Table String Quota)
  inhabited : ∀ (scope : Entity) (quotas : Table String Quota),
    scopes[scope]? = some quotas → quotas ≠ ∅

namespace MemoryStore

def empty : MemoryStore := ⟨∅, by simp⟩

instance : Inhabited MemoryStore := ⟨empty⟩

/-- A scope that is not in the store has no quotas. -/
def quotas (store : MemoryStore) (scope : Entity) : Table String Quota :=
  store.scopes.getD scope ∅

def lookup (store : MemoryStore) (scope : Entity) (name : String) : Option Quota :=
  (store.quotas scope)[name]?

/-- This function writes one quota and keeps all others. -/
def put (store : MemoryStore) (scope : Entity) (name : String) (quota : Quota) : MemoryStore where
  scopes := store.scopes.insert scope ((store.quotas scope).insert name quota)
  inhabited other quotas found := by
    rw [Std.ExtTreeMap.getElem?_insert] at found
    split at found
    · obtain rfl := Option.some.inj found
      simp
    · exact store.inhabited other quotas found

/-- This function removes all quotas of a scope. -/
def drop (store : MemoryStore) (scope : Entity) : MemoryStore where
  scopes := store.scopes.erase scope
  inhabited other quotas found := by
    rw [Std.ExtTreeMap.getElem?_erase] at found
    split at found
    · cases found
    · exact store.inhabited other quotas found

def list (store : MemoryStore) (scope : Entity) : List Record :=
  (store.quotas scope).toList.map fun entry => ⟨scope, entry.1, entry.2⟩

/-- This number counts the scopes that hold a record. -/
def scopeCount (store : MemoryStore) : Nat := store.scopes.size

def records (store : MemoryStore) : List Record := store.scopes.keys.flatMap store.list

/-- A change to a quota that is missing is an error. -/
def change (store : MemoryStore) (scope : Entity) (name : String)
    (decide : Quota → UsageUpdate) : EStateM.Result StorageError MemoryStore UsageUpdate :=
  match store.lookup scope name with
  | none => .error (.notFound scope name) store
  | some quota => .ok (decide quota) (store.put scope name (quota.update (decide quota)))

instance : QuotaStore MemoryStore where
  get scope name store := .ok (store.lookup scope name) store
  getOrCreate scope name initial store :=
    match store.lookup scope name with
    | some quota => .ok (quota, false) store
    | none => .ok (initial, true) (store.put scope name initial)
  setLimit scope name limit store :=
    match store.lookup scope name with
    | some quota => .ok (some quota.limit) (store.put scope name { quota with limit })
    | none => .ok none (store.put scope name ⟨limit, 0⟩)
  setUsage scope name usage store :=
    match store.lookup scope name with
    | some quota => .ok (some quota.usage) (store.put scope name { quota with usage })
    | none => .ok none (store.put scope name ⟨.unlimited, usage⟩)
  addUsage scope name delta validate store :=
    store.change scope name fun quota => quota.addUsage delta validate
  shiftUsage scope name delta store :=
    store.change scope name fun quota => quota.shiftUsage delta
  listScope scope store := .ok (store.list scope) store
  deleteScope scope store := .ok (store.list scope) (store.drop scope)

instance : EnumerableStore MemoryStore := ⟨records⟩

@[simp] theorem lookup_empty (scope : Entity) (name : String) : empty.lookup scope name = none := by
  simp [lookup, quotas, empty]

theorem quotas_put (store : MemoryStore) (scope other : Entity) (name : String) (quota : Quota) :
    (store.put scope name quota).quotas other =
      if scope = other then (store.quotas other).insert name quota else store.quotas other := by
  simp only [quotas, put, Std.ExtTreeMap.getD_insert, Std.LawfulEqOrd.compare_eq_iff_eq]
  split
  · rename_i same
    rw [same]
  · rfl

theorem lookup_put (store : MemoryStore) (scope other : Entity) (name label : String)
    (quota : Quota) :
    (store.put scope name quota).lookup other label =
      if scope = other ∧ name = label then some quota else store.lookup other label := by
  rw [lookup, quotas_put, lookup]
  by_cases same : scope = other
  · simp [same, Std.ExtTreeMap.getElem?_insert]
  · simp [same]

theorem lookup_drop (store : MemoryStore) (scope other : Entity) (name : String) :
    (store.drop scope).lookup other name =
      if scope = other then none else store.lookup other name := by
  simp only [lookup, quotas, drop, Std.ExtTreeMap.getD_erase, Std.LawfulEqOrd.compare_eq_iff_eq]
  split <;> simp

theorem getElem?_scopes (store : MemoryStore) (scope : Entity) :
    store.scopes[scope]? =
      if store.quotas scope = ∅ then none else some (store.quotas scope) := by
  have default : store.quotas scope = store.scopes[scope]?.getD ∅ :=
    Std.ExtTreeMap.getD_eq_getD_getElem?
  cases found : store.scopes[scope]? with
  | none => simp [default, found]
  | some quotas => simp [default, found, store.inhabited scope quotas found]

/-- A memory store is determined by its lookups. -/
theorem ext_lookup {first second : MemoryStore}
    (same : ∀ scope name, first.lookup scope name = second.lookup scope name) :
    first = second := by
  have quotas_eq : ∀ scope, first.quotas scope = second.quotas scope := fun scope =>
    Std.ExtTreeMap.ext_getElem? fun name => same scope name
  have scopes_eq : first.scopes = second.scopes := by
    apply Std.ExtTreeMap.ext_getElem?
    intro scope
    rw [getElem?_scopes, getElem?_scopes, quotas_eq]
  cases first
  cases second
  cases scopes_eq
  rfl

end MemoryStore

end HierarchicalQuota
