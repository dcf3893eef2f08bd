/-
This file defines the store that keeps all records as rows of one table with a unique key.
-/

import HierarchicalQuota.Store

namespace HierarchicalQuota

/-- A row is found by its scope together with its name. -/
@[ext] structure RowKey where
  scope : Entity
  name : String
deriving DecidableEq, Inhabited

namespace RowKey

/-- Keys are ordered by scope and then by name. -/
instance : Ord RowKey := ⟨compareLex (compareOn scope) (compareOn name)⟩

theorem compare_def (left right : RowKey) :
    compare left right =
      (compare left.scope right.scope).then (compare left.name right.name) := rfl

instance : Std.TransOrd RowKey :=
  inferInstanceAs (Std.TransCmp (compareLex (compareOn scope) (compareOn name)))

instance : Std.LawfulEqOrd RowKey where
  eq_of_compare {left right} equal := by
    rw [compare_def, Ordering.then_eq_eq] at equal
    exact RowKey.ext (Std.LawfulEqOrd.eq_of_compare equal.1)
      (Std.LawfulEqOrd.eq_of_compare equal.2)

end RowKey

/-- A row store holds one row for every record. -/
@[ext] structure RowStore where
  rows : Table RowKey Quota := ∅

namespace RowStore

def empty : RowStore := {}

instance : Inhabited RowStore := ⟨empty⟩

def lookup (store : RowStore) (scope : Entity) (name : String) : Option Quota :=
  store.rows[RowKey.mk scope name]?

/-- A new row is kept out if its key is in use. -/
def insertNew (store : RowStore) (scope : Entity) (name : String) (quota : Quota) : RowStore :=
  ⟨store.rows.insertIfNew ⟨scope, name⟩ quota⟩

/-- The quota of an existing row is replaced. -/
def modify (store : RowStore) (scope : Entity) (name : String) (change : Quota → Quota) :
    RowStore :=
  ⟨store.rows.modify ⟨scope, name⟩ change⟩

/-- The records are listed by scope and then by name. -/
def records (store : RowStore) : List Record :=
  store.rows.toList.map fun row => ⟨row.1.scope, row.1.name, row.2⟩

/-- The rows of a scope are selected from all rows. -/
def select (store : RowStore) (scope : Entity) : List Record :=
  store.records.filter fun record => record.scope = scope

def delete (store : RowStore) (scope : Entity) : RowStore :=
  ⟨store.rows.filter fun key _ => key.scope ≠ scope⟩

/-- This function makes a store of the given records, and of records with one key the first is
kept. -/
def ofRecords (records : List Record) : RowStore :=
  records.foldl (fun store record => store.insertNew record.scope record.name record.quota) empty

/-- A change to a row that is missing is an error, and a rejected one writes nothing. -/
def change (store : RowStore) (scope : Entity) (name : String)
    (decide : Quota → UsageUpdate) : EStateM.Result StorageError RowStore UsageUpdate :=
  match store.lookup scope name with
  | none => .error (.notFound scope name) store
  | some quota =>
      match decide quota with
      | .rejected usage limit => .ok (.rejected usage limit) store
      | .applied old new limit =>
          .ok (.applied old new limit)
            (store.modify scope name fun row => { row with usage := new })

instance : QuotaStore RowStore where
  get scope name store := .ok (store.lookup scope name) store
  getOrCreate scope name initial store :=
    let inserted := store.insertNew scope name initial
    match inserted.lookup scope name with
    | none => .error (.notFound scope name) store
    | some quota => .ok (quota, inserted.rows.size != store.rows.size) inserted
  setLimit scope name limit store :=
    .ok ((store.lookup scope name).map (·.limit))
      ((store.insertNew scope name ⟨limit, 0⟩).modify scope name fun row => { row with limit })
  setUsage scope name usage store :=
    .ok ((store.lookup scope name).map (·.usage))
      ((store.insertNew scope name ⟨.unlimited, usage⟩).modify scope name fun row =>
        { row with usage })
  addUsage scope name delta validate store :=
    store.change scope name fun quota => quota.addUsage delta validate
  shiftUsage scope name delta store :=
    store.change scope name fun quota => quota.shiftUsage delta
  listScope scope store := .ok (store.select scope) store
  deleteScope scope store := .ok (store.select scope) (store.delete scope)

instance : EnumerableStore RowStore := ⟨records⟩

@[simp] theorem lookup_empty (scope : Entity) (name : String) : empty.lookup scope name = none := by
  simp [lookup, empty]

theorem lookup_insertNew (store : RowStore) (scope other : Entity) (name label : String)
    (quota : Quota) :
    (store.insertNew scope name quota).lookup other label =
      if scope = other ∧ name = label then some ((store.lookup scope name).getD quota)
      else store.lookup other label := by
  simp only [lookup, insertNew, Std.ExtTreeMap.getElem?_insertIfNew,
    Std.LawfulEqOrd.compare_eq_iff_eq, RowKey.mk.injEq]
  by_cases same : scope = other ∧ name = label
  · obtain ⟨rfl, rfl⟩ := same
    by_cases used : RowKey.mk scope name ∈ store.rows
    · simp [used]
    · simp [used]
  · rw [if_neg (fun both => same both.1), if_neg same]

theorem lookup_modify (store : RowStore) (scope other : Entity) (name label : String)
    (change : Quota → Quota) :
    (store.modify scope name change).lookup other label =
      if scope = other ∧ name = label then (store.lookup other label).map change
      else store.lookup other label := by
  simp only [lookup, modify, Std.ExtTreeMap.getElem?_modify, Std.LawfulEqOrd.compare_eq_iff_eq,
    RowKey.mk.injEq]
  by_cases same : scope = other ∧ name = label
  · obtain ⟨rfl, rfl⟩ := same
    simp
  · rw [if_neg same, if_neg same]

/-- A filter that accepts everything changes nothing. -/
theorem filter_accept {α : Type} (value : Option α) : value.filter (fun _ => true) = value := by
  cases value <;> rfl

theorem lookup_delete (store : RowStore) (scope other : Entity) (name : String) :
    (store.delete scope).lookup other name =
      if scope = other then none else store.lookup other name := by
  simp only [lookup, delete, Std.ExtTreeMap.getElem?_filter]
  by_cases same : scope = other
  · simp [same]
  · have different : other ≠ scope := fun equal => same equal.symm
    simp [same, different, filter_accept]

/-- A row store is determined by its lookups. -/
theorem ext_lookup {first second : RowStore}
    (same : ∀ scope name, first.lookup scope name = second.lookup scope name) :
    first = second :=
  RowStore.ext (Std.ExtTreeMap.ext_getElem? fun key => same key.scope key.name)

end RowStore

end HierarchicalQuota
