import HierarchicalQuota.Store.Memory
import HierarchicalQuota.Store.Rows

namespace HierarchicalQuota

/-- The accesses of a lawful store read and write one table. -/
class LawfulStore (σ : Type) [QuotaStore σ] where
  lookup : σ → Entity → String → Option Quota
  /-- One quota is written, and all others are kept. -/
  put : σ → Entity → String → Quota → σ
  /-- All quotas of a scope are removed. -/
  drop : σ → Entity → σ
  list : σ → Entity → List Record
  ext_lookup {first second : σ} :
    (∀ scope name, lookup first scope name = lookup second scope name) → first = second
  lookup_put (store : σ) (scope other : Entity) (name label : String) (quota : Quota) :
    lookup (put store scope name quota) other label =
      if scope = other ∧ name = label then some quota else lookup store other label
  lookup_drop (store : σ) (scope other : Entity) (name : String) :
    lookup (drop store scope) other name = if scope = other then none else lookup store other name
  mem_list {store : σ} {scope : Entity} {record : Record} :
    record ∈ list store scope ↔
      record.scope = scope ∧ lookup store scope record.name = some record.quota
  nodup_list (store : σ) (scope : Entity) : ((list store scope).map Record.name).Nodup
  get_eq (store : σ) (scope : Entity) (name : String) :
    QuotaStore.get scope name store = .ok (lookup store scope name) store
  getOrCreate_eq (store : σ) (scope : Entity) (name : String) (initial : Quota) :
    QuotaStore.getOrCreate scope name initial store =
      match lookup store scope name with
      | some quota => .ok (quota, false) store
      | none => .ok (initial, true) (put store scope name initial)
  setLimit_eq (store : σ) (scope : Entity) (name : String) (limit : Amount) :
    QuotaStore.setLimit scope name limit store =
      match lookup store scope name with
      | some quota => .ok (some quota.limit) (put store scope name { quota with limit })
      | none => .ok none (put store scope name ⟨limit, 0⟩)
  setUsage_eq (store : σ) (scope : Entity) (name : String) (usage : Amount) :
    QuotaStore.setUsage scope name usage store =
      match lookup store scope name with
      | some quota => .ok (some quota.usage) (put store scope name { quota with usage })
      | none => .ok none (put store scope name ⟨.unlimited, usage⟩)
  addUsage_eq (store : σ) (scope : Entity) (name : String) (delta : Amount) (validate : Bool) :
    QuotaStore.addUsage scope name delta validate store =
      match lookup store scope name with
      | some quota =>
          .ok (quota.addUsage delta validate)
            (put store scope name (quota.update (quota.addUsage delta validate)))
      | none => .error (.notFound scope name) store
  shiftUsage_eq (store : σ) (scope : Entity) (name : String) (delta : Amount) :
    QuotaStore.shiftUsage scope name delta store =
      match lookup store scope name with
      | some quota =>
          .ok (quota.shiftUsage delta)
            (put store scope name { quota with usage := quota.usage + delta })
      | none => .error (.notFound scope name) store
  listScope_eq (store : σ) (scope : Entity) :
    QuotaStore.listScope scope store = .ok (list store scope) store
  deleteScope_eq (store : σ) (scope : Entity) :
    QuotaStore.deleteScope scope store = .ok (list store scope) (drop store scope)

namespace LawfulStore

/-- Writing a record as it is changes nothing. -/
theorem put_of_lookup {σ : Type} [QuotaStore σ] [LawfulStore σ] {store : σ} {scope : Entity}
    {name : String} {quota : Quota} (found : lookup store scope name = some quota) :
    put store scope name quota = store := by
  apply ext_lookup
  intro other label
  rw [lookup_put]
  split
  · rename_i same
    rw [← same.1, ← same.2, found]
  · rfl

end LawfulStore

namespace MemoryStore

/-- A memory store lists the records of a scope that it finds under their names. -/
theorem mem_list {store : MemoryStore} {scope : Entity} {record : Record} :
    record ∈ store.list scope ↔
      record.scope = scope ∧ store.lookup scope record.name = some record.quota := by
  simp only [list, lookup, List.mem_map, Prod.exists, Std.ExtTreeMap.mem_toList_iff_getElem?_eq_some]
  constructor
  · rintro ⟨name, quota, found, rfl⟩
    exact ⟨rfl, found⟩
  · rintro ⟨rfl, found⟩
    exact ⟨record.name, record.quota, found, rfl⟩

/-- A memory store lists no name twice. -/
theorem nodup_list (store : MemoryStore) (scope : Entity) :
    ((store.list scope).map Record.name).Nodup := by
  rw [list, List.map_map]
  change ((store.quotas scope).toList.map Prod.fst).Nodup
  rw [Std.ExtTreeMap.map_fst_toList_eq_keys]
  exact Std.ExtTreeMap.nodup_keys

/-- A memory store is one table, kept as a table of scopes with a table of names in each. -/
instance : LawfulStore MemoryStore where
  lookup := lookup
  put := put
  drop := drop
  list := list
  ext_lookup := ext_lookup
  lookup_put := lookup_put
  lookup_drop := lookup_drop
  mem_list := mem_list
  nodup_list := nodup_list
  get_eq _ _ _ := rfl
  getOrCreate_eq _ _ _ _ := rfl
  setLimit_eq _ _ _ _ := rfl
  setUsage_eq _ _ _ _ := rfl
  addUsage_eq store scope name delta validate := by
    change store.change scope name _ = _
    rw [change]
    cases store.lookup scope name <;> rfl
  shiftUsage_eq store scope name delta := by
    change store.change scope name _ = _
    rw [change]
    cases store.lookup scope name <;> rfl
  listScope_eq _ _ := rfl
  deleteScope_eq _ _ := rfl

end MemoryStore

namespace RowStore

/-- This function writes one row and keeps all others. -/
def put (store : RowStore) (scope : Entity) (name : String) (quota : Quota) : RowStore :=
  ⟨store.rows.insert ⟨scope, name⟩ quota⟩

/-- A row that is put is found under its own key, and all other rows stay as they are. -/
theorem lookup_put (store : RowStore) (scope other : Entity) (name label : String)
    (quota : Quota) :
    (store.put scope name quota).lookup other label =
      if scope = other ∧ name = label then some quota else store.lookup other label := by
  simp only [lookup, put, Std.ExtTreeMap.getElem?_insert, Std.LawfulEqOrd.compare_eq_iff_eq,
    RowKey.mk.injEq]

/-- A row that is there already is not inserted again. -/
theorem insertNew_of_some {store : RowStore} {scope : Entity} {name : String} {quota : Quota}
    (found : store.lookup scope name = some quota) (initial : Quota) :
    store.insertNew scope name initial = store := by
  apply ext_lookup
  intro other label
  rw [lookup_insertNew, found]
  split
  · rename_i same
    rw [← same.1, ← same.2, found, Option.getD_some]
  · rfl

/-- A new row is inserted as it is. -/
theorem insertNew_of_none {store : RowStore} {scope : Entity} {name : String}
    (absent : store.lookup scope name = none) (initial : Quota) :
    store.insertNew scope name initial = store.put scope name initial := by
  apply ext_lookup
  intro other label
  rw [lookup_insertNew, lookup_put, absent, Option.getD_none]

/-- A row that is modified is put back with the changed quota. -/
theorem modify_of_some {store : RowStore} {scope : Entity} {name : String} {quota : Quota}
    (found : store.lookup scope name = some quota) (change : Quota → Quota) :
    store.modify scope name change = store.put scope name (change quota) := by
  apply ext_lookup
  intro other label
  rw [lookup_modify, lookup_put]
  split
  · rename_i same
    rw [← same.1, ← same.2, found, Option.map_some]
  · rfl

/-- A row that is inserted first is changed afterwards in any case. -/
theorem modify_insertNew (store : RowStore) (scope : Entity) (name : String) (initial : Quota)
    (change : Quota → Quota) :
    (store.insertNew scope name initial).modify scope name change =
      store.put scope name (change ((store.lookup scope name).getD initial)) := by
  apply ext_lookup
  intro other label
  rw [lookup_modify, lookup_insertNew, lookup_put]
  split <;> rfl

/-- Putting back what is stored changes nothing, since the rows of a key have one order. -/
theorem put_of_some {store : RowStore} {scope : Entity} {name : String} {quota : Quota}
    (found : store.lookup scope name = some quota) : store.put scope name quota = store := by
  apply ext_lookup
  intro other label
  rw [lookup_put]
  split
  · rename_i same
    rw [← same.1, ← same.2, found]
  · rfl

/-- The rows hold a key exactly where a quota is found under it. -/
theorem mem_iff_lookup {store : RowStore} {scope : Entity} {name : String} :
    (⟨scope, name⟩ : RowKey) ∈ store.rows ↔ (store.lookup scope name).isSome := by
  rw [lookup, Std.ExtTreeMap.isSome_getElem?_iff_mem]

/-- A row store tells a new row by its growth. -/
theorem size_insertNew (store : RowStore) (scope : Entity) (name : String) (quota : Quota) :
    ((store.insertNew scope name quota).rows.size != store.rows.size) =
      (store.lookup scope name).isNone := by
  rw [insertNew, Std.ExtTreeMap.size_insertIfNew]
  simp only [mem_iff_lookup]
  cases store.lookup scope name <;> simp

/-- A row store lists what it finds. -/
theorem mem_records {store : RowStore} {record : Record} :
    record ∈ store.records ↔ store.lookup record.scope record.name = some record.quota := by
  simp only [records, lookup, List.mem_map, Prod.exists,
    Std.ExtTreeMap.mem_toList_iff_getElem?_eq_some]
  constructor
  · rintro ⟨key, quota, found, rfl⟩
    exact found
  · intro found
    exact ⟨⟨record.scope, record.name⟩, record.quota, found, rfl⟩

/-- Selecting a scope lists the records that are found under it. -/
theorem mem_select {store : RowStore} {scope : Entity} {record : Record} :
    record ∈ store.select scope ↔
      record.scope = scope ∧ store.lookup scope record.name = some record.quota := by
  simp only [select, List.mem_filter, mem_records, decide_eq_true_eq]
  constructor
  · rintro ⟨found, rfl⟩
    exact ⟨rfl, found⟩
  · rintro ⟨rfl, found⟩
    exact ⟨found, rfl⟩

/-- A row store selects no name twice. -/
theorem nodup_select (store : RowStore) (scope : Entity) :
    ((store.select scope).map Record.name).Nodup := by
  have distinct : store.records.Pairwise fun first second =>
      first.scope = second.scope → first.name ≠ second.name := by
    rw [records, List.pairwise_map]
    refine store.rows.distinct_keys_toList.imp fun {first second} different scopes names => ?_
    exact different (Std.LawfulEqOrd.compare_eq_iff_eq.2 (RowKey.ext scopes names))
  rw [List.Nodup, List.pairwise_map, select]
  refine List.Pairwise.imp_of_mem (fun {first second} firstMember secondMember different => ?_)
    (distinct.filter _)
  have firstScope := of_decide_eq_true (List.mem_filter.1 firstMember).2
  have secondScope := of_decide_eq_true (List.mem_filter.1 secondMember).2
  exact different (firstScope.trans secondScope.symm)

/-- A row store is one table, kept as rows with a key of scope and name. -/
instance : LawfulStore RowStore where
  lookup := lookup
  put := put
  drop := delete
  list := select
  ext_lookup := ext_lookup
  lookup_put := lookup_put
  lookup_drop := lookup_delete
  mem_list := mem_select
  nodup_list := nodup_select
  get_eq _ _ _ := rfl
  getOrCreate_eq store scope name initial := by
    have size := size_insertNew store scope name initial
    simp only [QuotaStore.getOrCreate, size]
    cases found : store.lookup scope name with
    | none => simp [insertNew_of_none found, lookup_put]
    | some quota => simp [insertNew_of_some found, found]
  setLimit_eq store scope name limit := by
    change EStateM.Result.ok ((store.lookup scope name).map _) (modify _ _ _ _) = _
    rw [modify_insertNew]
    cases store.lookup scope name <;> rfl
  setUsage_eq store scope name usage := by
    change EStateM.Result.ok ((store.lookup scope name).map _) (modify _ _ _ _) = _
    rw [modify_insertNew]
    cases store.lookup scope name <;> rfl
  addUsage_eq store scope name delta validate := by
    change store.change scope name _ = _
    rw [change]
    cases found : store.lookup scope name with
    | none => rfl
    | some quota =>
        cases decided : quota.addUsage delta validate with
        | applied old new limit =>
            simp only [decided, Quota.update]
            rw [modify_of_some found]
        | rejected usage limit => simp only [decided, Quota.update, put_of_some found]
  shiftUsage_eq store scope name delta := by
    change store.change scope name _ = _
    rw [change]
    cases found : store.lookup scope name with
    | none => rfl
    | some quota =>
        simp only [Quota.shiftUsage]
        rw [modify_of_some found]
  listScope_eq _ _ := rfl
  deleteScope_eq _ _ := rfl

end RowStore

end HierarchicalQuota
