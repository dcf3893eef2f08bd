import HierarchicalQuota.Store

namespace HierarchicalQuota

/-- A call names an access of a store together with its arguments. -/
inductive StoreCall where
  | get (scope : Entity) (name : String)
  | getOrCreate (scope : Entity) (name : String) (initial : Quota)
  | setLimit (scope : Entity) (name : String) (limit : Amount)
  | setUsage (scope : Entity) (name : String) (usage : Amount)
  | addUsage (scope : Entity) (name : String) (delta : Amount) (validate : Bool)
  | shiftUsage (scope : Entity) (name : String) (delta : Amount)
  | listScope (scope : Entity)
  | deleteScope (scope : Entity)
deriving DecidableEq, Inhabited

/-- A recorded store keeps every call with the store that it found, the latest first. -/
structure RecordedStore (σ : Type) where
  store : σ
  history : List (StoreCall × σ) := []

namespace RecordedStore

variable {σ : Type} [QuotaStore σ]

/-- A recorded access is noted and otherwise left to the inner store. -/
def noted {α : Type} (call : StoreCall) (access : StoreAccess σ α) :
    StoreAccess (RecordedStore σ) α := fun state =>
  match access state.store with
  | .ok value store => .ok value ⟨store, (call, state.store) :: state.history⟩
  | .error error store => .error error ⟨store, (call, state.store) :: state.history⟩

/-- Every call is passed on and recorded. -/
instance : QuotaStore (RecordedStore σ) where
  get scope name := noted (.get scope name) (QuotaStore.get scope name)
  getOrCreate scope name initial :=
    noted (.getOrCreate scope name initial) (QuotaStore.getOrCreate scope name initial)
  setLimit scope name limit :=
    noted (.setLimit scope name limit) (QuotaStore.setLimit scope name limit)
  setUsage scope name usage :=
    noted (.setUsage scope name usage) (QuotaStore.setUsage scope name usage)
  addUsage scope name delta validate :=
    noted (.addUsage scope name delta validate) (QuotaStore.addUsage scope name delta validate)
  shiftUsage scope name delta :=
    noted (.shiftUsage scope name delta) (QuotaStore.shiftUsage scope name delta)
  listScope scope := noted (.listScope scope) (QuotaStore.listScope scope)
  deleteScope scope := noted (.deleteScope scope) (QuotaStore.deleteScope scope)

end RecordedStore

end HierarchicalQuota
