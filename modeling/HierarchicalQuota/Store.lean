/-
This file defines what the engine asks of a store of quota records.
-/

import HierarchicalQuota.Error
import HierarchicalQuota.Quota

namespace HierarchicalQuota

/-- A store access yields a value or an error, and in both cases the store as it is afterwards. -/
abbrev StoreAccess (σ : Type) := EStateM StorageError σ

/-- A type is a type of stores if it offers these accesses. -/
class QuotaStore (σ : Type) where
  get (scope : Entity) (name : String) : StoreAccess σ (Option Quota)
  /-- An existing record is kept, and the flag tells whether a new one was made. -/
  getOrCreate (scope : Entity) (name : String) (initial : Quota) : StoreAccess σ (Quota × Bool)
  /-- The answer is the limit before, and a missing record starts without usage. -/
  setLimit (scope : Entity) (name : String) (limit : Amount) : StoreAccess σ (Option Amount)
  /-- The answer is the usage before, and a missing record starts without a limit. -/
  setUsage (scope : Entity) (name : String) (usage : Amount) : StoreAccess σ (Option Amount)
  /-- A caller's change stops at zero and may be rejected for the limit. -/
  addUsage (scope : Entity) (name : String) (delta : Amount) (validate : Bool) :
    StoreAccess σ UsageUpdate
  /-- An aggregate's change is applied exactly. -/
  shiftUsage (scope : Entity) (name : String) (delta : Amount) : StoreAccess σ UsageUpdate
  /-- The records of a scope are listed in the order of their names. -/
  listScope (scope : Entity) : StoreAccess σ (List Record)
  /-- The answer lists the records that were removed. -/
  deleteScope (scope : Entity) : StoreAccess σ (List Record)

/-- A store that can be read as a whole lists all its records by scope and name. -/
class EnumerableStore (σ : Type) where
  records (store : σ) : List Record

end HierarchicalQuota
