import HierarchicalQuota.Proofs.Outcome
import HierarchicalQuota.Proofs.Store.Lawful
import HierarchicalQuota.Store.Faulty
import HierarchicalQuota.Store.Guarded

namespace HierarchicalQuota

open HierarchicalQuota.Action (after)

variable {σ : Type}

/-- Only touched records have changed or are new, and none has been removed. An old record has its
old limit unless that was settable. -/
def Confined (record : σ → Entity → String → Option Quota)
    (touched settable : Entity → String → Prop) (before after : σ) : Prop :=
  ∀ scope name, record after scope name ≠ record before scope name →
    touched scope name ∧ ∃ new, record after scope name = some new ∧
      ∀ old, record before scope name = some old → new.limit ≠ old.limit → settable scope name

namespace Confined

variable {record : σ → Entity → String → Option Quota} {touched settable : Entity → String → Prop}
  {before middle after : σ}

/-- A store is confined to any records when nothing is done. -/
theorem refl (store : σ) : Confined record touched settable store store :=
  fun _ _ changed => absurd rfl changed

/-- Accesses that are confined to some records stay confined to them one after the other. -/
theorem trans (first : Confined record touched settable before middle)
    (second : Confined record touched settable middle after) :
    Confined record touched settable before after := by
  intro scope name changed
  by_cases earlier : record middle scope name = record before scope name
  · rw [← earlier] at changed ⊢
    exact second scope name changed
  obtain ⟨touches, between, isBetween, keeps⟩ := first scope name earlier
  by_cases later : record after scope name = record middle scope name
  · rw [later]
    exact ⟨touches, between, isBetween, keeps⟩
  obtain ⟨-, new, isNew, keepsLater⟩ := second scope name later
  refine ⟨touches, new, isNew, fun old isOld moved => ?_⟩
  by_cases same : between.limit = old.limit
  · exact keepsLater between isBetween (same ▸ moved)
  · exact keeps old isOld same

/-- What is confined to some records is confined to more of them. -/
theorem mono {wider free : Entity → String → Prop}
    (confined : Confined record touched settable before after)
    (touches : ∀ scope name, touched scope name → wider scope name)
    (sets : ∀ scope name, settable scope name → free scope name) :
    Confined record wider free before after := by
  intro scope name changed
  obtain ⟨inside, new, isNew, keeps⟩ := confined scope name changed
  exact ⟨touches scope name inside, new, isNew,
    fun old isOld moved => sets scope name (keeps old isOld moved)⟩

end Confined

/-- This is the region of one record. -/
def Only (scope : Entity) (name : String) (other : Entity) (label : String) : Prop :=
  other = scope ∧ label = name

/-- This is the region without records. -/
def Nowhere (_ : Entity) (_ : String) : Prop := False

/-- Reading a local store changes nothing, and any other access changes only the record that it
names, whether it succeeds or fails. It does not remove the record, and it changes an old limit only
if it sets one. -/
class LocalStore (σ : Type) [QuotaStore σ] where
  record : σ → Entity → String → Option Quota
  get (scope : Entity) (name : String) (store : σ) :
    Confined record Nowhere Nowhere store (after (QuotaStore.get scope name) store)
  getOrCreate (scope : Entity) (name : String) (initial : Quota) (store : σ) :
    Confined record (Only scope name) Nowhere store
      (after (QuotaStore.getOrCreate scope name initial) store)
  setLimit (scope : Entity) (name : String) (limit : Amount) (store : σ) :
    Confined record (Only scope name) (Only scope name) store
      (after (QuotaStore.setLimit scope name limit) store)
  setUsage (scope : Entity) (name : String) (usage : Amount) (store : σ) :
    Confined record (Only scope name) Nowhere store
      (after (QuotaStore.setUsage scope name usage) store)
  addUsage (scope : Entity) (name : String) (delta : Amount) (validate : Bool) (store : σ) :
    Confined record (Only scope name) Nowhere store
      (after (QuotaStore.addUsage scope name delta validate) store)
  shiftUsage (scope : Entity) (name : String) (delta : Amount) (store : σ) :
    Confined record (Only scope name) Nowhere store
      (after (QuotaStore.shiftUsage scope name delta) store)

section Lawful

open LawfulStore (lookup put)

variable [QuotaStore σ] [LawfulStore σ]

/-- A write is confined to its record, and it keeps the limit unless that may be set. -/
theorem Confined.put {settable : Entity → String → Prop} (store : σ) (scope : Entity)
    (name : String) (quota : Quota)
    (keeps : ∀ old, lookup store scope name = some old → quota.limit ≠ old.limit →
      settable scope name) :
    Confined lookup (Only scope name) settable store (put store scope name quota) := by
  intro other label changed
  by_cases same : scope = other ∧ name = label
  · obtain ⟨rfl, rfl⟩ := same
    rw [LawfulStore.lookup_put, if_pos ⟨rfl, rfl⟩]
    exact ⟨⟨rfl, rfl⟩, quota, rfl, keeps⟩
  · rw [LawfulStore.lookup_put, if_neg same] at changed
    exact absurd rfl changed

/-- A change of the usage keeps the limit. -/
theorem Confined.put_usage {store : σ} {scope : Entity} {name : String} {quota : Quota}
    (found : lookup store scope name = some quota) {written : Quota}
    (sameLimit : written.limit = quota.limit) :
    Confined lookup (Only scope name) Nowhere store (LawfulStore.put store scope name written) := by
  refine .put store scope name written fun old isOld moved => absurd ?_ moved
  rw [found] at isOld
  obtain rfl := Option.some.inj isOld
  exact sameLimit

/-- A new record changes no limit that was there before. -/
theorem Confined.put_new {store : σ} {scope : Entity} {name : String}
    (absent : lookup store scope name = none) (quota : Quota) :
    Confined lookup (Only scope name) Nowhere store (LawfulStore.put store scope name quota) := by
  refine .put store scope name quota fun old isOld _ => ?_
  rw [absent] at isOld
  cases isOld

/-- A change of a usage keeps the limit, whether it is applied or not. -/
theorem Quota.limit_update (quota : Quota) (update : UsageUpdate) :
    (quota.update update).limit = quota.limit := by
  cases update <;> rfl

/-- Stores that are one table are local, because each call writes at most one of its keys. -/
instance : LocalStore σ where
  record := lookup
  get scope name store := by
    rw [after, LawfulStore.get_eq]
    exact .refl store
  getOrCreate scope name initial store := by
    rw [after, LawfulStore.getOrCreate_eq]
    cases found : lookup store scope name with
    | some quota => exact .refl store
    | none => exact .put_new found initial
  setLimit scope name limit store := by
    rw [after, LawfulStore.setLimit_eq]
    cases found : lookup store scope name <;> exact .put _ _ _ _ fun _ _ _ => ⟨rfl, rfl⟩
  setUsage scope name usage store := by
    rw [after, LawfulStore.setUsage_eq]
    cases found : lookup store scope name with
    | some quota => exact .put_usage found rfl
    | none => exact .put_new found _
  addUsage scope name delta validate store := by
    rw [after, LawfulStore.addUsage_eq]
    cases found : lookup store scope name with
    | some quota => exact .put_usage found (quota.limit_update _)
    | none => exact .refl store
  shiftUsage scope name delta store := by
    rw [after, LawfulStore.shiftUsage_eq]
    cases found : lookup store scope name with
    | some quota => exact .put_usage found rfl
    | none => exact .refl store

end Lawful

section Wrapped

variable {τ α : Type}

/-- A store around a store is confined if an access of it goes through to a confined one, or does
not go through. -/
theorem Confined.wrapped {record : σ → Entity → String → Option Quota}
    {touched settable : Entity → String → Prop} {inside : τ → σ} {before after : τ} {final : σ}
    (confined : Confined record touched settable (inside before) final)
    (cases : inside after = final ∨ inside after = inside before) :
    Confined (fun state => record (inside state)) touched settable before after := by
  intro scope name changed
  dsimp only at changed ⊢
  rcases cases with through | stopped
  · rw [through] at changed ⊢
    exact confined scope name changed
  · rw [stopped] at changed
    exact absurd rfl changed

namespace GuardedStore

/-- A call that passes the guard leaves what it would leave without one. -/
theorem store_after_inner (access : StoreAccess σ α) (state : GuardedStore σ) :
    (after (inner access) state).store = after access state.store := by
  unfold after inner
  cases access state.store <;> rfl

/-- A write goes through, or it is refused. -/
theorem store_after_write (access : StoreAccess σ α) (state : GuardedStore σ) :
    (after (write access) state).store = after access state.store ∨
      (after (write access) state).store = state.store := by
  cases writable : state.writable with
  | true =>
      left
      rw [← store_after_inner, after, write, if_pos writable, after]
  | false =>
      right
      rw [after, write, if_neg (by simp [writable])]

/-- A change goes through, or it is refused. -/
theorem store_after_change (access : StoreAccess σ UsageUpdate) (state : GuardedStore σ) :
    (after (change access) state).store = after access state.store ∨
      (after (change access) state).store = state.store := by
  unfold after change inner
  cases access state.store with
  | error error store => exact .inl rfl
  | ok update store =>
      cases update with
      | rejected usage limit => exact .inl rfl
      | applied old new limit =>
          dsimp only
          cases state.writable with
          | true => exact .inl rfl
          | false => exact .inr rfl

/-- A guard does not let a call touch more than it would on its own. -/
instance [QuotaStore σ] [LocalStore σ] : LocalStore (GuardedStore σ) where
  record state := LocalStore.record state.store
  get scope name state :=
    .wrapped (LocalStore.get scope name state.store) (.inl (store_after_inner _ _))
  getOrCreate scope name initial state :=
    .wrapped (LocalStore.getOrCreate scope name initial state.store) (store_after_write _ _)
  setLimit scope name limit state :=
    .wrapped (LocalStore.setLimit scope name limit state.store) (store_after_write _ _)
  setUsage scope name usage state :=
    .wrapped (LocalStore.setUsage scope name usage state.store) (store_after_write _ _)
  addUsage scope name delta validate state :=
    .wrapped (LocalStore.addUsage scope name delta validate state.store) (store_after_change _ _)
  shiftUsage scope name delta state :=
    .wrapped (LocalStore.shiftUsage scope name delta state.store) (store_after_change _ _)

end GuardedStore

namespace FaultyStore

/-- A call without a fault leaves what it would leave in the store below. -/
theorem store_after_inner (access : StoreAccess σ α) (state : FaultyStore σ) :
    (after (inner access) state).store = after access state.store := by
  unfold after inner
  cases access state.store <;> rfl

variable {record : σ → Entity → String → Option Quota} {touched settable : Entity → String → Prop}

/-- An access that fails on purpose changes nothing, and a hidden one is as confined as the plain
one. -/
theorem confined_guarded (method : StoreMethod) (scope : Entity) (name : String)
    {plain hidden : StoreAccess σ α} {state : FaultyStore σ}
    (goes : Confined record touched settable state.store (after plain state.store))
    (hides : Confined record touched settable state.store (after hidden state.store)) :
    Confined (fun state : FaultyStore σ => record state.store) touched settable state
      (after (guarded method scope name plain hidden) state) := by
  have through (access : StoreAccess σ α) (faults : List Fault) :=
    store_after_inner access { state with faults }
  unfold guarded
  unfold after at through ⊢
  dsimp only
  rcases Fault.fire method scope name state.faults with ⟨_ | _ | _ | _ | _, faults⟩
  · exact goes.wrapped (.inl (through plain faults))
  · exact goes.wrapped (.inr rfl)
  · exact goes.wrapped (.inr rfl)
  · exact goes.wrapped (.inr rfl)
  · exact hides.wrapped (.inl (through hidden faults))

/-- What is answered after an access does not change the store again. -/
theorem after_answer {ε β : Type} (access : EStateM ε σ α) (answer : α → β) (store : σ) :
    after (access >>= fun value => pure (answer value)) store = after access store := by
  rw [Action.after_bind]
  cases Action.outcome access store <;> rfl

/-- A rejection only reads. -/
theorem confined_reject [QuotaStore σ] [LocalStore σ] (scope : Entity) (name : String) (store : σ) :
    Confined LocalStore.record (Only scope name) Nowhere store
      (after (reject scope name) store) := by
  have sameStore : after (reject scope name) store = after (QuotaStore.get scope name) store := by
    rw [reject, Action.after_bind]
    cases Action.outcome (QuotaStore.get scope name) store with
    | error error => rfl
    | ok found => cases found <;> rfl
  rw [sameStore]
  exact (LocalStore.get scope name store).mono (fun _ _ => False.elim) fun _ _ => id

/-- A fault can stop a call or hide what it has found, but it touches no other record. -/
instance [QuotaStore σ] [LocalStore σ] : LocalStore (FaultyStore σ) where
  record state := LocalStore.record state.store
  get scope name state :=
    confined_guarded _ _ _ (LocalStore.get scope name state.store) (.refl state.store)
  getOrCreate scope name initial state :=
    confined_guarded _ _ _ (LocalStore.getOrCreate scope name initial state.store)
      (LocalStore.getOrCreate scope name initial state.store)
  setLimit scope name limit state := by
    refine confined_guarded _ _ _ (LocalStore.setLimit scope name limit state.store) ?_
    rw [Action.discard_eq_bind, after_answer, after_answer]
    exact LocalStore.setLimit scope name limit state.store
  setUsage scope name usage state := by
    refine confined_guarded _ _ _ (LocalStore.setUsage scope name usage state.store) ?_
    rw [Action.discard_eq_bind, after_answer, after_answer]
    exact LocalStore.setUsage scope name usage state.store
  addUsage scope name delta validate state := by
    refine confined_guarded _ _ _ (LocalStore.addUsage scope name delta validate state.store) ?_
    exact confined_reject scope name state.store
  shiftUsage scope name delta state := by
    refine confined_guarded _ _ _ (LocalStore.shiftUsage scope name delta state.store) ?_
    exact confined_reject scope name state.store

end FaultyStore

end Wrapped

end HierarchicalQuota
