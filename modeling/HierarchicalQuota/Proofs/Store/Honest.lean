import HierarchicalQuota.Proofs.Store.Local

namespace HierarchicalQuota

open HierarchicalQuota.Action (after outcome)

variable {σ : Type} [QuotaStore σ]

/-- A record that an honest store calls new was absent before and is there now. -/
class HonestStore (σ : Type) [QuotaStore σ] [LocalStore σ] : Prop where
  created {scope : Entity} {name : String} {initial quota : Quota} {store : σ} :
    outcome (QuotaStore.getOrCreate scope name initial) store = .ok (quota, true) →
      LocalStore.record store scope name = none ∧ (LocalStore.record
        (after (QuotaStore.getOrCreate scope name initial) store) scope name).isSome

/-- A store that is one table makes a record exactly where none is found. -/
instance [LawfulStore σ] : HonestStore σ where
  created {scope name initial quota store} isNew := by
    change LawfulStore.lookup store scope name = none ∧ (LawfulStore.lookup
      (after (QuotaStore.getOrCreate scope name initial) store) scope name).isSome
    rw [outcome, LawfulStore.getOrCreate_eq] at isNew
    rw [after, LawfulStore.getOrCreate_eq]
    cases found : LawfulStore.lookup store scope name with
    | some old =>
        rw [found] at isNew
        cases isNew
    | none => simp [LawfulStore.lookup_put]

section Wrapped

variable {α : Type}

namespace GuardedStore

omit [QuotaStore σ] in
/-- A call that passes the guard has the outcome that it would have without one. -/
theorem outcome_inner (access : StoreAccess σ α) (state : GuardedStore σ) :
    outcome (inner access) state = outcome access state.store := by
  unfold outcome inner
  cases access state.store <;> rfl

omit [QuotaStore σ] in
/-- A write that succeeds has gone through. -/
theorem write_of_ok {access : StoreAccess σ α} {state : GuardedStore σ} {value : α}
    (ok : outcome (write access) state = .ok value) :
    outcome access state.store = .ok value ∧
      (after (write access) state).store = after access state.store := by
  cases writable : state.writable with
  | true =>
      have inside : write access state = inner access state := by rw [write, if_pos writable]
      rw [outcome, inside, ← outcome, outcome_inner] at ok
      rw [after, inside, ← after, store_after_inner]
      exact ⟨ok, rfl⟩
  | false =>
      rw [outcome, write, if_neg (by simp [writable])] at ok
      cases ok

/-- A guard refuses a creation or lets it through, so what it tells is true of the store below. -/
instance [LocalStore σ] [HonestStore σ] : HonestStore (GuardedStore σ) where
  created {scope name initial quota state} isNew := by
    obtain ⟨isNewInside, sameStore⟩ := write_of_ok isNew
    have created := HonestStore.created isNewInside
    rw [← sameStore] at created
    exact created

end GuardedStore

namespace FaultyStore

omit [QuotaStore σ] in
theorem outcome_inner (access : StoreAccess σ α) (state : FaultyStore σ) :
    outcome (inner access) state = outcome access state.store := by
  unfold outcome inner
  cases access state.store <;> rfl

omit [QuotaStore σ] in
/-- An access from which nothing can be hidden goes through, or it fails on purpose. -/
theorem guarded_self (method : StoreMethod) (scope : Entity) (name : String)
    (access : StoreAccess σ α) (state : FaultyStore σ) :
    ∃ faults, guarded method scope name access access state = inner access { state with faults } ∨
      ∃ error,
        guarded method scope name access access state = .error error { state with faults } := by
  unfold guarded
  dsimp only
  rcases Fault.fire method scope name state.faults with ⟨_ | _ | _ | _ | _, faults⟩
  · exact ⟨faults, .inl rfl⟩
  · exact ⟨faults, .inr ⟨_, rfl⟩⟩
  · exact ⟨faults, .inr ⟨_, rfl⟩⟩
  · exact ⟨faults, .inr ⟨_, rfl⟩⟩
  · exact ⟨faults, .inl rfl⟩

/-- A creation that succeeds has gone through, whatever faults are planned. -/
theorem getOrCreate_of_ok {scope : Entity} {name : String} {initial : Quota}
    {state : FaultyStore σ} {answer : Quota × Bool}
    (ok : outcome (QuotaStore.getOrCreate scope name initial) state = .ok answer) :
    outcome (QuotaStore.getOrCreate scope name initial) state.store = .ok answer ∧
      (after (QuotaStore.getOrCreate scope name initial) state).store =
        after (QuotaStore.getOrCreate scope name initial) state.store := by
  obtain ⟨faults, through | ⟨error, failed⟩⟩ := guarded_self .getOrCreate scope name
    (QuotaStore.getOrCreate scope name initial) state
  · have goes : QuotaStore.getOrCreate scope name initial state =
        inner (QuotaStore.getOrCreate scope name initial) { state with faults } := through
    rw [outcome, goes, ← outcome, outcome_inner] at ok
    rw [after, goes, ← after, store_after_inner]
    exact ⟨ok, rfl⟩
  · have fails : QuotaStore.getOrCreate scope name initial state =
        .error error { state with faults } := failed
    rw [outcome, fails] at ok
    cases ok

/-- A planned fault makes a creation fail, and it never makes up a record. -/
instance [LocalStore σ] [HonestStore σ] : HonestStore (FaultyStore σ) where
  created {scope name initial quota state} isNew := by
    obtain ⟨isNewInside, sameStore⟩ := getOrCreate_of_ok isNew
    have created := HonestStore.created isNewInside
    rw [← sameStore] at created
    exact created

end FaultyStore

end Wrapped

end HierarchicalQuota
