import HierarchicalQuota.Proofs.Isolation
import HierarchicalQuota.Proofs.Store.Honest
import HierarchicalQuota.Proofs.Termination.Worklist

namespace HierarchicalQuota

open HierarchicalQuota.Action (Confines after outcome)

/-- A record is created as long as the calls are not nested too deep, and the aggregates that its
worklists find missing are created in turn. -/
def Bounded.create {σ : Type} [QuotaStore σ] (engine : Engine) (steps : Nat) :
    Nat → Aggregate → Run σ Quota
  | 0, _ => Run.stuck
  | nesting + 1, target => do
      match ← Run.of (Action.access (QuotaStore.get target.scope target.field.name)) with
      | some existing => return existing
      | none =>
          let starting ← Run.of (engine.startingQuota target.scope target.field)
          let (quota, created) ←
            Run.of (Action.access (QuotaStore.getOrCreate target.scope target.field.name starting))
          if created then
            let usageMissing ← spread engine steps target.scope target.field.name .usage quota.usage
            let limitMissing ← spread engine steps target.scope target.field.name .limit quota.limit
            (usageMissing ++ limitMissing).forM fun aggregate =>
              discard (create engine steps nesting aggregate)
            return quota
          else
            return quota

variable {σ : Type} [QuotaStore σ]

section Absent

variable [LocalStore σ] {touched settable : Entity → String → Prop} {before after : σ}

/-- A record that is absent in the end was absent before. -/
theorem Confined.eq_none (confined : Confined LocalStore.record touched settable before after)
    {scope : Entity} {name : String} (absent : LocalStore.record after scope name = none) :
    LocalStore.record before scope name = none := by
  by_contra present
  have changed : LocalStore.record after scope name ≠ LocalStore.record before scope name := by
    rw [absent]
    exact fun same => present same.symm
  obtain ⟨_, new, isNew, _⟩ := confined scope name changed
  rw [absent] at isNew
  cases isNew

namespace Engine

/-- These are the keys under which an aggregate of a quota parent can still be created. -/
def absentKeys (engine : Engine) (store : σ) : Finset (Entity × String) :=
  engine.aggregateKeys.toFinset.filter fun key => LocalStore.record store key.1 key.2 = none

/-- An absent key is a key of an aggregate without a record. -/
theorem mem_absentKeys {engine : Engine} {store : σ} {scope : Entity} {name : String} :
    (scope, name) ∈ engine.absentKeys store ↔
      (scope, name) ∈ engine.aggregateKeys ∧ LocalStore.record store scope name = none := by
  rw [absentKeys, Finset.mem_filter, List.mem_toFinset]

/-- The budget of nested creations is greater than the number of absent keys. -/
theorem card_absentKeys_lt (engine : Engine) (store : σ) :
    (engine.absentKeys store).card < engine.creationBudget := by
  rw [← length_aggregateKeys]
  exact Nat.lt_succ_of_le ((Finset.card_filter_le _ _).trans (List.toFinset_card_le _))

/-- An access that is confined makes no key absent again. -/
theorem absentKeys_subset (engine : Engine)
    (confined : Confined LocalStore.record touched settable before after) :
    engine.absentKeys after ⊆ engine.absentKeys before := by
  intro key member
  obtain ⟨isKey, absent⟩ := mem_absentKeys.1 member
  exact mem_absentKeys.2 ⟨isKey, confined.eq_none absent⟩

/-- A record that is made under one of the keys leaves one less to make. -/
theorem absentKeys_ssubset_of_new (engine : Engine)
    (confined : Confined LocalStore.record touched settable before after) {scope : Entity}
    {name : String} (isKey : (scope, name) ∈ engine.aggregateKeys)
    (isNew : LocalStore.record before scope name = none)
    (isThere : (LocalStore.record after scope name).isSome) :
    engine.absentKeys after ⊂ engine.absentKeys before := by
  rw [Finset.ssubset_iff_of_subset (engine.absentKeys_subset confined)]
  refine ⟨(scope, name), mem_absentKeys.2 ⟨isKey, isNew⟩, fun stillAbsent => ?_⟩
  rw [(mem_absentKeys.1 stillAbsent).2] at isThere
  cases isThere

end Engine

end Absent

omit [QuotaStore σ] in
/-- An access that succeeds as an action has succeeded in the store. -/
theorem Action.outcome_of_access {α : Type} {request : StoreAccess σ α} {store : σ} {value : α}
    (ok : outcome (access request) store = .ok value) : outcome request store = .ok value := by
  rw [outcome_access] at ok
  cases result : outcome request store with
  | ok other =>
      rw [result] at ok
      exact congrArg _ (Except.ok.inj ok)
  | error error =>
      rw [result] at ok
      cases ok

section Create

/-- This is the region of all records. -/
def Anywhere (_ : Entity) (_ : String) : Prop := True

variable [LocalStore σ] {engine : Engine}

/-- A change that spreads removes no record, and it finds only aggregates above the child
missing. -/
theorem Engine.spread_confines (engine : Engine) (child : Entity) (quota : String)
    (measure : Measure) (delta : Amount) :
    Confines Anywhere Anywhere (engine.spread (σ := σ) child quota measure delta) fun missing =>
      ∀ aggregate ∈ missing, engine.AggregateAbove child aggregate :=
  engine.confines_propagate _ _ _ _ _ fun _ _ _ => trivial

/-- A worklist finds only aggregates missing that have one of the keys. -/
theorem Engine.mem_aggregateKeys_of_spread (engine : Engine) {child : Entity} {quota : String}
    {measure : Measure} {delta : Amount} {store : σ} {missing : List Aggregate}
    (found : outcome (engine.spread child quota measure delta) store = .ok missing) :
    ∀ aggregate ∈ missing, (aggregate.scope, aggregate.field.name) ∈ engine.aggregateKeys := by
  intro aggregate member
  have above := (engine.spread_confines child quota measure delta store).2 missing found
  exact (above aggregate member).mem_aggregateKeys

/-- A creation stays within its budget if the budget exceeds the number of keys that are absent. If
the target has itself one of these keys, a budget of that number is enough. -/
def Engine.Affords (engine : Engine) (budget : Nat) (target : Aggregate) (store : σ) : Prop :=
  (engine.absentKeys store).card < budget ∨
    (target.scope, target.field.name) ∈ engine.aggregateKeys ∧
      (engine.absentKeys store).card ≤ budget

/-- The absent keys become fewer or stay as they are. -/
theorem Engine.card_absentKeys_after_le {ε α : Type} (engine : Engine) {action : EStateM ε σ α}
    {good : α → Prop} (confines : Confines Anywhere Anywhere action good) (store : σ) :
    (engine.absentKeys (Action.after action store)).card ≤ (engine.absentKeys store).card :=
  Finset.card_le_card (engine.absentKeys_subset (confines store).1)

/-- What the budget affords it still affords after an action that removes no record. -/
theorem Engine.Affords.after {ε α : Type} {budget : Nat} {target : Aggregate} {store : σ}
    {action : EStateM ε σ α} {good : α → Prop} (affords : engine.Affords budget target store)
    (confines : Confines Anywhere Anywhere action good) :
    engine.Affords budget target (Action.after action store) := by
  have fewer := engine.card_absentKeys_after_le confines store
  cases affords with
  | inl less => exact .inl (by omega)
  | inr key => exact .inr ⟨key.1, by omega⟩

section Nested

variable {left : Nat} {nesting : Nat → Nat}

/-- Aggregates that are missing are created one after the other, and no creation adds to the keys
that are absent. -/
theorem EndsAt.createEach (missing : List Aggregate)
    (areKeys : ∀ aggregate ∈ missing,
      (aggregate.scope, aggregate.field.name) ∈ engine.aggregateKeys)
    {store : σ} (few : (engine.absentKeys store).card ≤ left)
    (each : ∀ (aggregate : Aggregate) (store : σ), engine.Affords left aggregate store →
      EndsAt (fun steps => Bounded.create engine steps (nesting steps) aggregate)
        (engine.create left aggregate) store) :
    EndsAt (fun steps => missing.forM fun aggregate =>
        Functor.discard (Bounded.create engine steps (nesting steps) aggregate))
      (missing.forM fun aggregate => Functor.discard (engine.create left aggregate)) store := by
  apply EndsAt.forM (fun store => (engine.absentKeys store).card ≤ left) missing _ few
  intro aggregate member store few
  have creates : Confines Anywhere Anywhere (engine.create (σ := σ) left aggregate) fun _ => True :=
    engine.confines_create left aggregate fun _ _ _ => trivial
  exact ⟨(each aggregate store (.inr ⟨areKeys aggregate member, few⟩)).discard,
    (engine.card_absentKeys_after_le (Action.confines_discard creates) store).trans few⟩

/-- A new record is announced by two worklists, and all that these find missing has one of the keys.
-/
theorem EndsAt.announce (scope : Entity) (name : String) (quota : Quota) {store : σ}
    (few : (engine.absentKeys store).card ≤ left)
    (each : ∀ (aggregate : Aggregate) (store : σ), engine.Affords left aggregate store →
      EndsAt (fun steps => Bounded.create engine steps (nesting steps) aggregate)
        (engine.create left aggregate) store) :
    EndsAt (fun steps => do
        let usageMissing ← Bounded.spread engine steps scope name .usage quota.usage
        let limitMissing ← Bounded.spread engine steps scope name .limit quota.limit
        (usageMissing ++ limitMissing).forM fun aggregate =>
          Functor.discard (Bounded.create engine steps (nesting steps) aggregate)
        return quota)
      (do
        let usageMissing ← engine.spread scope name .usage quota.usage
        let limitMissing ← engine.spread scope name .limit quota.limit
        (usageMissing ++ limitMissing).forM fun aggregate =>
          Functor.discard (engine.create left aggregate)
        return quota) store := by
  have usageSpread := engine.spread_confines (σ := σ) scope name .usage quota.usage
  have limitSpread := engine.spread_confines (σ := σ) scope name .limit quota.limit
  apply EndsAt.bind (EndsAs.spread engine _ _ _ _ _)
  intro usageMissing usageFound
  apply EndsAt.bind (EndsAs.spread engine _ _ _ _ _)
  intro limitMissing limitFound
  have areKeys := List.forall_mem_append.2 ⟨engine.mem_aggregateKeys_of_spread usageFound,
    engine.mem_aggregateKeys_of_spread limitFound⟩
  have fewStill := (engine.card_absentKeys_after_le limitSpread _).trans
    ((engine.card_absentKeys_after_le usageSpread _).trans few)
  have creates := EndsAt.createEach _ areKeys fewStill each
  exact creates.bind fun _ _ => .of (pure quota) _

end Nested

variable [HonestStore σ]

/-- A creation that goes on has made a record that was absent. -/
theorem Engine.absentKeys_ssubset_of_created (engine : Engine) {scope : Entity} {name : String}
    {initial quota : Quota} {store : σ} (isKey : (scope, name) ∈ engine.aggregateKeys)
    (isNew : outcome (QuotaStore.getOrCreate scope name initial) store = .ok (quota, true)) :
    engine.absentKeys (after (QuotaStore.getOrCreate scope name initial) store) ⊂
      engine.absentKeys store := by
  obtain ⟨absent, isThere⟩ := HonestStore.created isNew
  exact engine.absentKeys_ssubset_of_new (LocalStore.getOrCreate scope name initial store) isKey
    absent isThere

/-- After a new record was made, there is a budget left that is enough for all that it misses. -/
theorem Engine.Affords.created {budget : Nat} {target : Aggregate} {initial quota : Quota}
    {store : σ} (affords : engine.Affords budget target store)
    (isNew : outcome (QuotaStore.getOrCreate target.scope target.field.name initial) store =
      .ok (quota, true)) :
    ∃ left, budget = left + 1 ∧ (engine.absentKeys (Action.after
      (QuotaStore.getOrCreate target.scope target.field.name initial) store)).card ≤ left := by
  cases affords with
  | inl less =>
      have confined := LocalStore.getOrCreate target.scope target.field.name initial store
      have fewer := Finset.card_le_card (engine.absentKeys_subset confined)
      exact ⟨budget - 1, by omega, by omega⟩
  | inr key =>
      have fewer := Finset.card_lt_card (engine.absentKeys_ssubset_of_created key.1 isNew)
      exact ⟨budget - 1, by omega, by omega⟩

/-- A creation that stays within its budget ends if one more call may be nested than the budget
tells. The induction is on the budget: the record that was made before leaves a smaller one, and
that is enough for each of the aggregates that were missing. -/
theorem EndsAt.create (budget : Nat) {target : Aggregate} {store : σ}
    (affords : engine.Affords budget target store) {nesting : Nat → Nat} {bound : Nat}
    (nests : ∀ steps, bound ≤ steps → budget < nesting steps) :
    EndsAt (fun steps => Bounded.create engine steps (nesting steps) target)
      (engine.create budget target) store := by
  induction budget using Nat.strong_induction_on generalizing target store nesting with
  | _ budget inductionHypothesis =>
  suffices ends : EndsAt (fun steps => Bounded.create engine steps (nesting steps - 1 + 1) target)
      (engine.create budget target) store by
    apply ends.congr bound
    intro steps more
    have positive := nests steps more
    rw [Nat.sub_add_cancel (by omega)]
  simp only [Bounded.create]
  unfold Engine.create
  apply EndsAt.bind (.of _ _)
  intro existing _
  cases existing with
  | some existing => exact .of (pure existing) _
  | none =>
      apply EndsAt.bind (.of _ _)
      intro starting _
      apply EndsAt.bind (.of _ _)
      intro answer isAnswer
      obtain ⟨quota, created⟩ := answer
      cases created with
      | false => exact .of (pure quota) _
      | true =>
          have read := affords.after (confines_get target.scope target.field.name)
          have started := read.after (engine.confines_startingQuota target.scope target.field)
          obtain ⟨left, rfl, few⟩ := started.created (Action.outcome_of_access isAnswer)
          rw [← Action.after_access] at few
          apply EndsAt.announce target.scope target.field.name quota few
          intro aggregate store affords
          apply inductionHypothesis left (Nat.lt_succ_self left) affords
          intro steps more
          have enough := nests steps more
          omega

/-- No creation at a store needs more nested calls than there are keys absent, and two more. One of
the two is for a target that has none of the keys, the other for calls that find their record made.
-/
theorem EndsAt.create_nested (engine : Engine) (target : Aggregate) (store : σ) :
    EndsAt (fun steps =>
        Bounded.create engine steps ((engine.absentKeys store).card + 2) target)
      (engine.create engine.creationBudget target) store := by
  have ends {budget calls : Nat} (affords : (engine.absentKeys store).card < budget)
      (enough : budget < calls) :
      EndsAt (fun steps => Bounded.create engine steps calls target)
        (engine.create budget target) store :=
    EndsAt.create budget (.inl affords) fun _ (_ : 0 ≤ _) => enough
  have fits := engine.card_absentKeys_lt store
  -- Both budgets are enough, so they lead to one end where more calls may be nested than both tell.
  have same := (ends (Nat.lt_succ_self _) (Nat.succ_le_succ fits)).unique
    (ends fits (Nat.lt_succ_self _))
  exact (ends (Nat.lt_succ_self _) (Nat.lt_succ_self _)).of_same same.1 same.2

end Create

end HierarchicalQuota
