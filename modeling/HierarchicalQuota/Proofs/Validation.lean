import HierarchicalQuota.Proofs.Rejection
import HierarchicalQuota.Proofs.Retracing

namespace HierarchicalQuota

open HierarchicalQuota.Action (Ensures)
open LawfulStore (lookup put)

/-- A store refuses a change of a usage that is not negative exactly if it would exceed the quota. -/
theorem Quota.addUsage_of_nonneg {quota : Quota} (floor : 0 ≤ quota.usage) (delta : Amount) :
    quota.addUsage delta true =
      if quota.wouldExceed delta then .rejected quota.usage quota.limit
      else .applied quota.usage (max (quota.usage + delta) 0) quota.limit := by
  have same : (0 < delta ∧ quota.limit ≠ .unlimited ∧ quota.limit < max (quota.usage + delta) 0) ↔
      quota.wouldExceed delta = true := by
    simp only [wouldExceed, isUnlimited, decide_eq_true_eq]
    refine and_congr_right fun positive => and_congr_right fun _ => ?_
    simp only [Amount.le_iff, Amount.lt_iff, Amount.value_max, Amount.value_add,
      Amount.value_zero] at floor positive ⊢
    omega
  simp only [addUsage, true_and, same]

/-- A change by nothing exceeds no limit. -/
theorem Quota.wouldExceed_zero (quota : Quota) : quota.wouldExceed 0 = false := by
  have still : ¬ (0 : Amount) < 0 := by decide
  simp [wouldExceed, still]

/-- A batch that is applied once asks for the changes as they are. -/
theorem Amount.mul_one (amount : Amount) : amount * 1 = amount := by
  apply Amount.ext
  have lower := amount.lower
  have upper := amount.upper
  rw [value_mul, show (1 : Amount).value = 1 from rfl]
  omega

namespace Action

variable {σ ι α : Type} {store : σ}

theorem ofExcept_eq_ok (value : α) (store : σ) :
    (ofExcept (.ok value) : Action σ α) store = .ok value store := rfl

/-- An access succeeds as the call of the store does. -/
theorem access_eq_ok {request : StoreAccess σ α} {value : α} {after : σ}
    (run : request store = .ok value after) : access request store = .ok value after := by
  rw [access, EStateM.adaptExcept, run]

/-- A collection of reads leaves the store alone and appends what they find. -/
theorem collect_eq_ok {action : ι → Action σ (List α)} {found : ι → List α} {items : List ι}
    (reads : ∀ item ∈ items, action item store = .ok (found item) store) :
    collect action items store = .ok (items.flatMap found) store := by
  induction items with
  | nil => rfl
  | cons item items inductionHypothesis =>
      have others := inductionHypothesis fun other member =>
        reads other (List.mem_cons_of_mem _ member)
      unfold collect
      rw [bind_of_eq_ok (reads item List.mem_cons_self), bind_of_eq_ok others]
      rfl

end Action

variable {σ : Type} [QuotaStore σ] [LawfulStore σ]

/-- A change of a stored quota breaches its limit if it would exceed the quota. -/
def breach? (store : σ) (scope : Entity) (delta : String × Amount) : Option Violation :=
  ((lookup store scope delta.1).filter fun quota => quota.wouldExceed delta.2).map fun quota =>
    ⟨scope, delta.1, quota.limit, quota.usage + delta.2⟩

/-- A stored quota is breached if the change would exceed its limit. -/
theorem breach?_of_lookup {store : σ} {scope : Entity} {delta : String × Amount} {quota : Quota}
    (found : lookup store scope delta.1 = some quota) :
    breach? store scope delta =
      if quota.wouldExceed delta.2 then
        some ⟨scope, delta.1, quota.limit, quota.usage + delta.2⟩
      else none := by
  rw [breach?, found, Option.filter_some]
  split <;> rfl

namespace Engine

variable {engine : Engine} {fit : StoreCall → σ → Prop} {scope : Entity}
  {deltas : List (String × Amount)} {store : σ}

/-- The quotas that a batch names are at hand if each of them is available and stored with a usage
that is not negative. -/
def AtHand (engine : Engine) (store : σ) (scope : Entity) (deltas : List (String × Amount)) : Prop :=
  ∀ delta ∈ deltas, engine.Available scope delta.1 ∧
    ∃ quota, lookup store scope delta.1 = some quota ∧ 0 ≤ quota.usage

section Check

/-- A quota reads as it stands, and reading it changes nothing. -/
theorem effective_eq (engine : Engine) (store : σ) (scope : Entity) (field : Field) :
    engine.effective scope field store = .ok (engine.standing store scope field) store := by
  have read := Action.access_eq_ok (LawfulStore.get_eq store scope field.name)
  unfold effective
  rw [Action.bind_of_eq_ok read]
  rfl

/-- What is read of a quota is read of its standing, if the quota is registered. -/
theorem read_eq {α : Type} (name : String) (read : Quota → Action σ α) :
    (do
      let field ← Action.ofExcept (engine.field scope name)
      let quota ← engine.effective scope field
      read quota : Action σ α) store =
        match engine.registry.field? scope.kind name with
        | some field => read (engine.standing store scope field) store
        | none => .error (.unknownQuota scope.kind name) store := by
  rw [Engine.field, Registry.field]
  cases engine.registry.field? scope.kind name with
  | none => rfl
  | some field =>
      rw [Action.bind_of_eq_ok (Action.ofExcept_eq_ok field store),
        Action.bind_of_eq_ok (engine.effective_eq store scope field)]

/-- The connected quotas of a scope are listed as they stand. -/
theorem quotas_eq (engine : Engine) (scope : Entity) (store : σ) :
    engine.quotas scope store =
      .ok (((engine.registry.fields scope.kind).filter fun field =>
        field.isConnected scope engine.graph).map fun field =>
          ⟨scope, field.name, engine.standing store scope field⟩) store := by
  have reads : ∀ field ∈ engine.registry.fields scope.kind,
      (do
        if field.isConnected scope engine.graph then
          let quota ← engine.effective scope field
          return [⟨scope, field.name, quota⟩]
        else
          return [] : Action σ (List Record)) store =
        .ok (if field.isConnected scope engine.graph then
          [⟨scope, field.name, engine.standing store scope field⟩] else []) store := by
    intro field _
    split
    · rw [Action.bind_of_eq_ok (engine.effective_eq store scope field)]
      rfl
    · rfl
  rw [quotas, Action.collect_eq_ok reads]
  congr 1
  induction engine.registry.fields scope.kind with
  | nil => rfl
  | cons field fields inductionHypothesis =>
      rw [List.flatMap_cons, inductionHypothesis, List.filter_cons]
      split <;> rfl

variable {name : String} {quota : Quota}

/-- The limit of a stored quota is read as it is. -/
theorem limit_eq_ok (registered : (engine.registry.field? scope.kind name).isSome)
    (found : lookup store scope name = some quota) :
    engine.limit scope name store = .ok quota.limit store := by
  obtain ⟨field, known⟩ := Option.isSome_iff_exists.1 registered
  obtain ⟨-, rfl⟩ := Registry.field?_eq_some_iff.1 known
  rw [limit, read_eq, known]
  dsimp only
  rw [standing_of_lookup found]
  rfl

/-- The usage of a stored quota is read without going below zero. -/
theorem usage_eq_ok (registered : (engine.registry.field? scope.kind name).isSome)
    (found : lookup store scope name = some quota) :
    engine.usage scope name store = .ok (max quota.usage 0) store := by
  obtain ⟨field, known⟩ := Option.isSome_iff_exists.1 registered
  obtain ⟨-, rfl⟩ := Registry.field?_eq_some_iff.1 known
  rw [usage, read_eq, known]
  dsimp only
  rw [standing_of_lookup found]
  rfl

/-- The cases are those of the check: no increase, no limit, and an increase within or above one. -/
theorem violation?_eq_ok {delta : String × Amount}
    (registered : (engine.registry.field? scope.kind delta.1).isSome)
    (found : lookup store scope delta.1 = some quota) (floor : 0 ≤ quota.usage) :
    engine.violation? scope delta.1 delta.2 store =
      .ok (breach? store scope delta).toList store := by
  have raised : max quota.usage 0 = quota.usage := by
    apply Amount.ext
    rw [Amount.le_iff, Amount.value_zero] at floor
    rw [Amount.value_max, Amount.value_zero]
    omega
  unfold violation?
  rw [breach?_of_lookup found]
  by_cases positive : 0 < delta.2
  · rw [if_pos positive, Action.bind_of_eq_ok (limit_eq_ok registered found)]
    by_cases unlimited : quota.limit = .unlimited
    · have fits : quota.wouldExceed delta.2 = false := by
        simp [Quota.wouldExceed, Quota.isUnlimited, unlimited]
      rw [if_pos unlimited, fits]
      rfl
    · rw [if_neg unlimited, Action.bind_of_eq_ok (usage_eq_ok registered found), raised]
      have decides : quota.wouldExceed delta.2 = decide (quota.limit < quota.usage + delta.2) := by
        simp [Quota.wouldExceed, Quota.isUnlimited, positive, unlimited]
      rw [decides]
      by_cases exceeds : quota.limit < quota.usage + delta.2
      · simp only [exceeds, if_true, decide_true]
        rfl
      · simp only [exceeds, if_false, decide_false, Bool.false_eq_true]
        rfl
  · have fits : quota.wouldExceed delta.2 = false := by simp [Quota.wouldExceed, positive]
    rw [if_neg positive, fits]
    rfl

/-- A quota can be checked if it is registered and stored with a usage that is not negative. -/
def Checkable (engine : Engine) (store : σ) (scope : Entity) (name : String) : Prop :=
  (engine.registry.field? scope.kind name).isSome ∧
    ∃ quota, lookup store scope name = some quota ∧ 0 ≤ quota.usage

/-- The check reports the breaches in the order of the batch and leaves the store alone. -/
theorem validateChange_of_checkable
    (checkable : ∀ delta ∈ deltas, engine.Checkable store scope delta.1) :
    engine.validateChange scope deltas store =
      if (deltas.filterMap (breach? store scope)).isEmpty then .ok () store
      else .error (.quotasExceeded (deltas.filterMap (breach? store scope))) store := by
  have reads : ∀ delta ∈ deltas, engine.violation? scope delta.1 delta.2 store =
      .ok (breach? store scope delta).toList store := by
    intro delta member
    obtain ⟨registered, quota, found, floor⟩ := checkable delta member
    exact violation?_eq_ok registered found floor
  unfold validateChange
  rw [Action.bind_of_eq_ok (Action.collect_eq_ok reads), ← List.filterMap_eq_flatMap_toList]
  split <;> rfl

/-- The check of a batch reports all breaches, and it leaves the store as it is. -/
theorem validateChange_eq (atHand : engine.AtHand store scope deltas) :
    engine.validateChange scope deltas store =
      if (deltas.filterMap (breach? store scope)).isEmpty then .ok () store
      else .error (.quotasExceeded (deltas.filterMap (breach? store scope))) store := by
  apply validateChange_of_checkable
  intro delta member
  obtain ⟨⟨field, known, -⟩, stored⟩ := atHand delta member
  exact ⟨Option.isSome_of_eq_some known, stored⟩

end Check

section Increments

variable (shallow : engine.graph.Shallow)

include shallow

/-- What a change entails above its scope leaves the other quotas of the scope as they are. -/
theorem ensures_childChanged_besides {name : String} (old new : Amount) :
    Ensures fit (engine.childChanged scope name .usage old new) store fun result after =>
      result = .ok ⟨⟩ ∧ ∀ label, lookup after scope label = lookup store scope label := by
  have spreads : engine.Spreads fit (fun child _ => child = scope ∨ engine.graph.Above scope child)
      fun later => ∀ label, lookup later scope label = lookup store scope label := by
    refine spreads_elsewhere (shallow.not_above_self scope)
      fun later place label quota other same name => ?_
    rw [LawfulStore.lookup_put, if_neg fun own => other own.1]
    exact same name
  refine (ensures_childChanged_kept spreads .usage (fun _ => .inl rfl) fun _ => rfl).mono ?_
  intro result after kept
  cases result with
  | ok done => exact ⟨rfl, kept.1⟩
  | error error => exact absurd shallow kept.2

/-- A change of a quota at hand is refused for its breach. Without one it is applied, and the other
quotas of the scope stay as they are. -/
theorem ensures_applyDelta_checked {delta : String × Amount}
    (atHand : engine.AtHand store scope [delta]) :
    Ensures fit (engine.applyDelta scope delta.1 delta.2 true) store fun result after =>
      match breach? store scope delta with
      | some violation => result = .error (.limitExceeded violation)
      | none => (∃ amount, result = .ok amount) ∧
          ∀ label ≠ delta.1, lookup after scope label = lookup store scope label := by
  obtain ⟨⟨field, known, connected⟩, quota, found, floor⟩ := atHand delta List.mem_cons_self
  rw [breach?_of_lookup found]
  apply ensures_applyDelta_of_steps
  · intro zero
    rw [zero, Quota.wouldExceed_zero]
    exact ⟨⟨0, rfl⟩, fun _ _ => rfl⟩
  intro _
  refine (ensures_getOrCreate_stored known connected found).mono ?_
  rintro _ middle ⟨rfl, rfl⟩
  refine Action.ensures_addUsage_stored found fun _ => ?_
  rw [Quota.addUsage_of_nonneg floor]
  cases exceeds : quota.wouldExceed delta.2 with
  | true => simp only [if_true]
  | false =>
    simp only [Bool.false_eq_true, if_false]
    refine (ensures_childChanged_besides shallow _ _).mono ?_
    rintro _ after ⟨rfl, same⟩
    refine ⟨⟨_, rfl⟩, fun label other => ?_⟩
    rw [same, LawfulStore.lookup_put, if_neg fun own => other own.2.symm]

/-- The first breach of a batch stops it. The induction is on the rest of the batch, whose quotas are
still as they were, because the names are distinct. -/
theorem ensures_applyAll_checked (distinct : (deltas.map Prod.fst).Nodup)
    (atHand : engine.AtHand store scope deltas) (changes : List Change) :
    Ensures fit (engine.applyAll true ((requests [scope] deltas 1).map .ok) changes) store
      fun result _ => result =
        match (deltas.filterMap (breach? store scope)).head? with
        | some violation => .error (.limitExceeded violation)
        | none => .ok () := by
  induction deltas generalizing store changes with
  | nil => exact Action.ensures_pure rfl
  | cons delta deltas inductionHypothesis =>
      obtain ⟨fresh, distinct⟩ := List.nodup_cons.1 distinct
      change Ensures fit (engine.applyAll true
        (.ok ⟨scope, delta.1, delta.2 * 1⟩ :: (requests [scope] deltas 1).map .ok) changes) store _
      rw [Amount.mul_one]
      refine ensures_applyAll_of_steps ((ensures_applyDelta_checked shallow fun other member =>
        atHand other (List.mem_cons.2 (.inl (List.mem_singleton.1 member)))).mono ?_)
      intro result middle applies
      cases breach : breach? store scope delta with
      | some violation =>
          rw [breach] at applies
          subst applies
          rw [List.filterMap_cons_some breach]
          exact (ensures_compensate_ok _).mono fun _ _ _ => rfl
      | none =>
          rw [breach] at applies
          obtain ⟨⟨amount, rfl⟩, same⟩ := applies
          have unread : ∀ other ∈ deltas, lookup middle scope other.1 = lookup store scope other.1 :=
            fun other member => same other.1 fun name =>
              fresh (name ▸ List.mem_map_of_mem member)
          have alike : deltas.filterMap (breach? middle scope) =
              deltas.filterMap (breach? store scope) :=
            List.filterMap_congr fun other member => by rw [breach?, breach?, unread other member]
          rw [List.filterMap_cons_none breach, ← alike]
          refine inductionHypothesis distinct (fun other member => ?_) _
          rw [unread other member]
          exact atHand other (List.mem_cons_of_mem _ member)

/-- This is the violation for which a change of the scope would be rejected on its own. -/
def rejection? (engine : Engine) (store : σ) (scope : Entity) (delta : String × Amount) :
    Option Violation :=
  match Action.outcome (engine.addUsage scope delta.1 delta.2 true) store with
  | .error (.limitExceeded violation) => some violation
  | _ => none

/-- The store rejects a change for the breach that the check finds. -/
theorem rejection?_eq {delta : String × Amount} (atHand : engine.AtHand store scope [delta]) :
    engine.rejection? store scope delta = breach? store scope delta := by
  have ensures : Ensures (fun _ _ => True) (engine.applyDelta scope delta.1 delta.2 true) store _ :=
    ensures_applyDelta_checked shallow atHand
  have checked := ensures.of_allFit
    (RecordedStore.answersAlike.applyDelta engine scope delta.1 delta.2 true) fun _ _ => trivial
  unfold rejection? addUsage
  rw [Action.discard_eq_bind, Action.outcome_bind]
  cases breach : breach? store scope delta with
  | some violation =>
      rw [breach] at checked
      rw [checked]
  | none =>
      rw [breach] at checked
      obtain ⟨⟨amount, applied⟩, -⟩ := checked
      rw [applied]
      rfl

/-- The increases of a batch fail for its first breach, and without a breach they all succeed. -/
theorem outcome_increase (distinct : (deltas.map Prod.fst).Nodup)
    (atHand : engine.AtHand store scope deltas) :
    Action.outcome (engine.increase [scope] deltas true) store =
      match (deltas.filterMap (breach? store scope)).head? with
      | some violation => .error (.limitExceeded violation)
      | none => .ok () := by
  have ensures : Ensures (fun _ _ => True) (engine.increase [scope] deltas true) store _ :=
    ensures_applyAll_checked shallow distinct atHand []
  exact ensures.of_allFit (RecordedStore.answersAlike.applyChanges engine [scope] deltas 1 true)
    fun _ _ => trivial

/-- The check of a batch changes nothing, and it succeeds exactly if the batch can be applied. Where
it fails, it reports the changes that would be rejected on their own, in their order, and the batch
itself fails for the first of them. -/
theorem validateChange_predicts (distinct : (deltas.map Prod.fst).Nodup)
    (atHand : engine.AtHand store scope deltas) :
    Action.after (engine.validateChange scope deltas) store = store ∧
      (Action.outcome (engine.validateChange scope deltas) store = .ok () ↔
        Action.outcome (engine.increase [scope] deltas true) store = .ok ()) ∧
      ∀ error, Action.outcome (engine.validateChange scope deltas) store = .error error →
        ∃ first others, error = .quotasExceeded (first :: others) ∧
          first :: others = deltas.filterMap (engine.rejection? store scope) ∧
          Action.outcome (engine.increase [scope] deltas true) store =
            .error (.limitExceeded first) := by
  have single : deltas.filterMap (engine.rejection? store scope) =
      deltas.filterMap (breach? store scope) :=
    List.filterMap_congr fun delta member => rejection?_eq shallow fun other own =>
      List.mem_singleton.1 own ▸ atHand delta member
  have check : engine.validateChange scope deltas store = _ := validateChange_eq atHand
  rw [outcome_increase shallow distinct atHand, single]
  cases breaches : deltas.filterMap (breach? store scope) with
  | nil =>
      rw [breaches] at check
      obtain ⟨succeeds, unchanged⟩ := Action.eq_ok_iff.1 check
      rw [succeeds]
      exact ⟨unchanged, by simp, by simp⟩
  | cons first others =>
      rw [breaches] at check
      obtain ⟨fails, unchanged⟩ := Action.eq_error_iff.1 check
      rw [fails]
      refine ⟨unchanged, by simp, ?_⟩
      intro error same
      exact ⟨first, others, (Except.error.inj same).symm, rfl, rfl⟩

end Increments

end Engine

section Sample

/-- The team has both its quotas, and the aggregates above them are missing. -/
def busyStore : MemoryStore :=
  (MemoryStore.empty.put sampleTeam "storage" ⟨10, 4⟩).put sampleTeam "seats" ⟨5, 4⟩

/-- Both changes exceed their quotas, although each usage is still below its limit. -/
def busyDeltas : List (String × Amount) := [("seats", 2), ("storage", 7)]

/-- All quotas of the batch are stored. -/
theorem atHand_busyStore : sampleEngine.AtHand busyStore sampleTeam busyDeltas := by
  intro delta member
  rcases List.mem_cons.1 member with rfl | other
  · exact ⟨⟨sampleCounter, rfl, rfl⟩, ⟨5, 4⟩, by decide +kernel, by decide⟩
  · obtain rfl := List.mem_singleton.1 other
    exact ⟨⟨{ name := "storage", defaultLimit := .constant 10 }, rfl, rfl⟩, ⟨10, 4⟩,
      by decide +kernel, by decide⟩

/-- Both changes are reported, and the batch fails for the first one. -/
theorem validateChange_predicts_sample :
    Action.outcome (sampleEngine.validateChange sampleTeam busyDeltas) busyStore =
        .error (.quotasExceeded [⟨sampleTeam, "seats", 5, 6⟩, ⟨sampleTeam, "storage", 10, 11⟩]) ∧
      Action.outcome (sampleEngine.increase [sampleTeam] busyDeltas true) busyStore =
        .error (.limitExceeded ⟨sampleTeam, "seats", 5, 6⟩) := by
  have refused : Action.outcome (sampleEngine.validateChange sampleTeam busyDeltas) busyStore =
      .error (.quotasExceeded [⟨sampleTeam, "seats", 5, 6⟩, ⟨sampleTeam, "storage", 10, 11⟩]) := by
    decide +kernel
  obtain ⟨-, -, predicts⟩ := Engine.validateChange_predicts shallow_sampleGraph (by decide)
    atHand_busyStore
  obtain ⟨first, others, same, -, failed⟩ := predicts _ refused
  obtain ⟨rfl, rfl⟩ : first = _ ∧ others = _ := by
    simpa [eq_comm] using same
  exact ⟨refused, failed⟩

end Sample

end HierarchicalQuota
