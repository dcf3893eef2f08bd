import HierarchicalQuota.Proofs.Counts
import HierarchicalQuota.Proofs.Events

namespace HierarchicalQuota

open HierarchicalQuota.Action (Ensures)
open LawfulStore (lookup put drop list)

variable {σ : Type} [QuotaStore σ] [LawfulStore σ]

/-- Without requests nothing is pending. -/
theorem pending_nil (scope : Entity) (name : String) : pending [] scope name = 0 := rfl

/-- A request for the usage is pending in full, and any other request does not matter. -/
theorem pending_cons_ok (change : Change) (requests : List (Except QuotaError Change))
    (scope : Entity) (name : String) :
    pending (.ok change :: requests) scope name =
      (if change.scope = scope ∧ change.name = name then change.amount.value else 0) +
        pending requests scope name := rfl

/-- Requests that only lower a usage are in sum not positive. -/
theorem pending_nonpos {requests : List (Except QuotaError Change)} {scope : Entity}
    {name : String} (falling : ∀ change, .ok change ∈ requests → change.scope = scope →
      change.name = name → change.amount.value ≤ 0) : pending requests scope name ≤ 0 := by
  induction requests with
  | nil => exact le_rfl
  | cons request requests inductionHypothesis =>
      have rest := inductionHypothesis fun change member => falling change (List.mem_cons_of_mem _ member)
      cases request with
      | error error =>
          change 0 + pending requests scope name ≤ 0
          omega
      | ok change =>
          rw [pending_cons_ok]
          split
          · rename_i same
            have first := falling change List.mem_cons_self same.1 same.2
            omega
          · omega

/-- Requests that only raise a usage are in sum not negative. -/
theorem pending_nonneg {requests : List (Except QuotaError Change)} {scope : Entity}
    {name : String} (rising : ∀ change, .ok change ∈ requests → change.scope = scope →
      change.name = name → 0 ≤ change.amount.value) : 0 ≤ pending requests scope name := by
  induction requests with
  | nil => exact le_rfl
  | cons request requests inductionHypothesis =>
      have rest := inductionHypothesis fun change member => rising change (List.mem_cons_of_mem _ member)
      cases request with
      | error error =>
          change 0 ≤ 0 + pending requests scope name
          omega
      | ok change =>
          rw [pending_cons_ok]
          split
          · rename_i same
            have first := rising change List.mem_cons_self same.1 same.2
            omega
          · omega

/-- A stored usage is read as it is. -/
theorem reading_eq {store : σ} {scope : Entity} {name : String} {quota : Quota}
    (found : lookup store scope name = some quota) :
    reading store scope name .usage = quota.usage.value := reading_of_some found .usage

namespace Engine

variable {engine : Engine}

/-- A usage that is not summed can be read off the sheet. -/
theorem reading_of_remainder {before after : σ} {fresh : Option Entity} {scope : Entity}
    {name : String} (same : engine.remainder fresh after = engine.remainder fresh before)
    (elsewhere : fresh ≠ some scope) (plain : engine.Plain scope name) :
    reading after scope name .usage = reading before scope name .usage := by
  have entry := congrFun (congrFun same scope) name
  rw [remainder_of_unreached elsewhere fun place _ => plain.unreached place,
    remainder_of_unreached elsewhere fun place _ => plain.unreached place] at entry
  cases found : lookup before scope name with
  | none =>
      rw [found] at entry
      rw [reading_of_none found, reading_of_none (Option.map_eq_none_iff.1 entry)]
  | some quota =>
      rw [found] at entry
      obtain ⟨later, laterFound, equal⟩ := Option.map_eq_some_iff.1 entry
      rw [reading_eq found, reading_eq laterFound]
      exact congrArg Prod.snd equal

/-- A usage that is not summed moves as the sheet does. -/
theorem reading_shifted {fresh : Option Entity} {before after : σ}
    {amount : Entity → String → Int}
    (shifted : engine.remainder fresh after = (engine.remainder fresh before).shift amount)
    {scope : Entity} {name : String} (elsewhere : fresh ≠ some scope)
    (plain : engine.Plain scope name) (present : stored before scope name = true) :
    reading after scope name .usage = reading before scope name .usage + amount scope name := by
  obtain ⟨quota, found⟩ := lookup_of_stored present
  have entry := congrFun (congrFun shifted scope) name
  rw [Sheet.shift, remainder_of_unreached elsewhere fun place _ => plain.unreached place,
    remainder_of_unreached elsewhere fun place _ => plain.unreached place, found] at entry
  obtain ⟨later, laterFound, equal⟩ := Option.map_eq_some_iff.1 entry
  rw [reading_eq found, reading_eq laterFound]
  exact congrArg Prod.snd equal

/-- A change has an impact on a usage that is not summed only if it is made to it. -/
theorem Plain.impact {scope : Entity} {name : String} (plain : engine.Plain scope name)
    (other : Entity) (label : String) :
    engine.impact other label scope name = if other = scope ∧ label = name then 1 else 0 := by
  rw [Engine.impact, paths_eq_zero (plain.unreached other), Nat.cast_zero, add_zero]

/-- A change is applied in full if it does not take the usage below zero. -/
theorem applied_eq {quota : Quota} {delta : Amount}
    (enough : 0 ≤ quota.usage.value + delta.value) : applied quota delta = delta.value := by
  unfold applied
  split
  · rename_i zero
    rw [zero, Amount.value_zero]
  · omega

/-- This number is what a list of requests asks to add to an entry of the sheet. -/
def effects (engine : Engine) (fresh : Option Entity) (requests : List (Except QuotaError Change))
    (scope : Entity) (name : String) : Int :=
  (requests.map fun request =>
    match request with
    | .ok change => engine.effect fresh change scope name
    | .error _ => 0).sum

/-- The first request adds its own effect. -/
theorem effects_cons_ok (fresh : Option Entity) (change : Change)
    (requests : List (Except QuotaError Change)) (scope : Entity) (name : String) :
    engine.effects fresh (.ok change :: requests) scope name =
      engine.effect fresh change scope name + engine.effects fresh requests scope name := rfl

/-- A usage that is not summed moves by its own changes only. -/
theorem Plain.effect {fresh : Option Entity} {scope : Entity} {name : String}
    (plain : engine.Plain scope name) (elsewhere : fresh ≠ some scope) (change : Change) :
    engine.effect fresh change scope name =
      if change.scope = scope ∧ change.name = name then change.amount.value else 0 := by
  rw [Engine.effect, plain.impact]
  split
  · rename_i isFresh
    rw [if_neg]
    rintro ⟨rfl, -⟩
    exact elsewhere isFresh
  · split
    · rw [mul_one]
    · rw [mul_zero]

/-- The effects on a usage that is not summed are what is pending for it. -/
theorem Plain.effects {fresh : Option Entity} {scope : Entity} {name : String}
    (plain : engine.Plain scope name) (elsewhere : fresh ≠ some scope)
    (requests : List (Except QuotaError Change)) :
    engine.effects fresh requests scope name = pending requests scope name := by
  rw [Engine.effects, pending]
  congr 1
  apply List.map_congr_left
  rintro (error | change) -
  · rfl
  · exact plain.effect elsewhere change

variable (shallow : engine.graph.Shallow)

include shallow

/-- A change that leaves its usage at zero or above shifts the sheet by what it asks for. Only an
increase can be refused. -/
theorem ensures_applyDelta_shifts {fresh : Option Entity} {targets : Entity → String → Prop}
    {store : σ} (adjustable : engine.AllAdjustable fresh targets store) {change : Change}
    (target : targets change.scope change.name)
    (floor : fresh ≠ some change.scope →
      0 ≤ reading store change.scope change.name .usage + change.amount.value) :
    Ensures StoreCall.Exact (engine.applyDelta change.scope change.name change.amount true) store
      fun result after =>
        match result with
        | .ok _ => engine.AllAdjustable fresh targets after ∧ stored after = stored store ∧
            engine.remainder fresh after =
              (engine.remainder fresh store).shift (engine.effect fresh change)
        | .error _ => 0 < change.amount := by
  refine (ensures_applyDelta_adjustable shallow adjustable target change.amount true).mono ?_
  rintro (error | amount) after ⟨adjustableAfter, sameStored, applies⟩
  · exact applies.2.2.1
  obtain ⟨value, shifted⟩ := applies
  refine ⟨adjustableAfter, sameStored, ?_⟩
  rw [shifted]
  congr 1
  funext other label
  unfold effect
  by_cases isFresh : fresh = some change.scope
  · rw [if_pos isFresh, if_pos isFresh]
  · obtain ⟨quota, found, -⟩ := (adjustable _ _ target).present
    have enough := floor isFresh
    rw [reading_eq found] at enough
    rw [if_neg isFresh, if_neg isFresh, (value quota found).trans (applied_eq enough)]

/-- A batch of increases, or of decreases that leave every usage at zero or above, shifts the sheet by
all that it asks for. It fails only for a bad request or an increase. -/
theorem ensures_applyAll_shifts {fresh : Option Entity} {targets : Entity → String → Prop}
    {requests : List (Except QuotaError Change)} {applied : List Change}
    (targeted : ∀ change, .ok change ∈ requests → targets change.scope change.name)
    (oneSign : (∀ change, .ok change ∈ requests → 0 ≤ change.amount.value) ∨
      ∀ change, .ok change ∈ requests → change.amount.value ≤ 0)
    {store : σ} (adjustable : engine.AllAdjustable fresh targets store)
    (enough : ∀ scope name, targets scope name → fresh ≠ some scope →
      0 ≤ reading store scope name .usage + pending requests scope name) :
    Ensures StoreCall.Exact (engine.applyAll true requests applied) store fun result after =>
      match result with
      | .ok _ => (∀ error, .error error ∉ requests) ∧ engine.AllAdjustable fresh targets after ∧
          stored after = stored store ∧ engine.remainder fresh after =
            (engine.remainder fresh store).shift (engine.effects fresh requests)
      | .error _ => (∃ error, .error error ∈ requests) ∨
          ∃ change, .ok change ∈ requests ∧ 0 < change.amount := by
  induction requests generalizing applied store with
  | nil =>
      refine Action.ensures_pure ⟨by simp, adjustable, rfl, ?_⟩
      exact ((engine.remainder fresh store).shift_zero fun _ _ => rfl).symm
  | cons request requests inductionHypothesis =>
      apply ensures_applyAll_of_steps
      cases request with
      | error error =>
          exact (ensures_compensate_ok applied).mono fun _ _ _ => .inl ⟨error, List.mem_cons_self⟩
      | ok change =>
          have target := targeted change List.mem_cons_self
          have floor (elsewhere : fresh ≠ some change.scope) :
              0 ≤ reading store change.scope change.name .usage + change.amount.value := by
            obtain ⟨quota, found, positive⟩ := (adjustable _ _ target).present
            have total := enough change.scope change.name target elsewhere
            rw [pending_cons_ok, if_pos ⟨rfl, rfl⟩] at total
            rw [reading_eq found] at total ⊢
            -- Increases start from zero at least, and decreases leave room for the later ones.
            rcases oneSign with rising | falling
            · have start := positive elsewhere
              have rise := rising change List.mem_cons_self
              omega
            · have rest : pending requests change.scope change.name ≤ 0 :=
                pending_nonpos fun other member _ _ =>
                  falling other (List.mem_cons_of_mem _ member)
              omega
          refine (ensures_applyDelta_shifts shallow adjustable target floor).mono ?_
          rintro (error | amount) middle applies
          · exact (ensures_compensate_ok applied).mono
              fun _ _ _ => .inr ⟨change, List.mem_cons_self, applies⟩
          obtain ⟨adjustableMiddle, sameStored, shifted⟩ := applies
          refine (inductionHypothesis
            (fun other member => targeted other (List.mem_cons_of_mem _ member))
            (oneSign.imp (fun rising other member => rising other (List.mem_cons_of_mem _ member))
              fun falling other member => falling other (List.mem_cons_of_mem _ member))
            adjustableMiddle fun scope name otherTarget elsewhere => ?_).mono ?_
          · have other := adjustable scope name otherTarget
            obtain ⟨record, recordFound, -⟩ := other.present
            have total := enough scope name otherTarget elsewhere
            rw [pending_cons_ok] at total
            rw [reading_shifted shifted elsewhere other.plain (stored_of_lookup recordFound),
              other.plain.effect elsewhere]
            omega
          · rintro (error | done) after rest
            · exact rest.imp (fun ⟨bad, member⟩ => ⟨bad, List.mem_cons_of_mem _ member⟩)
                fun ⟨other, member, rises⟩ => ⟨other, List.mem_cons_of_mem _ member, rises⟩
            · obtain ⟨valid, adjustableAfter, sameAfter, shiftedAfter⟩ := rest
              refine ⟨fun error member => ?_, adjustableAfter, sameAfter.trans sameStored, ?_⟩
              · rcases List.mem_cons.1 member with same | later
                · cases same
                · exact valid error later
              · rw [shiftedAfter, shifted, Sheet.shift_add]
                rfl

/-- An event that succeeds adds to every counter and total what its entity contributes. The floor at
zero is never felt, because no counter sinks below its targets. -/
theorem ensures_applyTargetChange_adds (regular : engine.registry.Regular) {entity : Entity}
    {change : TargetChange}
    (oneSign : (∀ registration ∈ engine.registry.registrations,
        0 ≤ (change.delta registration.field entity engine.graph).value) ∨
      ∀ registration ∈ engine.registry.registrations,
        (change.delta registration.field entity engine.graph).value ≤ 0)
    {store : σ} (adjustable : engine.AllAdjustable none (engine.Targets entity) store)
    (enough : ∀ scope, ∀ field ∈ engine.registry.fields scope.kind,
      engine.Targets entity scope field.name →
      0 ≤ reading store scope field.name .usage + field.contribution scope engine.graph entity
        (change.delta field entity engine.graph).value) :
    Ensures StoreCall.Exact (engine.applyTargetChange entity change) store fun result after =>
      result = .ok ⟨⟩ → ∀ scope, ∀ field ∈ engine.registry.fields scope.kind,
        field.aggregator? = none → stored store scope field.name = true →
        reading after scope field.name .usage = reading store scope field.name .usage +
          field.contribution scope engine.graph entity
            (change.delta field entity engine.graph).value := by
  have amounts : ∀ request, .ok request ∈ (engine.registry.targeting entity.kind).filterMap
      (engine.targetRequest? entity change) → ∃ registration ∈ engine.registry.registrations,
        request.amount = change.delta registration.field entity engine.graph := by
    intro request member
    obtain ⟨registration, listed, asks⟩ := List.mem_filterMap.1 member
    exact ⟨registration, Registry.mem_registrations_of_targeting listed,
      (parts_of_targetRequest? asks).2.2⟩
  unfold applyTargetChange
  refine (ensures_applyAll_shifts shallow (fun request member => targets_of_mem member) ?_
    adjustable fun scope name targets _ => ?_).mono ?_
  · apply oneSign.imp
    · intro rising request member
      obtain ⟨registration, listed, same⟩ := amounts request member
      rw [same]
      exact rising registration listed
    · intro falling request member
      obtain ⟨registration, listed, same⟩ := amounts request member
      rw [same]
      exact falling registration listed
  · obtain ⟨field, registered, rfl, -⟩ := targets.mem_fields
    rw [pending_targeting regular entity change registered]
    exact enough scope field registered targets
  · rintro (error | done) after shifts
    · rintro ⟨⟩
    intro _ scope field registered plain present
    have isPlain : engine.Plain scope field.name := by
      intro other known
      have same := Registry.field?_eq_some_iff.2 ⟨registered, rfl⟩
      obtain rfl := Option.some.inj (same.symm.trans known)
      exact plain
    rw [reading_shifted shifts.2.2.2 (by simp) isPlain present, isPlain.effects (by simp),
      pending_targeting regular entity change registered]

omit shallow in
/-- The counters of a new scope are empty once its records are there. -/
theorem reading_of_initialized (regular : engine.registry.Regular) {entity : Entity}
    {before store : σ} (unborn : ∀ name, lookup before entity name = none)
    (initializes : engine.Initializes entity before store) {scope : Entity} {field : Field}
    (registered : field ∈ engine.registry.fields scope.kind) (targets : field.targets?.isSome) :
    reading store scope field.name .usage = reading before scope field.name .usage := by
  by_cases isFresh : entity = scope
  · subst isFresh
    rw [reading_of_none (unborn field.name)]
    cases found : lookup store entity field.name with
    | none => rw [reading_of_none found]
    | some quota =>
        rcases initializes.begins field registered (aggregator?_of_targets targets) quota found
          with earlier | begun
        · rw [unborn] at earlier
          cases earlier
        · have idle := (regular.of_mem_fields registered).idle targets entity engine.graph
          rw [reading_eq found, begun, Field.initial]
          dsimp only
          rw [idle, Amount.value_zero]
  · exact reading_of_remainder initializes.same (fun same => isFresh (Option.some.inj same))
      (plain_of_targets registered targets)

/-- Once a regular new scope has its records, all its targets take changes as those of others. -/
theorem adjustable_of_regular (regular : engine.registry.Regular) {entity : Entity}
    {before store : σ} (prepared : engine.Prepared (.created entity) before)
    (initializes : engine.Initializes entity before store)
    (initialized : ∀ field ∈ engine.registry.fields entity.kind,
      field.isConnected entity engine.graph = true → stored store entity field.name = true) :
    engine.AllAdjustable none (engine.Targets entity) store := by
  intro scope name targets
  have loose := adjustable_of_initialized shallow prepared initializes initialized scope name targets
  obtain ⟨quota, found, positive⟩ := loose.present
  refine ⟨loose.connected, loose.plain, ⟨quota, found, fun _ => ?_⟩, loose.covered, by simp⟩
  by_cases isFresh : entity = scope
  · subst isFresh
    obtain ⟨field, registered, rfl, -⟩ := targets.mem_fields
    have unborn : ∀ name, lookup before entity name = none := prepared.unborn rfl
    have empty := reading_of_initialized regular unborn initializes registered
      (targets.isSome_targets? registered)
    rw [reading_eq found, reading_of_none (unborn _)] at empty
    exact empty.ge
  · exact positive fun same => isFresh (Option.some.inj same)

/-- A creation that succeeds adds what the new entity weighs. -/
theorem ensures_entityCreated_adds (regular : engine.registry.Regular)
    (nonnegative : engine.graph.Nonnegative) {entity : Entity} {store : σ}
    (prepared : engine.Prepared (.created entity) store) :
    Ensures StoreCall.Exact (engine.entityCreated entity) store fun result after =>
      result = .ok ⟨⟩ → ∀ scope, ∀ field ∈ engine.registry.fields scope.kind,
        field.targets?.isSome → (scope = entity ∨ stored store scope field.name = true) →
        reading after scope field.name .usage = reading store scope field.name .usage +
          field.contribution scope engine.graph entity (field.weight entity engine.graph).value := by
  have rising : ∀ registration ∈ engine.registry.registrations,
      0 ≤ (TargetChange.created.delta registration.field entity engine.graph).value :=
    fun registration listed => (regular registration listed).weight_nonneg nonnegative entity
  have enough (middle : σ) (adjustable : engine.AllAdjustable none (engine.Targets entity) middle)
      (scope : Entity) (field : Field) (registered : field ∈ engine.registry.fields scope.kind)
      (targets : engine.Targets entity scope field.name) :
      0 ≤ reading middle scope field.name .usage + field.contribution scope engine.graph entity
        (TargetChange.created.delta field entity engine.graph).value := by
    obtain ⟨quota, found, positive⟩ := (adjustable scope field.name targets).present
    have start := positive (by simp)
    have rise := Field.contribution_nonneg field scope engine.graph entity
      ((regular.of_mem_fields registered).weight_nonneg nonnegative entity)
    rw [reading_eq found]
    exact add_nonneg start rise
  have unborn : ∀ name, lookup store entity name = none := prepared.unborn rfl
  by_cases isScope : engine.registry.isScopeKind entity.kind = true
  · refine ensures_entityCreated_of_steps isScope ((ensures_initializeFields_covered shallow
      (engine.registry.fields entity.kind) (fun _ member => member) prepared.covered).mono ?_)
    rintro _ middle ⟨⟨count, rfl⟩, initializes, initialized⟩
    have adjustable := adjustable_of_regular shallow regular prepared initializes initialized
    refine (ensures_applyTargetChange_adds shallow regular (.inl rising) adjustable
      (enough middle adjustable)).mono ?_
    rintro (error | done) later adds
    · exact fun _ _ => nofun
    · intro _ scope field registered targets present
      have presentMiddle : stored middle scope field.name = true := by
        rcases present with rfl | earlier
        · exact initialized field registered
            ((regular.of_mem_fields registered).isConnected scope engine.graph)
        · exact initializes.kept _ _ earlier
      rw [adds rfl scope field registered (aggregator?_of_targets targets) presentMiddle,
        reading_of_initialized regular unborn initializes registered targets]
      rfl
  · have adjustable := adjustable_of_unscoped prepared isScope
    refine ensures_entityCreated_of_not_isScope isScope
      ((ensures_applyTargetChange_adds shallow regular (.inl rising) adjustable
        (enough store adjustable)).mono ?_)
    intro result after adds succeeded scope field registered targets present
    have presentStore : stored store scope field.name = true := by
      refine present.resolve_left ?_
      rintro rfl
      exact isScope (Registry.isScopeKind_of_mem_fields registered)
    exact adds succeeded scope field registered (aggregator?_of_targets targets) presentStore

/-- A deletion that succeeds takes away what the entity weighs. -/
theorem ensures_entityDeleted_adds (regular : engine.registry.Regular)
    (nonnegative : engine.graph.Nonnegative) {entity : Entity} {store : σ}
    (prepared : engine.Prepared (.deleted entity) store)
    (enough : ∀ scope, ∀ field ∈ engine.registry.fields scope.kind,
      engine.Targets entity scope field.name →
      field.contribution scope engine.graph entity (field.weight entity engine.graph).value ≤
        reading store scope field.name .usage) :
    Ensures StoreCall.Exact (engine.entityDeleted entity) store fun result after =>
      result = .ok ⟨⟩ → ∀ scope, ∀ field ∈ engine.registry.fields scope.kind,
        field.targets?.isSome → scope ≠ entity → stored store scope field.name = true →
        reading after scope field.name .usage = reading store scope field.name .usage -
          field.contribution scope engine.graph entity (field.weight entity engine.graph).value := by
  have negated {field : Field} (isRegular : field.Regular) :
      (TargetChange.deleted.delta field entity engine.graph).value =
        -(field.weight entity engine.graph).value := by
    have nonneg := isRegular.weight_nonneg nonnegative entity
    change (-field.weight entity engine.graph).value = _
    exact Amount.value_neg_of_nonneg nonneg
  have falling : ∀ registration ∈ engine.registry.registrations,
      (TargetChange.deleted.delta registration.field entity engine.graph).value ≤ 0 := by
    intro registration listed
    have nonneg := (regular registration listed).weight_nonneg nonnegative entity
    rw [negated (regular registration listed)]
    omega
  have adjustable := prepared.adjustable (by simp)
  unfold entityDeleted
  refine Action.ensures_bind (fun _ => inferInstance)
    (((ensures_applyTargetChange_allOrNothing shallow .deleted adjustable).and
      (ensures_applyTargetChange_adds shallow regular (.inr falling) adjustable ?_)).mono ?_)
  · intro scope field registered targets
    have covered := enough scope field registered targets
    rw [negated (regular.of_mem_fields registered), Field.contribution_neg]
    omega
  rintro (error | done) middle ⟨⟨sameStored, -⟩, adds⟩
  · rintro ⟨⟩
  have changed : ∀ scope, ∀ field ∈ engine.registry.fields scope.kind, field.targets?.isSome →
      stored store scope field.name = true →
      reading middle scope field.name .usage = reading store scope field.name .usage -
        field.contribution scope engine.graph entity
          (field.weight entity engine.graph).value := by
    intro scope field registered targets present
    rw [adds rfl scope field registered (aggregator?_of_targets targets) present,
      negated (regular.of_mem_fields registered), Field.contribution_neg]
    rfl
  dsimp only
  split
  · have covered : engine.Covered middle entity :=
      prepared.covered.mono fun other label present => by rwa [sameStored]
    refine (ensures_childDeleted_covered shallow covered).mono ?_
    rintro _ after ⟨rfl, moved⟩ _ scope field registered targets elsewhere present
    -- The records of the entity are removed last, and what spreads from them reaches no counter.
    have still : lookup after scope field.name = lookup middle scope field.name := by
      rw [moved.lookup_eq, LawfulStore.lookup_drop, if_neg elsewhere.symm]
      rw [sum_map_eq_zero, neg_zero]
      intro record _
      exact share_eq_zero ((plain_of_targets registered targets).unreached record.scope)
    rw [reading, still]
    exact changed scope field registered targets present
  · apply Action.ensures_pure
    intro _ scope field registered targets _ present
    exact changed scope field registered targets present

/-- A changed attribute that is accepted adds its change to the totals that track it. -/
theorem ensures_attributeChanged_adds (regular : engine.registry.Regular) {entity : Entity}
    {name : String} {old new : Amount} {store : σ}
    (prepared : engine.Prepared (.attributeChanged entity name old new) store)
    (exact : new.SubtractsExactly old)
    (enough : ∀ scope, ∀ field ∈ engine.registry.fields scope.kind,
      engine.Targets entity scope field.name →
      0 ≤ reading store scope field.name .usage + field.contribution scope engine.graph entity
        (if field.trackedAttribute? = some name then new.value - old.value else 0)) :
    Ensures StoreCall.Exact (engine.attributeChanged entity name old new) store
      fun result after => result = .ok ⟨⟩ → ∀ scope, ∀ field ∈ engine.registry.fields scope.kind,
        field.targets?.isSome → stored store scope field.name = true →
        reading after scope field.name .usage = reading store scope field.name .usage +
          field.contribution scope engine.graph entity
            (if field.trackedAttribute? = some name then new.value - old.value else 0) := by
  have change (field : Field) :
      ((TargetChange.attributeChanged name (new - old)).delta field entity engine.graph).value =
        if field.trackedAttribute? = some name then new.value - old.value else 0 := by
    unfold TargetChange.delta
    dsimp only
    split
    · exact exact
    · rfl
  unfold attributeChanged
  split
  · rename_i zero
    have same : new.value - old.value = 0 := by
      rw [← show (new - old).value = _ from exact, zero, Amount.value_zero]
    apply Action.ensures_pure
    intro _ scope field _ _ _
    rw [same, ite_self, Field.contribution_zero, add_zero]
  · have oneSign : (∀ registration ∈ engine.registry.registrations,
        0 ≤ ((TargetChange.attributeChanged name (new - old)).delta registration.field entity
          engine.graph).value) ∨
        ∀ registration ∈ engine.registry.registrations,
          ((TargetChange.attributeChanged name (new - old)).delta registration.field entity
            engine.graph).value ≤ 0 := by
      rcases le_total old.value new.value with rises | falls
      · left
        intro registration _
        rw [change]
        split <;> omega
      · right
        intro registration _
        rw [change]
        split <;> omega
    refine (ensures_applyTargetChange_adds shallow regular oneSign (prepared.adjustable (by simp))
      fun scope field registered targets => ?_).mono ?_
    · rw [change]
      exact enough scope field registered targets
    · intro result after adds isDone scope field registered targets present
      rw [adds isDone scope field registered (aggregator?_of_targets targets) present, change]

end Engine

end HierarchicalQuota
