import HierarchicalQuota.Proofs.Rollback

namespace HierarchicalQuota

open HierarchicalQuota.Action (Ensures)
open LawfulStore (lookup put drop list)

/-- Every event happens to one entity. -/
def EntityEvent.entity : EntityEvent → Entity
  | .created entity | .deleted entity | .attributeChanged entity _ _ _ => entity

variable {σ : Type} [QuotaStore σ]

namespace Engine

variable {engine : Engine}

/-- An entity targets the connected counters and totals at the ends of their paths. -/
def Targets (engine : Engine) (entity scope : Entity) (name : String) : Prop :=
  ∃ registration ∈ engine.registry.targeting entity.kind, ∃ kinds path,
    registration.field.targets? = some (kinds, path) ∧
    engine.graph.resolve entity path = some scope ∧ scope.kind = registration.kind ∧
    registration.field.isConnected scope engine.graph = true ∧ registration.field.name = name

/-- An event is refused for the limit of a targeted usage or for a scope of the wrong kind. -/
def Refuses (engine : Engine) (entity : Entity) (error : QuotaError) : Prop :=
  (∃ violation, error = .limitExceeded violation ∧
    engine.Targets entity violation.scope violation.name) ∨
  ∃ scope name kind, error = .scopeKindMismatch scope name kind

/-- Counters and totals are not summed from children. -/
theorem aggregator?_of_targets {field : Field} (targets : field.targets?.isSome) :
    field.aggregator? = none := by
  unfold Field.targets? at targets
  unfold Field.aggregator?
  cases isRule : field.rule <;> simp [isRule] at targets ⊢

/-- A field with targets is not summed. -/
theorem plain_of_targets {scope : Entity} {field : Field}
    (registered : field ∈ engine.registry.fields scope.kind) (targets : field.targets?.isSome) :
    engine.Plain scope field.name := plain_of_registered registered (aggregator?_of_targets targets)

/-- An event changes only connected fields that have targets. -/
theorem Targets.mem_fields {entity scope : Entity} {name : String}
    (targets : engine.Targets entity scope name) :
    ∃ field ∈ engine.registry.fields scope.kind, field.name = name ∧
      field.targets?.isSome ∧ field.isConnected scope engine.graph = true := by
  obtain ⟨registration, member, kinds, path, rule, -, sameKind, connected, sameName⟩ := targets
  have listed := Registry.mem_registrations_of_targeting member
  refine ⟨registration.field, ?_, sameName, Option.isSome_of_eq_some rule, connected⟩
  rw [Registry.fields, List.mem_map]
  exact ⟨registration, List.mem_filter.2 ⟨listed, decide_eq_true sameKind.symm⟩, rfl⟩

/-- A field that an event changes has targets. -/
theorem Targets.isSome_targets? {entity scope : Entity} {field : Field}
    (registered : field ∈ engine.registry.fields scope.kind)
    (targets : engine.Targets entity scope field.name) : field.targets?.isSome := by
  obtain ⟨other, otherRegistered, sameName, isTarget, -⟩ := targets.mem_fields
  obtain rfl := Registry.eq_of_name_eq otherRegistered registered sameName
  exact isTarget

/-- A field that an event changes is connected to its scope. -/
theorem Targets.connected {entity scope : Entity} {name : String}
    (targets : engine.Targets entity scope name) :
    ∃ field ∈ engine.registry.field? scope.kind name,
      field.isConnected scope engine.graph = true := by
  obtain ⟨field, registered, rfl, -, connected⟩ := targets.mem_fields
  exact ⟨field, Registry.field?_eq_some_iff.2 ⟨registered, rfl⟩, connected⟩

/-- An event changes no aggregate by its own requests. -/
theorem Targets.plain {entity scope : Entity} {name : String}
    (targets : engine.Targets entity scope name) : engine.Plain scope name := by
  obtain ⟨field, registered, rfl, isTarget, -⟩ := targets.mem_fields
  exact plain_of_targets registered isTarget

/-- The requests of an event are about its targets. -/
theorem targets_of_mem {entity : Entity} {change : TargetChange} {request : Change}
    (member : .ok request ∈ (engine.registry.targeting entity.kind).filterMap
      (engine.targetRequest? entity change)) :
    engine.Targets entity request.scope request.name := by
  obtain ⟨registration, listed, asks⟩ := List.mem_filterMap.1 member
  unfold targetRequest? at asks
  dsimp only at asks
  split at asks
  · cases asks
  obtain ⟨⟨kinds, path⟩, rule, asks⟩ := Option.bind_eq_some_iff.1 asks
  obtain ⟨scope, resolved, asks⟩ := Option.bind_eq_some_iff.1 asks
  split at asks
  · cases asks
  rename_i sameKind
  split at asks
  · rename_i connected
    obtain rfl := Except.ok.inj (Option.some.inj asks)
    exact ⟨registration, listed, kinds, path, rule, resolved, not_not.1 sameKind, connected, rfl⟩
  · cases asks

/-- A registration asks for a change of its own field, by what the event weighs for it. -/
theorem parts_of_targetRequest? {entity : Entity} {change : TargetChange}
    {registration : Registration} {request : Change}
    (asks : engine.targetRequest? entity change registration = some (.ok request)) :
    request.scope.kind = registration.kind ∧ request.name = registration.field.name ∧
      request.amount = change.delta registration.field entity engine.graph := by
  unfold targetRequest? at asks
  dsimp only at asks
  split at asks
  · cases asks
  obtain ⟨target, -, asks⟩ := Option.bind_eq_some_iff.1 asks
  obtain ⟨scope, -, asks⟩ := Option.bind_eq_some_iff.1 asks
  split at asks
  · cases asks
  rename_i sameKind
  split at asks
  · obtain rfl := Except.ok.inj (Option.some.inj asks)
    exact ⟨not_not.1 sameKind, rfl, rfl⟩
  · cases asks

/-- A request that is an error tells of a path that ends at a scope of another kind. -/
theorem mismatch_of_mem {entity : Entity} {change : TargetChange} {error : QuotaError}
    (member : .error error ∈ (engine.registry.targeting entity.kind).filterMap
      (engine.targetRequest? entity change)) :
    ∃ scope name kind, error = .scopeKindMismatch scope name kind := by
  obtain ⟨registration, -, asks⟩ := List.mem_filterMap.1 member
  unfold targetRequest? at asks
  dsimp only at asks
  split at asks
  · cases asks
  obtain ⟨target, -, asks⟩ := Option.bind_eq_some_iff.1 asks
  obtain ⟨scope, -, asks⟩ := Option.bind_eq_some_iff.1 asks
  split at asks
  · obtain rfl := Except.error.inj (Option.some.inj asks)
    exact ⟨scope, _, _, rfl⟩
  · split at asks <;> cases asks

variable [LawfulStore σ]

/-- Before an event, every targeted usage outside a new entity is stored and not negative, and all
aggregates above the entity and the targeted scopes are stored. A new entity has no records. -/
structure Prepared (engine : Engine) (event : EntityEvent) (store : σ) : Prop where
  unborn : event = .created event.entity → ∀ name, lookup store event.entity name = none
  covered : engine.Covered store event.entity
  targets : ∀ scope name, engine.Targets event.entity scope name →
    (event = .created event.entity → scope ≠ event.entity) →
    (∃ quota ∈ lookup store scope name, 0 ≤ quota.usage.value) ∧ engine.Covered store scope

/-- An action that fails for one of the known causes leaves the store as it was. -/
def AllOrNothing (engine : Engine) (entity : Entity) (before : σ) (result : Except QuotaError Unit)
    (after : σ) : Prop :=
  ∀ error, result = .error error → after = before ∧ engine.Refuses entity error

variable (shallow : engine.graph.Shallow)

include shallow

/-- A refused batch of requests is taken back, and it is refused for one of the known reasons. -/
theorem ensures_applyTargetChange {fresh : Option Entity} {entity : Entity}
    (change : TargetChange) {store : σ}
    (adjustable : engine.AllAdjustable fresh (engine.Targets entity) store) :
    Ensures StoreCall.Exact (engine.applyTargetChange entity change) store fun result after =>
      stored after = stored store ∧ ∀ error, result = .error error →
        engine.remainder fresh after = engine.remainder fresh store ∧
          engine.Refuses entity error := by
  unfold applyTargetChange
  refine (ensures_applyAll_undoable shallow (fun request member => targets_of_mem member)
    adjustable).mono ?_
  rintro result after ⟨sameStored, failed⟩
  refine ⟨sameStored, fun error isError => ?_⟩
  obtain ⟨same, cause⟩ := failed error isError
  exact ⟨same, cause.symm.imp_right mismatch_of_mem⟩

/-- Where no scope is fresh, the whole store is restored. -/
theorem ensures_applyTargetChange_allOrNothing {entity : Entity} (change : TargetChange) {store : σ}
    (adjustable : engine.AllAdjustable none (engine.Targets entity) store) :
    Ensures StoreCall.Exact (engine.applyTargetChange entity change) store fun result after =>
      stored after = stored store ∧ engine.AllOrNothing entity store result after := by
  refine (ensures_applyTargetChange shallow change adjustable).mono ?_
  rintro result after ⟨sameStored, failed⟩
  refine ⟨sameStored, fun error isError => ?_⟩
  obtain ⟨same, refuses⟩ := failed error isError
  exact ⟨eq_of_remainder same, refuses⟩

omit shallow in
/-- An initialization adds records of one scope together with their shares, and new records whose
usage is not summed start from the default usage. -/
structure Initializes (engine : Engine) (scope : Entity) (before after : σ) : Prop where
  same : engine.remainder (some scope) after = engine.remainder (some scope) before
  kept : ∀ other label, stored before other label = true → stored after other label = true
  begins : ∀ field ∈ engine.registry.fields scope.kind, field.aggregator? = none →
    ∀ quota, lookup after scope field.name = some quota →
      lookup before scope field.name = some quota ∨
        quota.usage = (field.initial scope engine.graph).usage

omit shallow in
/-- Doing nothing adds no record. -/
theorem Initializes.refl (scope : Entity) (store : σ) : engine.Initializes scope store store :=
  ⟨rfl, fun _ _ present => present, fun _ _ _ _ found => .inl found⟩

omit shallow in
/-- Two steps of an initialization make one. -/
theorem Initializes.trans {scope : Entity} {before middle after : σ}
    (first : engine.Initializes scope before middle)
    (second : engine.Initializes scope middle after) : engine.Initializes scope before after where
  same := second.same.trans first.same
  kept other label present := second.kept other label (first.kept other label present)
  begins field registered plain quota found := by
    rcases second.begins field registered plain quota found with earlier | begun
    · exact first.begins field registered plain quota earlier
    · exact .inr begun

/-- The creation of one missing record initializes a scope. -/
theorem ensures_ensure_initializes {scope : Entity} {field : Field}
    (registered : field ∈ engine.registry.fields scope.kind) {store : σ}
    (covered : engine.Covered store scope) (absent : lookup store scope field.name = none) :
    Ensures StoreCall.Exact (engine.ensure scope field) store fun result after =>
      (∃ quota, result = .ok quota) ∧ engine.Initializes scope store after ∧
        stored after scope field.name = true := by
  refine (ensures_ensure_covered shallow covered absent).mono ?_
  rintro _ after ⟨rfl, moved⟩
  have own : ∀ label, lookup after scope label =
      if field.name = label then some (engine.starting store scope field)
      else lookup store scope label := by
    intro label
    rw [moved.lookup_eq (share_eq_zero (not_reaches_self shallow scope label)),
      LawfulStore.lookup_put]
    simp only [true_and]
  refine ⟨⟨_, rfl⟩, ⟨?_, fun other label present => ?_, fun other member plain quota found => ?_⟩, ?_⟩
  · apply remainder_put shallow field.name (engine.starting store scope field)
    apply moved.congr
    intro other label _
    simp [absent]
  · rw [moved.stored_eq, stored, LawfulStore.lookup_put]
    split
    · rfl
    · exact present
  · rw [own] at found
    split at found
    · rename_i sameName
      obtain rfl := Registry.eq_of_name_eq registered member sameName
      obtain rfl := Option.some.inj found
      rw [starting_of_plain _ _ plain]
      exact .inr rfl
    · exact .inl found
  · rw [stored, own, if_pos rfl]
    rfl

/-- The initialization of a covered scope adds records of that scope only, with all their shares. -/
theorem ensures_initializeFields_covered {scope : Entity} (fields : List Field)
    (registered : ∀ field ∈ fields, field ∈ engine.registry.fields scope.kind) {store : σ}
    (covered : engine.Covered store scope) :
    Ensures StoreCall.Exact (engine.initializeFields scope fields) store fun result after =>
      (∃ count, result = .ok count) ∧ engine.Initializes scope store after ∧
        ∀ field ∈ fields, field.isConnected scope engine.graph = true →
          stored after scope field.name = true := by
  induction fields generalizing store with
  | nil => exact Action.ensures_pure ⟨⟨0, rfl⟩, .refl scope store, by simp⟩
  | cons field fields inductionHypothesis =>
      have others : ∀ other ∈ fields, other ∈ engine.registry.fields scope.kind :=
        fun other member => registered other (List.mem_cons_of_mem _ member)
      unfold initializeFields
      split
      · refine Action.ensures_bind (fun found => by cases found <;> infer_instance)
          (Action.ensures_access (Action.ensures_get ?_))
        cases found : lookup store scope field.name with
        | some quota =>
            refine (inductionHypothesis others covered).mono ?_
            rintro _ after ⟨counted, initializes, present⟩
            refine ⟨counted, initializes, fun other member connected => ?_⟩
            rcases List.mem_cons.1 member with rfl | later
            · exact initializes.kept _ _ (stored_of_lookup found)
            · exact present other later connected
        | none =>
            refine Action.ensures_bind (fun _ => inferInstance) (Action.ensures_discard
              ((ensures_ensure_initializes shallow (registered field List.mem_cons_self) covered
                found).mono ?_))
            rintro _ middle ⟨⟨quota, rfl⟩, first, own⟩
            refine Action.ensures_bind (fun _ => inferInstance)
              ((inductionHypothesis others (covered.mono first.kept)).mono ?_)
            rintro _ after ⟨⟨count, rfl⟩, rest, present⟩
            refine Action.ensures_pure ⟨⟨count + 1, rfl⟩, first.trans rest,
              fun other member connected => ?_⟩
            rcases List.mem_cons.1 member with rfl | later
            · exact rest.kept _ _ own
            · exact present other later connected
      · rename_i unconnected
        refine (inductionHypothesis others covered).mono ?_
        rintro _ after ⟨counted, initializes, present⟩
        refine ⟨counted, initializes, fun other member connected => ?_⟩
        rcases List.mem_cons.1 member with rfl | later
        · exact absurd connected unconnected
        · exact present other later connected

omit shallow in
/-- A scope without records has added nothing. -/
theorem remainder_of_unborn {scope : Entity} {store : σ}
    (unborn : ∀ name, lookup store scope name = none) :
    engine.remainder (some scope) store = engine.remainder none store := by
  have empty : list store scope = [] := by
    apply List.eq_nil_iff_forall_not_mem.2
    intro record member
    have found := (LawfulStore.mem_list.1 member).2
    rw [unborn] at found
    cases found
  funext other label
  rw [remainder_none, remainder]
  by_cases same : scope = other
  · subst same
    rw [if_pos rfl, unborn]
    rfl
  · rw [if_neg fun equal => same (Option.some.inj equal), shares, Option.elim_some, empty]
    simp

omit shallow in
/-- A scope that is removed with its shares leaves exactly the remainder. -/
theorem remainder_of_withdrawn {scope : Entity} {store after : σ}
    (moved : Moved (drop store scope) after fun other label =>
      -((list store scope).map fun record => engine.share record other label).sum) :
    engine.remainder none after = engine.remainder (some scope) store := by
  funext other label
  rw [remainder_none, remainder, moved other label, LawfulStore.lookup_drop]
  by_cases same : scope = other
  · rw [if_pos same, if_pos (congrArg some same)]
    rfl
  · rw [if_neg same, if_neg fun equal => same (Option.some.inj equal)]
    rfl

/-- The targeted usages can be adjusted once the records of the new scope are there. -/
theorem adjustable_of_initialized {entity : Entity} {before store : σ}
    (prepared : engine.Prepared (.created entity) before)
    (initializes : engine.Initializes entity before store)
    (initialized : ∀ field ∈ engine.registry.fields entity.kind,
      field.isConnected entity engine.graph = true → stored store entity field.name = true) :
    engine.AllAdjustable (some entity) (engine.Targets entity) store := by
  intro scope name targets
  by_cases isFresh : entity = scope
  · subst isFresh
    obtain ⟨field, registered, rfl, -, connected⟩ := targets.mem_fields
    obtain ⟨quota, found⟩ := lookup_of_stored (initialized field registered connected)
    refine ⟨targets.connected, targets.plain, ⟨quota, found, fun other => absurd rfl other⟩,
      prepared.covered.mono initializes.kept, fun aggregate above isFresh => ?_⟩
    exact shallow.not_above_self _ (Option.some.inj isFresh ▸ above.above)
  · have elsewhere : some entity ≠ some scope := fun equal => isFresh (Option.some.inj equal)
    obtain ⟨⟨quota, found, floor⟩, covered⟩ :=
      prepared.targets scope name targets fun _ equal => isFresh equal.symm
    have entry := congrFun (congrFun initializes.same scope) name
    rw [remainder_of_unreached elsewhere fun place _ => targets.plain.unreached place,
      remainder_of_unreached elsewhere fun place _ => targets.plain.unreached place, found] at entry
    obtain ⟨later, laterFound, equal⟩ := Option.map_eq_some_iff.1 entry
    have usage : later.usage.value = quota.usage.value := congrArg Prod.snd equal
    refine ⟨targets.connected, targets.plain, ⟨later, laterFound, fun _ => usage ▸ floor⟩,
      covered.mono initializes.kept, fun aggregate above isFresh => ?_⟩
    -- No aggregate of the new scope was stored before, so none of them stands above another target.
    have present := covered aggregate above
    have absent : lookup before entity aggregate.field.name = none := prepared.unborn rfl _
    rw [← Option.some.inj isFresh, stored, absent] at present
    cases present

omit shallow in
/-- An entity that is no scope does not target itself. -/
theorem adjustable_of_unscoped {entity : Entity} {store : σ}
    (prepared : engine.Prepared (.created entity) store)
    (unscoped : ¬ engine.registry.isScopeKind entity.kind = true) :
    engine.AllAdjustable none (engine.Targets entity) store := by
  intro scope name targets
  obtain ⟨field, registered, -⟩ := targets.mem_fields
  have elsewhere : scope ≠ entity := by
    rintro rfl
    exact unscoped (Registry.isScopeKind_of_mem_fields registered)
  obtain ⟨⟨quota, found, floor⟩, covered⟩ :=
    prepared.targets scope name targets fun _ => elsewhere
  exact ⟨targets.connected, targets.plain, ⟨quota, found, fun _ => floor⟩, covered, by simp⟩

/-- A creation that is refused leaves the store as it was. -/
theorem ensures_entityCreated {entity : Entity} {store : σ}
    (prepared : engine.Prepared (.created entity) store) :
    Ensures StoreCall.Exact (engine.entityCreated entity) store
      (engine.AllOrNothing entity store) := by
  by_cases isScope : engine.registry.isScopeKind entity.kind = true
  · refine ensures_entityCreated_of_steps isScope ((ensures_initializeFields_covered shallow
      (engine.registry.fields entity.kind) (fun _ member => member) prepared.covered).mono ?_)
    rintro _ middle ⟨⟨count, rfl⟩, initializes, initialized⟩
    refine (ensures_applyTargetChange shallow .created
      (adjustable_of_initialized shallow prepared initializes initialized)).mono ?_
    rintro (error | done) later ⟨sameStored, failed⟩
    · obtain ⟨sameLater, refuses⟩ := failed error rfl
      have covered : engine.Covered later entity :=
        prepared.covered.mono fun other label present => by
          rw [sameStored]
          exact initializes.kept other label present
      refine (ensures_childDeleted_covered shallow covered).mono ?_
      rintro _ after ⟨rfl, moved⟩ _ ⟨⟩
      have restored : engine.remainder none after = engine.remainder none store := calc
        engine.remainder none after
        _ = engine.remainder (some entity) later := remainder_of_withdrawn moved
        _ = engine.remainder (some entity) middle := sameLater
        _ = engine.remainder (some entity) store := initializes.same
        _ = engine.remainder none store := remainder_of_unborn (prepared.unborn rfl)
      exact ⟨eq_of_remainder restored, refuses⟩
    · rintro error ⟨⟩
  · exact ensures_entityCreated_of_not_isScope isScope
      ((ensures_applyTargetChange_allOrNothing shallow .created
        (adjustable_of_unscoped prepared isScope)).mono fun _ _ kept => kept.2)

omit shallow in
/-- The targeted usages of an entity that exists can be adjusted as they are. -/
theorem Prepared.adjustable {event : EntityEvent} {store : σ}
    (prepared : engine.Prepared event store) (existing : event ≠ .created event.entity) :
    engine.AllAdjustable none (engine.Targets event.entity) store := by
  intro scope name targets
  obtain ⟨⟨quota, found, floor⟩, covered⟩ :=
    prepared.targets scope name targets fun creation => absurd creation existing
  exact ⟨targets.connected, targets.plain, ⟨quota, found, fun _ => floor⟩, covered, by simp⟩

/-- A deletion is refused before any record is removed. -/
theorem ensures_entityDeleted {entity : Entity} {store : σ}
    (prepared : engine.Prepared (.deleted entity) store) :
    Ensures StoreCall.Exact (engine.entityDeleted entity) store
      (engine.AllOrNothing entity store) := by
  unfold entityDeleted
  refine Action.ensures_bind (fun _ => inferInstance) ((ensures_applyTargetChange_allOrNothing
    shallow .deleted (prepared.adjustable (by simp))).mono ?_)
  rintro (error | done) middle ⟨sameStored, failed⟩
  · exact failed
  dsimp only
  split
  · have covered : engine.Covered middle entity :=
      prepared.covered.mono fun other label present => by rwa [sameStored]
    refine (ensures_childDeleted_covered shallow covered).mono ?_
    rintro _ after ⟨rfl, -⟩ error ⟨⟩
  · apply Action.ensures_pure
    rintro error ⟨⟩

/-- A changed attribute is applied to all totals that track it, or to none. -/
theorem ensures_attributeChanged {entity : Entity} {name : String} {old new : Amount} {store : σ}
    (prepared : engine.Prepared (.attributeChanged entity name old new) store) :
    Ensures StoreCall.Exact (engine.attributeChanged entity name old new) store
      (engine.AllOrNothing entity store) := by
  unfold attributeChanged
  split
  · apply Action.ensures_pure
    rintro error ⟨⟩
  · refine (ensures_applyTargetChange_allOrNothing shallow _
      (prepared.adjustable (by simp))).mono ?_
    exact fun _ _ kept => kept.2

/-- Each kind of event is handled as a whole or not at all. -/
theorem ensures_handle {event : EntityEvent} {store : σ} (prepared : engine.Prepared event store) :
    Ensures StoreCall.Exact (engine.handle event) store
      (engine.AllOrNothing event.entity store) := by
  cases event with
  | created entity => exact ensures_entityCreated shallow prepared
  | deleted entity => exact ensures_entityDeleted shallow prepared
  | attributeChanged entity name old new => exact ensures_attributeChanged shallow prepared

/-- An event is handled as a whole or not at all. If a prepared event is refused, whatever the cause,
the store is exactly the one before, as long as no number is cut off. -/
theorem handle_allOrNothing (event : EntityEvent) (store : σ)
    (prepared : engine.Prepared event store)
    (exact : RecordedStore.AllFit StoreCall.Exact (Action.history (engine.handle event) store))
    (error : QuotaError) (failed : Action.outcome (engine.handle event) store = .error error) :
    Action.after (engine.handle event) store = store ∧ engine.Refuses event.entity error := by
  have ensures := ensures_handle shallow prepared
  exact ensures.of_allFit (RecordedStore.answersAlike.handle engine event) exact error failed

end Engine

section Sample

/-- An organization counts its teams and admits none. -/
def teamCounter : Field where
  name := "teams"
  rule := .counter { targets := ["team"], path := sampleToOrganization }
  defaultLimit := .constant 0

/-- The limits of the teams are summed, too, so a new team reaches the sum before it is refused. -/
def closedRegistry (limit : Amount) : Registry where
  registrations :=
    [⟨"organization", sampleSum "storage" .limit⟩, ⟨"organization", teamCounter⟩,
      ⟨"team", { name := "storage", defaultLimit := .constant limit }⟩]
  distinct := by
    change [("organization", "storage"), ("organization", "teams"), ("team", "storage")].Nodup
    decide

/-- The closed registry is used with the sample graph. -/
def closedEngine (limit : Amount) : Engine := ⟨closedRegistry limit, sampleGraph⟩

def closedStore : MemoryStore :=
  (MemoryStore.empty.put sampleOrganization "storage" ⟨.unlimited, 0⟩).put sampleOrganization
    "teams" ⟨0, 0⟩

/-- Nothing stands above the organization. -/
theorem covered_sampleOrganization (limit : Amount) :
    (closedEngine limit).Covered closedStore sampleOrganization := by
  have root : sampleGraph.quotaParents sampleOrganization = [] := by decide +kernel
  apply Engine.covered_of_parents
  intro parent member
  cases root ▸ member

/-- The organization above the team has all its records. -/
theorem covered_sampleTeam (limit : Amount) :
    (closedEngine limit).Covered closedStore sampleTeam := by
  have above : sampleGraph.quotaParents sampleTeam = [sampleOrganization] := by decide +kernel
  apply Engine.covered_of_parents
  intro parent member
  obtain rfl := List.mem_singleton.1 (above ▸ member)
  refine ⟨covered_sampleOrganization limit, fun field registered sums _ => ?_⟩
  have fields : (closedRegistry limit).fields sampleOrganization.kind =
      [sampleSum "storage" .limit, teamCounter] := rfl
  rcases List.mem_cons.1 (fields ▸ registered) with rfl | other
  · decide +kernel
  · obtain rfl := List.mem_singleton.1 other
    cases sums

/-- The store is prepared for the creation of the team, which has no records yet. -/
theorem prepared_closedStore (limit : Amount) :
    (closedEngine limit).Prepared (.created sampleTeam) closedStore where
  unborn _ name := by
    change MemoryStore.lookup _ _ _ = _
    have elsewhere : sampleOrganization ≠ sampleTeam := by decide
    simp [closedStore, MemoryStore.lookup_put, elsewhere, EntityEvent.entity]
  covered := covered_sampleTeam limit
  targets scope name targets elsewhere := by
    obtain ⟨registration, member, kinds, path, rule, resolved, -, -, rfl⟩ := targets
    have targeting : (closedRegistry limit).targeting sampleTeam.kind =
        [⟨"organization", teamCounter⟩] := rfl
    obtain rfl := List.mem_singleton.1 (targeting ▸ member)
    obtain ⟨rfl, rfl⟩ := Prod.mk.inj (Option.some.inj rule)
    have owner : sampleGraph.resolve sampleTeam sampleToOrganization =
        some sampleOrganization := by decide +kernel
    obtain rfl := Option.some.inj (owner.symm.trans resolved)
    exact ⟨⟨⟨0, 0⟩, by decide +kernel, by decide⟩, covered_sampleOrganization limit⟩

/-- The limit of the new team is summed, and the refusal takes it back. -/
theorem handle_allOrNothing_sample :
    Action.outcome ((closedEngine 10).handle (.created sampleTeam)) closedStore =
        .error (.limitExceeded ⟨sampleOrganization, "teams", 0, 1⟩) ∧
      Action.after ((closedEngine 10).handle (.created sampleTeam)) closedStore = closedStore := by
  have refused : Action.outcome ((closedEngine 10).handle (.created sampleTeam)) closedStore =
      .error (.limitExceeded ⟨sampleOrganization, "teams", 0, 1⟩) := by decide +kernel
  exact ⟨refused, (Engine.handle_allOrNothing shallow_sampleGraph (.created sampleTeam) closedStore
    (prepared_closedStore 10) (by decide +kernel) _ refused).1⟩

/-- A call adds exactly if the sum that the store forms is not cut off. -/
def StoreCall.AddsExactly [LawfulStore σ] (call : StoreCall) (store : σ) : Prop :=
  match call with
  | .addUsage scope name delta _ | .shiftUsage scope name delta =>
      ∀ quota ∈ lookup store scope name, quota.usage.AddsExactly delta
  | .get .. | .getOrCreate .. | .setLimit .. | .setUsage .. | .listScope .. | .deleteScope .. =>
      True

/-- A call adds exactly if the stored usage and the difference do. -/
instance [LawfulStore σ] : (call : StoreCall) → (store : σ) → Decidable (call.AddsExactly store)
  | .addUsage scope name delta _, store | .shiftUsage scope name delta, store =>
      inferInstanceAs (Decidable (∀ quota ∈ lookup store scope name,
        quota.usage.AddsExactly delta))
  | .get .., _ | .getOrCreate .., _ | .setLimit .., _ | .setUsage .., _ | .listScope .., _
  | .deleteScope .., _ => isTrue trivial

/-- Exact sums alone are not enough. The least amount has no negative, so a limit of that amount is
not taken back completely although every sum is exact. -/
theorem handle_not_allOrNothing :
    ¬ ∀ (engine : Engine) (event : EntityEvent) (store : MemoryStore), engine.graph.Shallow →
      engine.Prepared event store →
      RecordedStore.AllFit StoreCall.AddsExactly (Action.history (engine.handle event) store) →
      ∀ error, Action.outcome (engine.handle event) store = .error error →
        Action.after (engine.handle event) store = store := by
  intro claimed
  let least := Amount.clamp (-9223372036854775808)
  have restored := claimed (closedEngine least) (.created sampleTeam) closedStore
    shallow_sampleGraph (prepared_closedStore least) (by decide +kernel)
    (.limitExceeded ⟨sampleOrganization, "teams", 0, 1⟩) (by decide +kernel)
  have changed : (Action.after ((closedEngine least).handle (.created sampleTeam))
      closedStore).lookup sampleOrganization "storage" = some ⟨.unlimited, .unlimited⟩ := by
    decide +kernel
  rw [restored] at changed
  revert changed
  decide +kernel

end Sample

end HierarchicalQuota
