import HierarchicalQuota.Proofs.Creation
import HierarchicalQuota.Proofs.Rules

namespace HierarchicalQuota

open HierarchicalQuota.Action (Ensures Yields)
open LawfulStore (lookup put drop list)

variable {σ : Type} [QuotaStore σ] [LawfulStore σ]

namespace Engine

/-- A change meets the aggregates right above the quotas from which it can spread. -/
def Meets (engine : Engine) (active : Entity → String → Prop) (aggregate : Aggregate) : Prop :=
  ∃ child quota measure, active child quota ∧ aggregate ∈ engine.aggregatesOver child quota measure

/-- What a change meets are aggregates of the engine. -/
theorem Meets.hasAggregate {engine : Engine} {active : Entity → String → Prop}
    {aggregate : Aggregate}
    (meets : engine.Meets active aggregate) : engine.HasAggregate aggregate := by
  obtain ⟨child, quota, measure, -, listed⟩ := meets
  exact (aggregateAbove_of_mem listed).toHasAggregate

/-- What spreads from a scope meets only aggregates above it. -/
theorem Meets.aggregateAbove {engine : Engine} {place : Entity} {aggregate : Aggregate}
    (meets : engine.Meets (fun child _ => child = place ∨ engine.graph.Above place child)
      aggregate) :
    engine.AggregateAbove place aggregate := by
  obtain ⟨child, quota, measure, below, listed⟩ := meets
  have above := aggregateAbove_of_mem listed
  rcases below with rfl | higher
  · exact above
  · exact .trans higher above

/-- A statement is kept from some active quotas on if every shift and every creation of an aggregate
that is met keeps it. The aggregates that have changed or are new must be active, too. -/
structure Spreads (engine : Engine) (fit : StoreCall → σ → Prop) (active : Entity → String → Prop)
    (kept : σ → Prop) : Prop where
  shift {aggregate : Aggregate} {quota : Quota} {delta : Amount} {store : σ} :
    engine.Meets active aggregate → kept store →
    lookup store aggregate.scope aggregate.field.name = some quota →
    fit (.shiftUsage aggregate.scope aggregate.field.name delta) store →
    kept (put store aggregate.scope aggregate.field.name
        { quota with usage := quota.usage + delta }) ∧
      (quota.usage + delta - quota.usage ≠ 0 → active aggregate.scope aggregate.field.name)
  create {aggregate : Aggregate} {store : σ} :
    engine.Meets active aggregate → kept store →
    lookup store aggregate.scope aggregate.field.name = none →
    fit (.getOrCreate aggregate.scope aggregate.field.name
      (engine.starting store aggregate.scope aggregate.field)) store →
    kept (put store aggregate.scope aggregate.field.name
        (engine.starting store aggregate.scope aggregate.field)) ∧
      active aggregate.scope aggregate.field.name

variable {engine : Engine} {fit : StoreCall → σ → Prop} {active : Entity → String → Prop}
  {kept : σ → Prop}

section Available

/-- A quota is available if its field is registered and connected. -/
def Available (engine : Engine) (scope : Entity) (name : String) : Prop :=
  ∃ field ∈ engine.registry.field? scope.kind name, field.isConnected scope engine.graph = true

omit [LawfulStore σ] in
/-- A quota that is not available is refused, and not for its hierarchy. -/
theorem ensures_getOrCreate_refused {scope : Entity} {name : String}
    (unavailable : ¬ engine.Available scope name) {store : σ} :
    Ensures fit (engine.getOrCreate scope name) store fun result after =>
      after = store ∧ ∃ error, result = .error error ∧
        ∀ deep, error ≠ .hierarchyTooDeep deep := by
  unfold getOrCreate
  refine Action.ensures_bind (fun _ => inferInstance) (Action.ensures_ofExcept ?_)
  cases found : engine.registry.field? scope.kind name with
  | none =>
      rw [field, Registry.field, found]
      exact ⟨rfl, _, rfl, by rintro _ ⟨⟩⟩
  | some field =>
      rw [Engine.field, Registry.field, found]
      dsimp only
      rw [if_neg fun connected => unavailable ⟨field, found, connected⟩]
      exact Action.ensures_throw ⟨rfl, _, rfl, by rintro _ ⟨⟩⟩

omit [LawfulStore σ] in
/-- A quota that is not available is neither read nor created. -/
theorem ensures_getOrCreate_unavailable {scope : Entity} {name : String}
    (unavailable : ¬ engine.Available scope name) {store : σ} :
    Ensures fit (engine.getOrCreate scope name) store fun result after =>
      after = store ∧ ∃ error, result = .error error := by
  refine (ensures_getOrCreate_refused unavailable).mono ?_
  rintro _ after ⟨same, error, failed, -⟩
  exact ⟨same, error, failed⟩

omit [LawfulStore σ] in
/-- A change of a quota that is not available fails, unless it is zero. -/
theorem ensures_applyDelta_unavailable {scope : Entity} {name : String}
    (unavailable : ¬ engine.Available scope name) (delta : Amount) (validate : Bool) {store : σ} :
    Ensures fit (engine.applyDelta scope name delta validate) store fun result after =>
      after = store ∧ ∀ amount, result = .ok amount → amount = 0 := by
  refine ensures_applyDelta_of_steps (fun _ => ⟨rfl, ?_⟩) fun _ =>
    (ensures_getOrCreate_unavailable unavailable).mono ?_
  · rintro _ ⟨⟩
    rfl
  · rintro _ after ⟨rfl, error, rfl⟩
    exact ⟨rfl, by rintro _ ⟨⟩⟩

end Available

section Rules

variable (spreads : engine.Spreads fit active kept)

include spreads

/-- All stored aggregates of a list are shifted, and the others are reported. -/
theorem ensures_shiftAll_kept (delta : Amount) (aggregates : List Aggregate)
    (met : ∀ aggregate ∈ aggregates, engine.Meets active aggregate) {store : σ}
    (keeps : kept store) :
    Ensures fit (shiftAll delta aggregates) store fun result after => kept after ∧
      ∃ wave, result = .ok wave ∧
        (∀ shifted ∈ wave.moved, shifted.1 ∈ aggregates ∧
          (shifted.2 ≠ 0 → active shifted.1.scope shifted.1.field.name)) ∧
        wave.missing ⊆ aggregates := by
  induction aggregates generalizing store with
  | nil => exact Action.ensures_pure ⟨keeps, _, rfl, by simp, by simp⟩
  | cons aggregate rest inductionHypothesis =>
      have others : ∀ other ∈ rest, engine.Meets active other :=
        fun other member => met other (List.mem_cons_of_mem _ member)
      unfold shiftAll
      refine Action.ensures_bind (fun result => ?_) (Action.ensures_attempt
        (Action.ensures_shiftUsage (fun quota found fits => ?_) fun _ => ?_))
      · rcases result with (_ | _ | _ | _) | (_ | _) <;> infer_instance
      · obtain ⟨shifts, activates⟩ :=
          spreads.shift (met aggregate List.mem_cons_self) keeps found fits
        refine Action.ensures_bind (fun _ => inferInstance)
          ((inductionHypothesis others shifts).mono ?_)
        rintro _ after ⟨keepsAfter, wave, rfl, moved, missing⟩
        refine Action.ensures_pure ⟨keepsAfter, _, rfl, fun shifted member => ?_,
          List.subset_cons_of_subset _ missing⟩
        rcases List.mem_cons.1 member with rfl | later
        · exact ⟨List.mem_cons_self, activates⟩
        · exact ⟨List.mem_cons_of_mem _ (moved shifted later).1, (moved shifted later).2⟩
      · refine Action.ensures_bind (fun _ => inferInstance)
          ((inductionHypothesis others keeps).mono ?_)
        rintro _ after ⟨keepsAfter, wave, rfl, moved, missing⟩
        exact Action.ensures_pure ⟨keepsAfter, _, rfl,
          fun shifted member => ⟨List.mem_cons_of_mem _ (moved shifted member).1,
            (moved shifted member).2⟩,
          List.cons_subset_cons _ missing⟩

/-- A change spreads level by level, and the induction is on the levels that are left. -/
theorem ensures_propagate_kept (levels : Nat) (child : Entity) (quota : String)
    (measure : Measure) (delta : Amount) (begins : delta ≠ 0 → active child quota) {store : σ}
    (keeps : kept store) :
    Ensures fit (engine.propagate levels child quota measure delta) store
      fun result after => kept after ∧
        Yields (fun missing => ∀ aggregate ∈ missing, engine.Meets active aggregate)
          (engine.graph.Climbs levels child) result := by
  induction levels generalizing child quota measure delta store with
  | zero =>
      unfold propagate
      split
      · exact Action.ensures_pure ⟨keeps, fun _ member => by cases member⟩
      · exact Action.ensures_throw ⟨keeps, trivial⟩
  | succ levels inductionHypothesis =>
      unfold propagate
      split
      · exact Action.ensures_pure ⟨keeps, fun _ member => by cases member⟩
      rename_i nonzero
      have met : ∀ aggregate ∈ engine.aggregatesOver child quota measure,
          engine.Meets active aggregate :=
        fun aggregate member => ⟨child, quota, measure, begins nonzero, member⟩
      refine Action.ensures_bind (fun _ => inferInstance)
        ((ensures_shiftAll_kept spreads delta _ met keeps).mono ?_)
      rintro _ middle ⟨keepsMiddle, wave, rfl, moved, missing⟩
      -- Whatever has moved is active, so it may pass its own change on.
      have passedOn : Ensures fit (Action.collect (fun entry =>
          engine.propagate levels entry.1.scope entry.1.field.name .usage entry.2)
            wave.moved.reverse) middle fun result after => kept after ∧
          Yields (fun missing => ∀ aggregate ∈ missing, engine.Meets active aggregate)
            (engine.graph.Climbs (levels + 1) child) result := by
        refine Action.ensures_collect_yields ?_ keepsMiddle
        rintro ⟨aggregate, change⟩ member store keepsStore
        obtain ⟨listed, activates⟩ := moved _ (List.mem_reverse.1 member)
        refine (inductionHypothesis aggregate.scope aggregate.field.name .usage change activates
          keepsStore).mono ?_
        rintro (error | found) after ⟨keepsAfter, yields⟩
        · exact ⟨keepsAfter, aggregate.scope, (mem_aggregatesOver.1 listed).1, yields⟩
        · exact ⟨keepsAfter, yields⟩
      refine Action.ensures_bind (fun _ => inferInstance) (passedOn.mono ?_)
      rintro (error | found) after ⟨keepsAfter, yields⟩
      · exact ⟨keepsAfter, yields⟩
      · refine Action.ensures_pure ⟨keepsAfter, fun aggregate member => ?_⟩
        rcases List.mem_append.1 member with first | later
        · exact met aggregate (missing first)
        · exact yields aggregate later

/-- A change that spreads keeps the statement, and it can only fail in a hierarchy that is not
shallow. -/
theorem ensures_spread_kept {child : Entity} {quota : String} (measure : Measure) {delta : Amount}
    (begins : delta ≠ 0 → active child quota) {store : σ} (keeps : kept store) :
    Ensures fit (engine.spread child quota measure delta) store
      fun result after => kept after ∧
        Yields (fun missing => ∀ aggregate ∈ missing, engine.Meets active aggregate)
          (¬ engine.graph.Shallow) result := by
  refine (ensures_propagate_kept spreads maxHierarchyDepth child quota measure delta begins
    keeps).mono ?_
  rintro (error | missing) after ⟨keepsAfter, yields⟩
  · exact ⟨keepsAfter, fun shallow => shallow child yields⟩
  · exact ⟨keepsAfter, yields⟩

/-- An announcement finds only aggregates that are met. -/
theorem ensures_announce_kept {child : Entity} {name : String} (begins : active child name)
    (quota : Quota) {store : σ} (keeps : kept store) :
    Ensures fit (engine.announce child name quota) store fun result after => kept after ∧
      Yields (fun missing => ∀ aggregate ∈ missing, engine.Meets active aggregate)
        (¬ engine.graph.Shallow) result := by
  refine Action.ensures_bind (fun _ => inferInstance)
    ((ensures_spread_kept spreads .usage (fun _ => begins) keeps).mono ?_)
  rintro (error | usageMissing) middle ⟨keepsMiddle, usageMet⟩
  · exact ⟨keepsMiddle, usageMet⟩
  refine Action.ensures_bind (fun _ => inferInstance)
    ((ensures_spread_kept spreads .limit (fun _ => begins) keepsMiddle).mono ?_)
  rintro (error | limitMissing) after ⟨keepsAfter, limitMet⟩
  · exact ⟨keepsAfter, limitMet⟩
  · exact Action.ensures_pure ⟨keepsAfter, fun aggregate member =>
      (List.mem_append.1 member).elim (usageMet aggregate) (limitMet aggregate)⟩

omit [LawfulStore σ] spreads in
/-- A list of missing aggregates is created one by one, each with the same budget. -/
theorem ensures_forM_create_kept {budget : Nat}
    (each : ∀ (target : Aggregate) (store : σ), engine.Meets active target → kept store →
      Ensures fit (engine.create budget target) store fun result after => kept after ∧
        ∀ error, result = .error error → ¬ engine.graph.Shallow)
    {missing : List Aggregate} (met : ∀ aggregate ∈ missing, engine.Meets active aggregate)
    {store : σ} (keeps : kept store) :
    Ensures fit (missing.forM fun aggregate => discard (engine.create budget aggregate)) store
      fun result after => kept after ∧ Yields (fun _ => True) (¬ engine.graph.Shallow) result := by
  refine Action.ensures_forM_yields (fun aggregate member store keepsStore => ?_) keeps
  refine Action.ensures_discard ((each aggregate store (met aggregate member) keepsStore).mono ?_)
  rintro (error | quota) after ⟨keepsAfter, fails⟩
  · exact ⟨keepsAfter, fails error rfl⟩
  · exact ⟨keepsAfter, trivial⟩

/-- A record is created where there is none, and the aggregates found missing are created in turn,
for as long as the budget lasts. -/
theorem ensures_create_kept (budget : Nat) (target : Aggregate) {store : σ}
    (present : ∀ quota, lookup store target.scope target.field.name = some quota → kept store)
    (absent : lookup store target.scope target.field.name = none →
      fit (.getOrCreate target.scope target.field.name
        (engine.starting store target.scope target.field)) store →
      kept (put store target.scope target.field.name
          (engine.starting store target.scope target.field)) ∧
        active target.scope target.field.name) :
    Ensures fit (engine.create budget target) store fun result after => kept after ∧
      Yields (fun quota => quota = (lookup store target.scope target.field.name).getD
          (engine.starting store target.scope target.field))
        (¬ engine.graph.Shallow) result := by
  cases found : lookup store target.scope target.field.name with
  | some quota => exact ensures_create_stored budget found ⟨present quota found, rfl⟩
  | none =>
      refine ensures_create_of_announce budget target found fun fits => ?_
      obtain ⟨keeps, begins⟩ := absent found fits
      cases budget with
      | zero => exact ⟨keeps, rfl⟩
      | succ budget =>
          refine (ensures_announce_kept spreads begins _ keeps).mono ?_
          rintro (error | missing) middle ⟨keepsMiddle, met⟩
          · exact ⟨keepsMiddle, met⟩
          refine (ensures_forM_create_kept (fun aggregate store meets keepsStore =>
            (ensures_create_kept budget aggregate (fun _ _ => keepsStore)
              (spreads.create meets keepsStore)).mono ?_) met keepsMiddle).mono ?_
          · rintro (error | quota) after ⟨keepsAfter, yields⟩
            · exact ⟨keepsAfter, fun _ _ => yields⟩
            · exact ⟨keepsAfter, by rintro _ ⟨⟩⟩
          · rintro (error | done) after ⟨keepsAfter, yields⟩
            · exact ⟨keepsAfter, yields⟩
            · exact ⟨keepsAfter, rfl⟩

/-- The aggregates that were found missing are created one after the other, and each creation keeps
the statement. -/
theorem ensures_createMissing_kept {missing : List Aggregate}
    (met : ∀ aggregate ∈ missing, engine.Meets active aggregate) {store : σ} (keeps : kept store) :
    Ensures fit (engine.createMissing missing) store fun result after => kept after ∧
      Yields (fun _ => True) (¬ engine.graph.Shallow) result := by
  refine ensures_forM_create_kept (fun target store meets keepsStore =>
    (ensures_create_kept spreads _ target (fun _ _ => keepsStore)
      (spreads.create meets keepsStore)).mono ?_) met keeps
  rintro (error | quota) after ⟨keepsAfter, yields⟩
  · exact ⟨keepsAfter, fun _ _ => yields⟩
  · exact ⟨keepsAfter, by rintro _ ⟨⟩⟩

/-- A record that is there needs nothing, and a new one is announced upwards. -/
theorem ensures_ensure_kept (scope : Entity) (field : Field) {store : σ}
    (present : ∀ quota, lookup store scope field.name = some quota → kept store)
    (absent : lookup store scope field.name = none →
      fit (.getOrCreate scope field.name (engine.starting store scope field)) store →
      kept (put store scope field.name (engine.starting store scope field)) ∧
        active scope field.name) :
    Ensures fit (engine.ensure scope field) store fun result after => kept after ∧
      Yields (fun quota => quota = (lookup store scope field.name).getD
        (engine.starting store scope field)) (¬ engine.graph.Shallow) result := by
  refine ensures_ensure_of_steps (fun quota found => ⟨present quota found, ?_⟩) fun _ =>
    ensures_create_kept spreads engine.creationBudget ⟨scope, field⟩ present absent
  rw [found]
  rfl

/-- An available quota is read or created. -/
theorem ensures_getOrCreate_kept {scope : Entity} {field : Field}
    (registered : field ∈ engine.registry.fields scope.kind)
    (connected : field.isConnected scope engine.graph = true) {store : σ}
    (present : ∀ quota, lookup store scope field.name = some quota → kept store)
    (absent : lookup store scope field.name = none →
      fit (.getOrCreate scope field.name (engine.starting store scope field)) store →
      kept (put store scope field.name (engine.starting store scope field)) ∧
        active scope field.name) :
    Ensures fit (engine.getOrCreate scope field.name) store fun result after => kept after ∧
      Yields (fun quota => quota = (lookup store scope field.name).getD
        (engine.starting store scope field)) (¬ engine.graph.Shallow) result :=
  ensures_getOrCreate_of_ensure registered connected
    (ensures_ensure_kept spreads scope field present absent)

/-- A change keeps the statement with all that it spreads to and creates. -/
theorem ensures_childChanged_kept {child : Entity} {name : String} (measure : Measure)
    {old new : Amount} (begins : new - old ≠ 0 → active child name) {store : σ} (keeps : kept store) :
    Ensures fit (engine.childChanged child name measure old new) store fun result after =>
      kept after ∧ Yields (fun _ => True) (¬ engine.graph.Shallow) result := by
  unfold childChanged
  refine Action.ensures_bind (fun _ => inferInstance)
    ((ensures_spread_kept spreads measure begins keeps).mono ?_)
  rintro (error | missing) middle ⟨keepsMiddle, yields⟩
  · exact ⟨keepsMiddle, yields⟩
  · exact ensures_createMissing_kept spreads yields keepsMiddle

/-- The records of a scope are dropped first, and then their numbers are taken back. -/
theorem ensures_childDeleted_kept {scope : Entity} (begins : ∀ name, active scope name) {store : σ}
    (dropped : fit (.deleteScope scope) store → kept (drop store scope)) :
    Ensures fit (engine.childDeleted scope) store fun result after => kept after ∧
      Yields (fun _ => True) (¬ engine.graph.Shallow) result := by
  unfold childDeleted
  refine Action.ensures_bind (fun _ => inferInstance) (Action.ensures_access
    (Action.ensures_deleteScope fun fits => ?_))
  have withdrawn : Ensures fit (Action.collect (engine.withdraw scope) (list store scope))
      (drop store scope) fun result after => kept after ∧
        Yields (fun missing => ∀ aggregate ∈ missing, engine.Meets active aggregate)
          (¬ engine.graph.Shallow) result := by
    refine Action.ensures_collect_yields (fun record _ middle keepsMiddle => ?_) (dropped fits)
    exact ensures_announce_kept spreads (begins record.name)
      ⟨-record.quota.limit, -record.quota.usage⟩ keepsMiddle
  refine Action.ensures_bind (fun _ => inferInstance) (withdrawn.mono ?_)
  rintro (error | missing) middle ⟨keepsMiddle, yields⟩
  · exact ⟨keepsMiddle, yields⟩
  · exact ensures_createMissing_kept spreads yields keepsMiddle

section Writes

variable {scope : Entity} {name : String} (begins : engine.Available scope name → active scope name)
  (writes : ∀ store quota, kept store → kept (put store scope name quota))

include begins writes

/-- A quota is read or created before it is written. -/
theorem ensures_getOrCreate_written {store : σ} (keeps : kept store) :
    Ensures fit (engine.getOrCreate scope name) store fun result after => kept after ∧
      ∀ quota, result = .ok quota → active scope name := by
  by_cases available : engine.Available scope name
  · obtain ⟨field, known, connected⟩ := id available
    obtain ⟨registered, rfl⟩ := Registry.field?_eq_some_iff.1 known
    refine (ensures_getOrCreate_kept spreads registered connected (fun _ _ => keeps)
      fun _ _ => ⟨writes store _ keeps, begins available⟩).mono ?_
    exact fun _ _ kept => ⟨kept.1, fun _ _ => begins available⟩
  · refine (ensures_getOrCreate_unavailable available).mono ?_
    rintro _ after ⟨rfl, error, rfl⟩
    exact ⟨keeps, by rintro _ ⟨⟩⟩

/-- A limit keeps the statement if its own write does. -/
theorem ensures_setLimit_kept (limit : Amount) {store : σ} (keeps : kept store) :
    Ensures fit (engine.setLimit scope name limit) store fun _ after => kept after := by
  unfold setLimit
  refine Action.ensures_bind (fun _ => inferInstance) (Action.ensures_discard
    ((ensures_getOrCreate_written spreads begins writes keeps).mono ?_))
  rintro (error | quota) middle ⟨keepsMiddle, activates⟩
  · exact keepsMiddle
  have changed : ∀ old new quota, Ensures fit (engine.childChanged scope name .limit old new)
      (put middle scope name quota) fun _ after => kept after := fun old new quota =>
    (ensures_childChanged_kept spreads .limit (fun _ => activates _ rfl)
      (writes middle quota keepsMiddle)).mono fun _ _ kept => kept.1
  exact Action.ensures_bind (fun _ => inferInstance) (Action.ensures_access
    (Action.ensures_setLimit (fun _ _ _ => changed _ _ _) fun _ => changed _ _ _))

/-- A usage keeps the statement if its own write does. -/
theorem ensures_setUsage_kept (usage : Amount) {store : σ} (keeps : kept store) :
    Ensures fit (engine.setUsage scope name usage) store fun _ after => kept after := by
  unfold setUsage
  refine Action.ensures_bind (fun _ => inferInstance) (Action.ensures_discard
    ((ensures_getOrCreate_written spreads begins writes keeps).mono ?_))
  rintro (error | quota) middle ⟨keepsMiddle, activates⟩
  · exact keepsMiddle
  have changed : ∀ old new quota, Ensures fit (engine.childChanged scope name .usage old new)
      (put middle scope name quota) fun _ after => kept after := fun old new quota =>
    (ensures_childChanged_kept spreads .usage (fun _ => activates _ rfl)
      (writes middle quota keepsMiddle)).mono fun _ _ kept => kept.1
  exact Action.ensures_bind (fun _ => inferInstance) (Action.ensures_access
    (Action.ensures_setUsage (fun _ _ _ => changed _ _ _) fun _ => changed _ _ _))

/-- A change of a usage keeps the statement if its own write does, and a rejection writes
nothing. -/
theorem ensures_applyDelta_kept (delta : Amount) (validate : Bool) {store : σ}
    (keeps : kept store) :
    Ensures fit (engine.applyDelta scope name delta validate) store fun _ after => kept after := by
  refine ensures_applyDelta_of_steps (fun _ => keeps) fun _ =>
    (ensures_getOrCreate_written spreads begins writes keeps).mono ?_
  rintro (error | quota) middle ⟨keepsMiddle, activates⟩
  · exact keepsMiddle
  refine Action.ensures_addUsage (fun stored _ _ _ => ?_) (fun _ _ _ _ => keepsMiddle)
    fun _ => keepsMiddle
  exact (ensures_childChanged_kept spreads .usage (fun _ => activates _ rfl)
    (writes middle _ keepsMiddle)).mono fun _ _ kept => kept.1

end Writes

/-- Every missing record of a scope is created, one field after the other. -/
theorem ensures_initializeFields_kept (scope : Entity) (fields : List Field)
    (absent : ∀ field ∈ fields, ∀ store, kept store → lookup store scope field.name = none →
      fit (.getOrCreate scope field.name (engine.starting store scope field)) store →
      kept (put store scope field.name (engine.starting store scope field)) ∧
        active scope field.name)
    {store : σ} (keeps : kept store) :
    Ensures fit (engine.initializeFields scope fields) store fun result after => kept after ∧
      Yields (fun _ => True) (¬ engine.graph.Shallow) result := by
  induction fields generalizing store with
  | nil => exact Action.ensures_pure ⟨keeps, trivial⟩
  | cons field fields inductionHypothesis =>
      have others := fun other member => absent other (List.mem_cons_of_mem field member)
      unfold initializeFields
      split
      · refine Action.ensures_bind (fun found => by cases found <;> infer_instance)
          (Action.ensures_access (Action.ensures_get ?_))
        cases lookup store scope field.name with
        | some quota => exact inductionHypothesis others keeps
        | none =>
            refine Action.ensures_bind (fun _ => inferInstance) (Action.ensures_discard
              ((ensures_ensure_kept spreads scope field (fun _ _ => keeps)
                (absent field List.mem_cons_self store keeps)).mono ?_))
            rintro (error | quota) middle ⟨keepsMiddle, yields⟩
            · exact ⟨keepsMiddle, yields⟩
            refine Action.ensures_bind (fun _ => inferInstance)
              ((inductionHypothesis others keepsMiddle).mono ?_)
            rintro (error | count) after ⟨keepsAfter, yields⟩
            · exact ⟨keepsAfter, yields⟩
            · exact Action.ensures_pure ⟨keepsAfter, trivial⟩
      · exact inductionHypothesis others keeps

end Rules

end Engine

end HierarchicalQuota
