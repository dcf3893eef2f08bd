import HierarchicalQuota.Proofs.Accounting
import HierarchicalQuota.Proofs.Validation

namespace HierarchicalQuota

open HierarchicalQuota.Action (Ensures)
open LawfulStore (lookup put)

variable {σ : Type} [QuotaStore σ] [LawfulStore σ]

namespace Engine

variable {engine : Engine} {fit : StoreCall → σ → Prop} {scope : Entity} {field : Field} {store : σ}

/-- In a matching graph an aggregate stands over all children that its rule selects. -/
theorem Matching.mem_aggregatesOver (matching : engine.Matching) {rule : AggregatorRule}
    {quota : String} {child : Entity} (registered : field ∈ engine.registry.fields scope.kind)
    (connected : field.isConnected scope engine.graph = true)
    (isRule : field.aggregator? = some rule) (isQuota : field.childQuota? = some quota)
    (known : (engine.registry.field? child.kind quota).isSome)
    (selected : child ∈ rule.children scope engine.graph) :
    ⟨scope, field⟩ ∈ engine.aggregatesOver child quota rule.measure := by
  have hop := (matching.mem_quotaParents registered isRule isQuota known).2 selected
  exact Engine.mem_aggregatesOver.2
    ⟨hop, registered, isQuota, by rw [isRule, Option.map_some], connected⟩

/-- The children of a missing aggregate add up to nothing, because none of them has a number that
would have created the aggregate. -/
theorem Accounted.childSum_eq_zero (accounted : engine.Accounted [] store)
    (matching : engine.Matching) (registered : field ∈ engine.registry.fields scope.kind)
    (connected : field.isConnected scope engine.graph = true)
    (absent : lookup store scope field.name = none) : engine.childSum store scope field = 0 := by
  unfold childSum
  cases isRule : field.aggregator? with
  | none => rfl
  | some rule =>
      cases isQuota : field.childQuota? with
      | none => rfl
      | some quota =>
          refine summed_eq_zero fun child selected => ?_
          by_contra nonzero
          have present : stored store child quota = true := by
            by_contra missing
            have none : lookup store child quota = none := by simpa [stored] using missing
            exact nonzero (reading_of_none none rule.measure)
          have listed := matching.mem_aggregatesOver registered connected isRule isQuota
            (accounted.registered child quota present) selected
          rcases accounted.noticed child quota rule.measure nonzero _ listed with isStored | pending
          · rw [stored, absent] at isStored
            cases isStored
          · cases pending

/-- Aggregates start from zero if this is the default usage of every aggregator field. -/
def StartsFromZero (engine : Engine) : Prop :=
  ∀ scope, ∀ field ∈ engine.registry.fields scope.kind, field.aggregator?.isSome = true →
    (field.initial scope engine.graph).usage = 0

/-- A missing aggregate has no children that count, so it would start from its defaults. -/
theorem Accounted.starting_eq (accounted : engine.Accounted [] store) (matching : engine.Matching)
    (zero : engine.StartsFromZero) (registered : field ∈ engine.registry.fields scope.kind)
    (connected : field.isConnected scope engine.graph = true)
    (absent : lookup store scope field.name = none) :
    engine.starting store scope field = field.initial scope engine.graph := by
  unfold starting
  split
  · rename_i aggregates
    rw [accounted.childSum_eq_zero matching registered connected absent,
      ← zero scope field registered aggregates]
  · rfl

/-- A quota that is read or created is stored afterwards, because nothing that its creation entails
comes back to its scope. -/
theorem ensures_getOrCreate_answers (shallow : engine.graph.Shallow)
    (registered : field ∈ engine.registry.fields scope.kind)
    (connected : field.isConnected scope engine.graph = true) (store : σ) :
    Ensures fit (engine.getOrCreate scope field.name) store fun result after =>
      result = .ok ((lookup store scope field.name).getD (engine.starting store scope field)) ∧
        lookup after scope field.name =
          some ((lookup store scope field.name).getD (engine.starting store scope field)) := by
  let quota := (lookup store scope field.name).getD (engine.starting store scope field)
  have spreads : engine.Spreads fit (fun child _ => child = scope ∨ engine.graph.Above scope child)
      fun later => lookup later scope field.name = some quota := by
    refine spreads_elsewhere (shallow.not_above_self scope) fun later place name _ other found => ?_
    rw [LawfulStore.lookup_put, if_neg fun same => other same.1]
    exact found
  refine (ensures_getOrCreate_kept spreads registered connected (fun stored found => ?_)
    fun absent _ => ⟨?_, .inl rfl⟩).mono ?_
  · change lookup store scope field.name = some ((lookup store scope field.name).getD _)
    rw [found, Option.getD_some]
  · change _ = some ((lookup store scope field.name).getD _)
    rw [LawfulStore.lookup_put, if_pos ⟨rfl, rfl⟩, absent, Option.getD_none]
  · intro result after ⟨found, yields⟩
    cases result with
    | error error => exact absurd shallow yields
    | ok answer => exact ⟨congrArg Except.ok yields, found⟩

/-- Where all amounts are accounted for, an available quota is created as it stands. -/
theorem Accounted.getOrCreate_eq (accounted : engine.Accounted [] store)
    (matching : engine.Matching) (shallow : engine.graph.Shallow) (zero : engine.StartsFromZero)
    (registered : field ∈ engine.registry.fields scope.kind)
    (connected : field.isConnected scope engine.graph = true) :
    ∃ after, engine.getOrCreate scope field.name store =
        .ok (engine.standing store scope field) after ∧
      lookup after scope field.name = some (engine.standing store scope field) := by
  have ensures : Ensures (fun _ _ => True) (engine.getOrCreate scope field.name) store _ :=
    ensures_getOrCreate_answers shallow registered connected store
  obtain ⟨returned, found⟩ := ensures.of_allFit
    (RecordedStore.answersAlike.getOrCreateQuota engine scope field.name) fun _ _ => trivial
  have stands : (lookup store scope field.name).getD (engine.starting store scope field) =
      engine.standing store scope field := by
    cases earlier : lookup store scope field.name with
    | some quota => rw [standing_of_lookup earlier, Option.getD_some]
    | none =>
        rw [standing, earlier, Option.getD_none, Option.getD_none,
          accounted.starting_eq matching zero registered connected earlier]
  rw [stands] at returned found
  exact ⟨_, Action.eq_ok_iff.2 ⟨returned, rfl⟩, found⟩

/-- Without records there is nothing to account for. -/
theorem accounted_empty {empty : σ}
    (isEmpty : ∀ scope name, lookup empty scope name = none) : engine.Accounted [] empty := by
  refine ⟨fun scope name present => ?_, fun child quota measure nonzero => ?_⟩
  · rw [stored, isEmpty scope name] at present
    cases present
  · exact absurd (reading_of_none (isEmpty child quota) measure) nonzero

/-- A quota that has no record yet reads as what its creation would store. After any operations that
remove no records, started on an empty store, the quotas of a scope are listed as they are returned and
stored when they are read or created, provided that the graph matches the aggregators and that the
default usage of an aggregator is zero. -/
theorem quotas_foretell (matching : engine.Matching) (shallow : engine.graph.Shallow)
    (zero : engine.StartsFromZero) (operations : List Operation)
    (keepRecords : ∀ scope, .childDeleted scope ∉ operations) (empty store : σ)
    (isEmpty : ∀ scope name, lookup empty scope name = none)
    (reached : store = Action.after (engine.performAll operations) empty) (scope : Entity) :
    ∃ records, engine.quotas scope store = .ok records store ∧
      records.map Record.name = ((engine.registry.fields scope.kind).filter fun field =>
        field.isConnected scope engine.graph).map Field.name ∧
      ∀ record ∈ records, record.scope = scope ∧ ∃ after,
        engine.getOrCreate scope record.name store = .ok record.quota after ∧
          lookup after scope record.name = some record.quota := by
  have ensures : Ensures (fun _ _ => True) (engine.performAll operations) empty _ :=
    ensures_performAll_upheld (upholds_accounted shallow) operations keepRecords
      (accounted_empty isEmpty)
  have accounted : engine.Accounted [] store := by
    rw [reached]
    exact ensures.of_allFit (RecordedStore.answersAlike.performAll engine operations)
      fun _ _ => trivial
  refine ⟨_, quotas_eq engine scope store, ?_, fun record member => ?_⟩
  · rw [List.map_map]
    rfl
  · obtain ⟨field, listed, rfl⟩ := List.mem_map.1 member
    obtain ⟨registered, connected⟩ := List.mem_filter.1 listed
    exact ⟨rfl, accounted.getOrCreate_eq matching shallow zero registered connected⟩

end Engine

section Sample

/-- The seats of the team are counted in the organization. Its storage is left without a record. -/
def seatOperations : List Operation :=
  [.addUsage sampleTeam "seats" 3 true, .setLimit sampleTeam "seats" 8]

/-- These records are the ones that the operations leave. -/
def countedStore : MemoryStore :=
  Action.after (sampleEngine.performAll seatOperations) MemoryStore.empty

/-- All default usages of the sample are zero. -/
theorem startsFromZero_sampleEngine : sampleEngine.StartsFromZero := by
  rintro ⟨kind, id⟩ field registered aggregates
  obtain ⟨registration, listed, rfl⟩ := List.mem_map.1 registered
  have fixed : ∀ registration ∈ sampleRegistry.registrations,
      registration.field.defaultUsage = .constant 0 := by
    intro other member
    simp only [sampleRegistry, List.mem_cons, List.not_mem_nil, or_false] at member
    rcases member with rfl | rfl | rfl | rfl <;> rfl
  rw [Field.initial, fixed registration (List.mem_filter.1 listed).1, DefaultValue.resolve]

/-- Both quotas of the organization are listed, and only one of them has a record. To create the other
one stores what was listed. -/
theorem quotas_foretell_sample :
    Action.outcome (sampleEngine.quotas sampleOrganization) countedStore =
        .ok [⟨sampleOrganization, "storage", ⟨.unlimited, 0⟩⟩,
          ⟨sampleOrganization, "seats", ⟨.unlimited, 3⟩⟩] ∧
      countedStore.lookup sampleOrganization "storage" = none ∧
      ∃ after, sampleEngine.getOrCreate sampleOrganization "storage" countedStore =
          .ok ⟨.unlimited, 0⟩ after ∧
        after.lookup sampleOrganization "storage" = some ⟨.unlimited, 0⟩ := by
  have listed : Action.outcome (sampleEngine.quotas sampleOrganization) countedStore =
      .ok [⟨sampleOrganization, "storage", ⟨.unlimited, 0⟩⟩,
        ⟨sampleOrganization, "seats", ⟨.unlimited, 3⟩⟩] := by decide +kernel
  obtain ⟨records, run, -, each⟩ := Engine.quotas_foretell Engine.matching_sampleEngine
    shallow_sampleGraph startsFromZero_sampleEngine seatOperations (by simp [seatOperations])
    MemoryStore.empty countedStore MemoryStore.lookup_empty rfl sampleOrganization
  rw [(Action.eq_ok_iff.1 run).1] at listed
  obtain rfl := Except.ok.inj listed
  obtain ⟨-, created⟩ := each _ List.mem_cons_self
  exact ⟨(Action.eq_ok_iff.1 run).1, by decide +kernel, created⟩

end Sample

end HierarchicalQuota
