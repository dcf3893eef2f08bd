import HierarchicalQuota.Proofs.Events
import HierarchicalQuota.Proofs.Spreading

namespace HierarchicalQuota

open HierarchicalQuota.Action (Ensures)
open LawfulStore (lookup put drop)

variable {σ : Type} [QuotaStore σ] [LawfulStore σ]

namespace Engine

variable {engine : Engine} {fit : StoreCall → σ → Prop} {entity : Entity}

/-- What happens above a scope keeps all that survives writes above it. -/
theorem spreads_above {kept : σ → Prop}
    (higher : ∀ store scope name quota, engine.graph.Above entity scope → kept store →
      kept (put store scope name quota)) :
    engine.Spreads fit (fun child _ => child = entity ∨ engine.graph.Above entity child) kept := by
  constructor
  · exact fun meets keeps _ _ =>
      ⟨higher _ _ _ _ meets.aggregateAbove.above keeps, fun _ => .inr meets.aggregateAbove.above⟩
  · exact fun meets keeps _ _ =>
      ⟨higher _ _ _ _ meets.aggregateAbove.above keeps, .inr meets.aggregateAbove.above⟩

/-- What happens above a scope without a cycle keeps all that does not depend on other scopes. -/
theorem spreads_elsewhere (acyclic : ¬ engine.graph.Above entity entity) {kept : σ → Prop}
    (elsewhere : ∀ store scope name quota, scope ≠ entity → kept store →
      kept (put store scope name quota)) :
    engine.Spreads fit (fun child _ => child = entity ∨ engine.graph.Above entity child) kept :=
  spreads_above fun store scope name quota above =>
    elsewhere store scope name quota fun same => acyclic (same ▸ above)

/-- The records of a scope are kept if each is stored as it was before. -/
def KeepsRecords (entity : Entity) (before after : σ) : Prop :=
  ∀ name quota, lookup before entity name = some quota → lookup after entity name = some quota

/-- Whether it succeeds or fails, an initialization keeps the records that were there. -/
theorem ensures_initializeScope_keeps (acyclic : ¬ engine.graph.Above entity entity) (store : σ) :
    Ensures fit (engine.initializeScope entity) store fun _ after =>
      KeepsRecords entity store after := by
  have spreads : engine.Spreads fit
      (fun child _ => child = entity ∨ engine.graph.Above entity child)
      (KeepsRecords entity store) := by
    refine spreads_elsewhere acyclic fun middle scope name quota other keeps label old found => ?_
    rw [LawfulStore.lookup_put, if_neg fun same => other same.1]
    exact keeps label old found
  refine (ensures_initializeFields_kept spreads entity _ (fun field _ middle keeps absent _ =>
    ⟨fun label old found => ?_, .inl rfl⟩) fun _ _ found => found).mono fun _ _ kept => kept.1
  rw [LawfulStore.lookup_put, if_neg]
  · exact keeps label old found
  · rintro ⟨-, rfl⟩
    have present := keeps field.name old found
    rw [absent] at present
    cases present

/-- Once the records of a scope are removed, nothing that spreads from it brings one back. -/
theorem ensures_childDeleted_removes (acyclic : ¬ engine.graph.Above entity entity) (store : σ) :
    Ensures fit (engine.childDeleted entity) store fun _ after =>
      ∀ name, lookup after entity name = none := by
  have spreads : engine.Spreads fit
      (fun child _ => child = entity ∨ engine.graph.Above entity child)
      fun store : σ => ∀ name, lookup store entity name = none := by
    refine spreads_elsewhere acyclic fun middle scope name quota other absent label => ?_
    rw [LawfulStore.lookup_put, if_neg fun same => other same.1]
    exact absent label
  refine (ensures_childDeleted_kept spreads (fun _ => .inl rfl) fun _ name => ?_).mono
    fun _ _ kept => kept.1
  rw [LawfulStore.lookup_drop, if_pos rfl]

/-- A rejected creation stops in the initialization, or it leaves its scope without records. -/
theorem ensures_entityCreated_rejected (acyclic : ¬ engine.graph.Above entity entity)
    (isScope : engine.registry.isScopeKind entity.kind = true) (store : σ) :
    Ensures fit (engine.entityCreated entity) store fun result after =>
      ∀ error, result = .error error →
        (Action.outcome (engine.initializeScope entity) store = .error error ∧
          KeepsRecords entity store after) ∨
        ((∃ count, Action.outcome (engine.initializeScope entity) store = .ok count) ∧
          ∀ name, lookup after entity name = none) := by
  have initialized : Ensures fit (engine.initializeScope entity) store fun result after =>
      result = Action.outcome (engine.initializeScope entity) store ∧
        KeepsRecords entity store after :=
    (Action.ensures_outcome (RecordedStore.answersAlike.initializeScope engine entity)).and
      (ensures_initializeScope_keeps acyclic store)
  refine ensures_entityCreated_of_steps isScope (initialized.mono ?_)
  rintro (error | count) middle ⟨same, keeps⟩
  · rintro _ ⟨⟩
    exact .inl ⟨same.symm, keeps⟩
  have counted : Ensures fit (engine.applyTargetChange entity .created) middle fun _ _ => True :=
    fun _ _ => trivial
  refine counted.mono ?_
  rintro (error | done) later -
  · exact (ensures_childDeleted_removes acyclic later).mono fun _ after removed _ _ =>
      .inr ⟨⟨count, same.symm⟩, removed⟩
  · rintro _ ⟨⟩

/-- A rejected creation keeps the earlier records of its scope if the initialization was rejected. If
a counter or a total was, the scope has no records afterwards, whatever it had before. -/
theorem records_of_rejected (acyclic : ¬ engine.graph.Above entity entity)
    (isScope : engine.registry.isScopeKind entity.kind = true) (store : σ) (error : QuotaError)
    (rejected : Action.outcome (engine.entityCreated entity) store = .error error) :
    (Action.outcome (engine.initializeScope entity) store = .error error ∧
      ∀ name quota, lookup store entity name = some quota →
        lookup (Action.after (engine.entityCreated entity) store) entity name = some quota) ∨
    ((∃ count, Action.outcome (engine.initializeScope entity) store = .ok count) ∧
      ∀ name, lookup (Action.after (engine.entityCreated entity) store) entity name = none) := by
  have ensures : Ensures (fun _ _ => True) (engine.entityCreated entity) store _ :=
    ensures_entityCreated_rejected acyclic isScope store
  exact ensures.of_allFit (RecordedStore.answersAlike.entityCreated engine entity)
    (fun _ _ => trivial) error rejected

end Engine

section Sample

/-- The team has a record before its creation is reported. -/
def earlyStore : MemoryStore := closedStore.put sampleTeam "storage" ⟨10, 7⟩

/-- The counter of the organization admits no team. -/
theorem rejected_earlyStore :
    Action.outcome ((closedEngine 10).entityCreated sampleTeam) earlyStore =
      .error (.limitExceeded ⟨sampleOrganization, "teams", 0, 1⟩) := by decide +kernel

/-- The counter of the organization rejects the team, and the record of the team is lost. -/
theorem records_of_rejected_sample :
    earlyStore.lookup sampleTeam "storage" = some ⟨10, 7⟩ ∧
      ∀ name, (Action.after ((closedEngine 10).entityCreated sampleTeam) earlyStore).lookup
        sampleTeam name = none := by
  refine ⟨by decide +kernel, ?_⟩
  rcases Engine.records_of_rejected (shallow_sampleGraph.not_above_self sampleTeam) rfl earlyStore _
    rejected_earlyStore with ⟨failed, -⟩ | ⟨-, removed⟩
  · have initialized : Action.outcome ((closedEngine 10).initializeScope sampleTeam) earlyStore =
        .ok 0 := by decide +kernel
    rw [initialized] at failed
    cases failed
  · exact removed

/-- So a rejected creation can destroy records that it has not made. -/
theorem rejected_destroys :
    ¬ ∀ (engine : Engine) (entity : Entity) (store : MemoryStore) (error : QuotaError),
      engine.graph.Shallow → engine.registry.isScopeKind entity.kind = true →
      Action.outcome (engine.entityCreated entity) store = .error error →
      ∀ name quota, store.lookup entity name = some quota →
        (Action.after (engine.entityCreated entity) store).lookup entity name = some quota := by
  intro claimed
  have kept := claimed (closedEngine 10) sampleTeam earlyStore _ shallow_sampleGraph rfl
    rejected_earlyStore "storage" ⟨10, 7⟩ (by decide +kernel)
  have lost : (Action.after ((closedEngine 10).entityCreated sampleTeam) earlyStore).lookup
      sampleTeam "storage" = none := by decide +kernel
  rw [lost] at kept
  cases kept

end Sample

end HierarchicalQuota
