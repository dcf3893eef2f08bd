import HierarchicalQuota.Proofs.Edits
import HierarchicalQuota.Proofs.Events

namespace HierarchicalQuota

open HierarchicalQuota.Action (Ensures)
open LawfulStore (lookup put drop list)

variable {σ : Type} [QuotaStore σ] [LawfulStore σ]

namespace Engine

variable {engine : Engine}

/-- All records of the entities of a graph lie inside it. -/
def Inside (engine : Engine) (scope : Entity) (_ : String) : Prop :=
  engine.graph.contains scope = true

/-- In a closed graph the aggregates above a scope are inside the graph. -/
theorem inside_of_reaches (closed : engine.graph.Closed) {scope other : Entity} {name : String}
    (reaches : engine.Reaches scope other name) : engine.Inside other name := by
  obtain ⟨aggregate, above, rfl, -⟩ := reaches
  exact closed.of_above above.above

/-- A change at a scope of the graph touches only records inside the graph. -/
theorem inside_of_touches (closed : engine.graph.Closed) {scope other : Entity}
    {name label : String} (present : engine.graph.contains scope = true)
    (touches : engine.Touches scope name other label) : engine.Inside other label := by
  rcases touches with ⟨rfl, -⟩ | reaches
  · exact present
  · exact inside_of_reaches closed reaches

/-- In a closed graph the end of a path is an entity of the graph. -/
theorem Targets.inside (closed : engine.graph.Closed) {entity scope : Entity} {name : String}
    (targets : engine.Targets entity scope name) : engine.graph.contains scope = true := by
  obtain ⟨registration, -, kinds, path, -, resolved, -⟩ := targets
  exact closed.of_resolve resolved

/-- A scope without records loses nothing when it is dropped. -/
theorem drop_of_unborn {store : σ} {scope : Entity}
    (unborn : ∀ name, lookup store scope name = none) : drop store scope = store := by
  apply LawfulStore.ext_lookup
  intro other name
  rw [LawfulStore.lookup_drop]
  split
  · rename_i same
    rw [← same, unborn]
  · rfl

variable (matching : engine.Matching) (shallow : engine.graph.Shallow)
  (closed : engine.graph.Closed)

include matching shallow closed

/-- A change that an event asks for is a batch at scopes of the graph. -/
theorem ensures_applyTargetChange_sound (entity : Entity) (change : TargetChange) {store : σ}
    (sound : engine.Sound store) :
    Ensures engine.Exact (engine.applyTargetChange entity change) store
      (engine.Keeps engine.Inside store) := by
  unfold applyTargetChange
  refine ensures_applyAll matching shallow true _ (fun request requested => ?_)
    (fun request requested other label touches => ?_) sound
  · exact (targets_of_mem requested).plain
  · exact inside_of_touches closed ((targets_of_mem requested).inside closed) touches

/-- A creation that succeeds leaves a sound store with all records of the new scope. -/
theorem ensures_entityCreated_sound {entity : Entity} (present : engine.graph.contains entity = true)
    (connected : ∀ field ∈ engine.registry.fields entity.kind,
      field.isConnected entity engine.graph = true) {store : σ} (sound : engine.Sound store) :
    Ensures engine.Exact (engine.entityCreated entity) store fun result after =>
      result = .ok ⟨⟩ → engine.Maintains engine.Inside store after ∧
        ∀ field ∈ engine.registry.fields entity.kind, stored after entity field.name = true := by
  by_cases isScope : engine.registry.isScopeKind entity.kind = true
  · refine ensures_entityCreated_of_steps isScope ((ensures_initializeFields matching shallow entity
      (engine.registry.fields entity.kind) (fun _ member => member) sound).mono ?_)
    rintro _ middle ⟨⟨count, rfl⟩, initializes, initialized⟩
    have inside : Frame engine.Inside store middle := by
      apply initializes.frame.mono
      rintro scope name (⟨rfl, -⟩ | reaches)
      · exact present
      · exact inside_of_reaches closed reaches
    refine (ensures_applyTargetChange_sound matching shallow closed entity .created
      initializes.sound).mono ?_
    rintro (error | done) later maintains
    · exact fun _ _ => nofun
    · intro _
      refine ⟨.trans inside maintains, fun field registered => ?_⟩
      exact maintains.frame.kept _ _ (initialized field registered (connected field registered))
  · refine ensures_entityCreated_of_not_isScope isScope
      ((ensures_applyTargetChange_sound matching shallow closed entity .created sound).mono ?_)
    exact fun _ after maintains _ => ⟨maintains, fun field registered =>
      absurd (Registry.isScopeKind_of_mem_fields registered) isScope⟩

/-- A deletion that succeeds removes the records of the entity and keeps the rest sound. -/
theorem ensures_entityDeleted_sound {entity : Entity} {store : σ} (sound : engine.Sound store) :
    Ensures engine.Exact (engine.entityDeleted entity) store fun result after =>
      result = .ok ⟨⟩ → ∃ middle, engine.Maintains engine.Inside store middle ∧
        engine.Maintains (engine.Reaches entity) (drop middle entity) after := by
  unfold entityDeleted
  refine Action.ensures_bind (fun _ => inferInstance) ((ensures_applyTargetChange_sound matching
    shallow closed entity .deleted sound).mono ?_)
  rintro (error | done) middle maintains
  · rintro ⟨⟩
  have soundMiddle := maintains.sound
  dsimp only
  split
  · refine (ensures_childDeleted matching shallow entity soundMiddle).mono ?_
    rintro _ after ⟨rfl, removes⟩ _
    exact ⟨middle, maintains, removes⟩
  · rename_i unscoped
    have unborn : ∀ name, lookup middle entity name = none := by
      intro name
      cases found : lookup middle entity name with
      | none => rfl
      | some quota =>
          have known := soundMiddle.registered entity name (stored_of_lookup found)
          obtain ⟨field, isField⟩ := Option.isSome_iff_exists.1 known
          have registered := (Registry.field?_eq_some_iff.1 isField).1
          exact absurd (Registry.isScopeKind_of_mem_fields registered) unscoped
    apply Action.ensures_pure
    intro _
    refine ⟨middle, maintains, ?_⟩
    rw [drop_of_unborn unborn]
    exact .refl soundMiddle

/-- A changed attribute keeps a store sound, also where it is not tracked by any field. -/
theorem ensures_attributeChanged_sound (entity : Entity) (name : String) (old new : Amount)
    {store : σ} (sound : engine.Sound store) :
    Ensures engine.Exact (engine.attributeChanged entity name old new) store
      (engine.Keeps engine.Inside store) := by
  unfold attributeChanged
  split
  · exact Action.ensures_pure (Maintains.refl sound)
  · exact ensures_applyTargetChange_sound matching shallow closed entity _ sound

end Engine

end HierarchicalQuota
