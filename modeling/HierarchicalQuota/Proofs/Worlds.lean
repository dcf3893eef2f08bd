import HierarchicalQuota.Proofs.Consistency
import HierarchicalQuota.Proofs.Recalculation

namespace HierarchicalQuota

open LawfulStore (lookup)

/-- A world is a graph with the store that an engine keeps for it. -/
structure World (σ : Type) where
  graph : Graph
  store : σ

/-- A step edits the graph and reports the edit to the engine, or it works on quotas alone. -/
inductive Step where
  | create (entity : Entity) (node : Node)
  | delete (entity : Entity)
  | setAttribute (entity : Entity) (name : String) (value : Amount)
  | operate (operation : Operation)

namespace Step

/-- The graph during a step. A deleted entity is removed only afterwards. -/
def graph : Step → Graph → Graph
  | .create entity node, graph => graph.insert entity node
  | .setAttribute entity name value, graph => graph.setAttribute entity name value
  | .delete _, graph | .operate _, graph => graph

/-- The graph after a step that the engine has accepted. -/
def accepted (step : Step) (graph : Graph) : Graph :=
  match step with
  | .delete entity => graph.remove entity
  | .create .. | .setAttribute .. | .operate _ => step.graph graph

/-- An attribute that is unset counts as zero. -/
def previous (graph : Graph) (entity : Entity) (name : String) : Amount :=
  (graph.attributeOf entity name).getD 0

/-- A step that the engine has refused is taken back. -/
def refused (step : Step) (graph : Graph) : Graph :=
  match step with
  | .create entity _ => (step.graph graph).remove entity
  | .setAttribute entity name _ =>
      (step.graph graph).setAttribute entity name (previous graph entity name)
  | .delete _ | .operate _ => graph

/-- The engine that answers a step works on the graph during it. -/
def engine (step : Step) (registry : Registry) (graph : Graph) : Engine :=
  ⟨registry, step.graph graph⟩

/-- What the engine is asked in a step. -/
def action {σ : Type} [QuotaStore σ] (step : Step) (registry : Registry) (graph : Graph) :
    Action σ Unit :=
  match step with
  | .create entity _ => (step.engine registry graph).handle (.created entity)
  | .delete entity => (step.engine registry graph).handle (.deleted entity)
  | .setAttribute entity name value =>
      (step.engine registry graph).handle
        (.attributeChanged entity name (previous graph entity name) value)
  | .operate operation => (step.engine registry graph).perform operation

/-- All steps but operations report an event of one entity. -/
def entity? : Step → Option Entity
  | .create entity _ | .delete entity | .setAttribute entity _ _ => some entity
  | .operate _ => none

/-- A step that is about an entity reports one event of the entity. -/
theorem action_of_entity? {step : Step} {entity : Entity} (reports : step.entity? = some entity)
    (registry : Registry) (graph : Graph) :
    ∃ event : EntityEvent, event.entity = entity ∧ ∀ (σ : Type) [QuotaStore σ],
      step.action registry graph = ((step.engine registry graph).handle event : Action σ Unit) := by
  cases step with
  | create entity node => exact ⟨.created entity, Option.some.inj reports, fun _ _ => rfl⟩
  | delete entity => exact ⟨.deleted entity, Option.some.inj reports, fun _ _ => rfl⟩
  | setAttribute entity name value =>
      exact ⟨.attributeChanged entity name (previous graph entity name) value,
        Option.some.inj reports, fun _ _ => rfl⟩
  | operate operation => cases reports

/-- A step belongs to the life of an entity if it creates a new entity, or if it changes or deletes
one that exists. -/
def IsLifecycle : Step → Graph → Prop
  | .create entity _, graph => graph.contains entity = false
  | .delete entity, graph | .setAttribute entity _ _, graph => graph.contains entity = true
  | .operate _, _ => False

/-- A step of a lifecycle is told by the graph alone. -/
instance : (step : Step) → (graph : Graph) → Decidable (step.IsLifecycle graph)
  | .create entity _, graph => inferInstanceAs (Decidable (graph.contains entity = false))
  | .delete entity, graph | .setAttribute entity _ _, graph =>
      inferInstanceAs (Decidable (graph.contains entity = true))
  | .operate _, _ => inferInstanceAs (Decidable False)

/-- A new node refers to itself and to existing entities, and no entity is deleted that another one
refers to. Attributes are not negative, and a chain of quota parents does not reach the depth
bound. -/
def Allowed (step : Step) (registry : Registry) (graph : Graph) : Prop :=
  match step with
  | .create entity node =>
      graph.contains entity = false ∧
        (∀ (relation : String) (other : Entity), node.relations[relation]? = some other →
          other = entity ∨ graph.contains other = true) ∧
        (∀ (name : String) (value : Amount), node.attributes[name]? = some value →
          0 ≤ value.value) ∧
        (graph.insert entity node).Shallow
  | .delete entity =>
      graph.contains entity = true ∧
        ∀ other relation, graph.related other relation = some entity → other = entity
  | .setAttribute entity _ value => graph.contains entity = true ∧ 0 ≤ value.value
  | .operate operation => (step.engine registry graph).Usable operation

/-- It is enough to look at the node of the step and at the entities of the graph. -/
instance (registry : Registry) (graph : Graph) :
    (step : Step) → Decidable (step.Allowed registry graph)
  | .create entity node => inferInstanceAs (Decidable (graph.contains entity = false ∧
      (∀ (relation : String) (other : Entity), node.relations[relation]? = some other →
        other = entity ∨ graph.contains other = true) ∧
      (∀ (name : String) (value : Amount), node.attributes[name]? = some value →
        0 ≤ value.value) ∧
      (graph.insert entity node).Shallow))
  | .delete entity => inferInstanceAs (Decidable (graph.contains entity = true ∧
      ∀ other relation, graph.related other relation = some entity → other = entity))
  | .setAttribute entity _ value =>
      inferInstanceAs (Decidable (graph.contains entity = true ∧ 0 ≤ value.value))
  | .operate operation =>
      inferInstanceAs (Decidable ((⟨registry, graph⟩ : Engine).Usable operation))

end Step

variable {σ : Type} [QuotaStore σ] [LawfulStore σ] {registry : Registry}

namespace World

/-- This engine works on the graph of a world. -/
def engine (world : World σ) (registry : Registry) : Engine := ⟨registry, world.graph⟩

/-- A step changes the graph as the engine's answer tells. -/
def advance (registry : Registry) (world : World σ) (step : Step) : World σ where
  graph :=
    match Action.outcome (step.action registry world.graph) world.store with
    | .ok _ => step.accepted world.graph
    | .error _ => step.refused world.graph
  store := Action.after (step.action registry world.graph) world.store

/-- A world follows another one if a step that meets a condition leads from there to it. -/
def Follows (registry : Registry) (condition : World σ → Step → Prop) (before after : World σ) :
    Prop :=
  ∃ step, condition before step ∧ after = before.advance registry step

/-- A step of a lifecycle succeeds if the engine accepts it. -/
structure Succeeds (registry : Registry) (world : World σ) (step : Step) : Prop where
  lifecycle : step.IsLifecycle world.graph
  accepted : Action.outcome (step.action registry world.graph) world.store = .ok ⟨⟩

omit [LawfulStore σ] in
/-- A step succeeds if it is one of a lifecycle and its event is accepted. -/
theorem succeeds_iff {world : World σ} {step : Step} :
    world.Succeeds registry step ↔ step.IsLifecycle world.graph ∧
      Action.outcome (step.action registry world.graph) world.store = .ok ⟨⟩ :=
  ⟨fun succeeds => ⟨succeeds.lifecycle, succeeds.accepted⟩,
    fun ⟨lifecycle, accepted⟩ => ⟨lifecycle, accepted⟩⟩

/-- Whether a step succeeds is decided by running it. -/
instance (world : World σ) (step : Step) : Decidable (world.Succeeds registry step) :=
  decidable_of_iff _ succeeds_iff.symm

/-- A legal step is allowed, it cuts no number off, and the graph after it matches the
aggregators. -/
structure Legal (registry : Registry) (world : World σ) (step : Step) : Prop where
  allowed : step.Allowed registry world.graph
  exact : RecordedStore.AllFit (step.engine registry world.graph).Exact
    (Action.history (step.action registry world.graph) world.store)
  matching : ((world.advance registry step).engine registry).Matching

/-- A step is legal if it is allowed, if its calls are exact, and if the graph after it matches. -/
theorem legal_iff {world : World σ} {step : Step} :
    world.Legal registry step ↔ step.Allowed registry world.graph ∧
      RecordedStore.AllFit (step.engine registry world.graph).Exact
        (Action.history (step.action registry world.graph) world.store) ∧
      ((world.advance registry step).engine registry).Matching :=
  ⟨fun legal => ⟨legal.allowed, legal.exact, legal.matching⟩,
    fun ⟨allowed, exact, matching⟩ => ⟨allowed, exact, matching⟩⟩

/-- Whether a step is legal is decided by running it. -/
instance (world : World σ) (step : Step) : Decidable (world.Legal registry step) :=
  decidable_of_iff _ legal_iff.symm

/-- The worlds that runs of legal steps reach from an empty graph and an empty store. -/
inductive Reachable (registry : Registry) : World σ → Prop where
  | start (relations : Table String (List String)) (store : σ)
      (empty : ∀ scope name, lookup store scope name = none) :
      Reachable registry ⟨{ parentRelations := relations }, store⟩
  | advance {world : World σ} (step : Step) (reachable : Reachable registry world)
      (legal : world.Legal registry step) : Reachable registry (world.advance registry step)

/-- What holds of every reachable world. -/
structure Sound (registry : Registry) (world : World σ) : Prop where
  matching : (world.engine registry).Matching
  shallow : world.graph.Shallow
  consistent : (world.engine registry).Consistent world.store

section Start

variable (relations : Table String (List String))

omit [QuotaStore σ] [LawfulStore σ]

/-- The empty graph has no relations. -/
theorem related_start (entity : Entity) (relation : String) :
    ({ parentRelations := relations } : Graph).related entity relation = none := by
  simp [Graph.related, Graph.node?]

/-- The empty graph has no entities. -/
theorem contains_start (entity : Entity) :
    ({ parentRelations := relations } : Graph).contains entity = false := by
  simp [Graph.contains]

/-- The empty graph has no quota parents. -/
theorem quotaParents_start (scope : Entity) :
    ({ parentRelations := relations } : Graph).quotaParents scope = [] := by
  apply List.filterMap_eq_nil_iff.2
  intro relation _
  exact related_start relations scope relation

/-- An empty graph and an empty store agree. -/
theorem sound_start [QuotaStore σ] [LawfulStore σ] {store : σ}
    (empty : ∀ scope name, lookup store scope name = none) :
    Sound registry ⟨{ parentRelations := relations }, store⟩ where
  matching := by
    intro parent field rule quota registered isRule isQuota child known
    have absent : child ∉ rule.children parent { parentRelations := relations } := by
      intro member
      have present := (Graph.mem_referencing.1 member).1
      rw [contains_start] at present
      cases present
    change (({ parentRelations := relations } : Graph).quotaParents child).count parent = _
    rw [quotaParents_start]
    exact (if_neg absent).symm
  shallow := by
    rintro scope ⟨parent, member, -⟩
    rw [quotaParents_start] at member
    cases member
  consistent := by
    refine ⟨fun entity relation other related => ?_, fun entity name value found => ?_,
      fun scope name => ⟨fun present => ?_, fun inside => ?_⟩,
      fun aggregate present quota found => ?_, fun scope field registered targets inside => ?_⟩
    · cases (related_start relations entity relation).symm.trans related
    · simp [engine, Graph.attributeOf, Graph.node?] at found
    · rw [stored, empty] at present
      cases present
    · cases (contains_start relations scope).symm.trans inside.1
    · rw [empty] at found
      cases found
    · cases (contains_start relations scope).symm.trans inside

end Start

section Advance

variable {world : World σ} {step : Step}

omit [LawfulStore σ]

/-- After an accepted step the graph is changed, and the store is as the event has left it. -/
theorem advance_of_ok
    (accepted : Action.outcome (step.action registry world.graph) world.store = .ok ⟨⟩) :
    world.advance registry step =
      ⟨step.accepted world.graph, Action.after (step.action registry world.graph) world.store⟩ := by
  rw [advance, accepted]

/-- After a refused step the graph is that of the refusal, and the store is as the event has left
it. -/
theorem advance_of_error {error : QuotaError}
    (refused : Action.outcome (step.action registry world.graph) world.store = .error error) :
    world.advance registry step =
      ⟨step.refused world.graph, Action.after (step.action registry world.graph) world.store⟩ := by
  rw [advance, refused]

/-- An accepted step leaves a sound world. -/
theorem Sound.accepted [LawfulStore σ] (regular : registry.Regular) (sound : world.Sound registry)
    (allowed : step.Allowed registry world.graph)
    (exact : RecordedStore.AllFit (step.engine registry world.graph).Exact
      (Action.history (step.action registry world.graph) world.store))
    (outcome : Action.outcome (step.action registry world.graph) world.store = .ok ⟨⟩)
    (matching : (⟨registry, step.accepted world.graph⟩ : Engine).Matching) :
    Sound registry
      ⟨step.accepted world.graph, Action.after (step.action registry world.graph) world.store⟩ := by
  obtain ⟨matched, shallow, consistent⟩ := sound
  cases step with
  | create entity node =>
      obtain ⟨absent, refers, nonnegative, inserted⟩ := allowed
      exact ⟨matching, inserted, consistent.created regular absent refers nonnegative matching
        inserted exact outcome⟩
  | delete entity =>
      obtain ⟨present, unreferenced⟩ := allowed
      exact ⟨matching, shallow.of_subset Graph.quotaParents_remove_subset,
        consistent.deleted regular present unreferenced matched shallow exact outcome⟩
  | setAttribute entity name value =>
      obtain ⟨present, positive⟩ := allowed
      exact ⟨matching, Engine.shallow_setAttribute shallow,
        consistent.attributeChanged regular present positive rfl matched shallow exact outcome⟩
  | operate operation =>
      have kept := (Engine.ensures_perform_consistent matched shallow operation allowed
        consistent).of_allFit (RecordedStore.answersAlike.perform _ operation) exact
      exact ⟨matching, shallow, kept⟩

/-- A refused step leaves a sound world: a refused event has left the store as it was, so it is
enough to take the edit of the graph back. -/
theorem Sound.refused [LawfulStore σ] (regular : registry.Regular) (sound : world.Sound registry)
    (allowed : step.Allowed registry world.graph)
    (exact : RecordedStore.AllFit (step.engine registry world.graph).Exact
      (Action.history (step.action registry world.graph) world.store)) {error : QuotaError}
    (outcome : Action.outcome (step.action registry world.graph) world.store = .error error) :
    Sound registry
      ⟨step.refused world.graph, Action.after (step.action registry world.graph) world.store⟩ := by
  obtain ⟨matched, shallow, consistent⟩ := sound
  cases step with
  | create entity node =>
      obtain ⟨absent, refers, -, inserted⟩ := allowed
      have prepared := consistent.prepared_created regular absent (consistent.closed.insert refers)
        inserted
      -- The new entity is taken out of the graph again, so both are as before.
      have same : Step.refused (.create entity node) world.graph = world.graph :=
        Graph.remove_insert absent
      have restored : Action.after ((Step.create entity node).action registry world.graph)
          world.store = world.store :=
        Engine.after_of_refused inserted prepared exact outcome
      rw [same, restored]
      exact ⟨matched, shallow, consistent⟩
  | delete entity =>
      have prepared : (world.engine registry).Prepared (.deleted entity) world.store :=
        consistent.prepared_deleted regular
      have restored : Action.after ((Step.delete entity).action registry world.graph)
          world.store = world.store :=
        Engine.after_of_refused shallow prepared exact outcome
      rw [restored]
      exact ⟨matched, shallow, consistent⟩
  | setAttribute entity name value =>
      obtain ⟨present, positive⟩ := allowed
      have restored : Action.after ((Step.setAttribute entity name value).action registry
          world.graph) world.store = world.store :=
        Engine.after_of_refused (Engine.shallow_setAttribute shallow)
          (consistent.prepared_attributeChanged regular) exact outcome
      rw [restored]
      exact ⟨Engine.matching_setAttribute (Engine.matching_setAttribute matched),
        Engine.shallow_setAttribute (Engine.shallow_setAttribute shallow),
        consistent.setBack regular present positive rfl⟩
  | operate operation =>
      have kept := (Engine.ensures_perform_consistent matched shallow operation allowed
        consistent).of_allFit (RecordedStore.answersAlike.perform _ operation) exact
      exact ⟨matched, shallow, kept⟩

/-- What holds of the world before a legal step holds of the world after it. -/
theorem Sound.advance [LawfulStore σ] (regular : registry.Regular)
    (sound : world.Sound registry) (legal : world.Legal registry step) :
    (world.advance registry step).Sound registry := by
  obtain ⟨allowed, exact, matching⟩ := legal
  cases outcome : Action.outcome (step.action registry world.graph) world.store with
  | ok done =>
      rw [advance_of_ok outcome] at matching ⊢
      exact sound.accepted regular allowed exact outcome matching
  | error error =>
      rw [advance_of_error outcome]
      exact sound.refused regular allowed exact outcome

end Advance

/-- Every world that a run reaches is sound. -/
theorem Reachable.sound (regular : registry.Regular) {world : World σ}
    (reachable : world.Reachable registry) : world.Sound registry := by
  induction reachable with
  | start relations store empty => exact sound_start relations empty
  | advance step _ legal inductionHypothesis => exact inductionHypothesis.advance regular legal

end World

namespace Engine

variable {engine : Engine} {store : σ}

omit [QuotaStore σ] [LawfulStore σ] in
/-- Only scopes of the graph are visited. -/
theorem contains_of_mem_registeredScopes {scope : Entity}
    (member : scope ∈ engine.registeredScopes) : engine.graph.contains scope = true := by
  obtain ⟨kind, -, instance'⟩ := List.mem_flatMap.1 member
  exact Std.ExtTreeMap.mem_keys.1 (List.mem_filter.1 instance').1

/-- In a consistent store every record already has the usage that is expected of it. -/
theorem Consistent.settled (regular : engine.registry.Regular)
    (consistent : engine.Consistent store) {scope : Entity} {field : Field}
    (present : engine.graph.contains scope = true)
    (registered : field ∈ engine.registry.fields scope.kind)
    (exact : engine.ChildrenSumExactly store scope field.name) :
    engine.Settled store scope field := by
  have isRegular := regular.of_mem_fields registered
  obtain ⟨quota, found⟩ := lookup_of_stored (consistent.stored present registered)
  have ofTargets (targets : field.targets?.isSome) (usage : Amount)
      (expected : field.targetUsage? scope engine.graph = some usage) : quota.usage = usage := by
    have counted := consistent.counted scope field registered targets present
    rw [reading_eq found] at counted
    obtain ⟨total, isTotal, value⟩ := isRegular.targetUsage?_eq
      (isRegular.weight_nonneg consistent.nonnegative) targets (counted ▸ quota.usage.upper)
    rw [expected] at isTotal
    obtain rfl := Option.some.inj isTotal
    exact Amount.ext (counted.trans value.symm)
  refine ⟨quota, found, fun usage expected => ?_⟩
  unfold expectedUsage? at expected
  cases isRule : field.rule with
  | direct =>
      rw [isRule] at expected
      cases expected
  | counter rule =>
      rw [isRule] at expected
      exact ofTargets (by rw [Field.targets?, isRule]; rfl) usage expected
  | total rule =>
      rw [isRule] at expected
      exact ofTargets (by rw [Field.targets?, isRule]; rfl) usage expected
  | aggregator rule =>
      rw [isRule] at expected
      obtain rfl := Option.some.inj expected
      have aggregate : engine.HasAggregate ⟨scope, field⟩ :=
        ⟨registered, by rw [aggregator?_of_rule isRule]; rfl, isRegular.isConnected scope _⟩
      have sum := consistent.balanced ⟨scope, field⟩ aggregate quota found
      dsimp only at sum
      apply Amount.ext
      rw [value_childSum (Registry.field?_eq_some_iff.2 ⟨registered, rfl⟩) exact, ← sum, add_zero]

end Engine

/-- Incremental updates agree with a full recomputation. After any run of creations, deletions,
changes of attributes and operations, accepted or refused, every record exists and has the usage
that follows from the graph and from the children, and a recalculation finds nothing to repair, as
long as its sums over children are not cut off. -/
theorem World.recalculateAll_of_reachable (regular : registry.Regular) {world : World σ}
    (reachable : world.Reachable registry)
    (exact : ∀ scope ∈ (world.engine registry).registeredScopes,
      ∀ field ∈ registry.fields scope.kind,
      (world.engine registry).ChildrenSumExactly world.store scope field.name) :
    (∀ scope ∈ (world.engine registry).registeredScopes, ∀ field ∈ registry.fields scope.kind,
      (world.engine registry).Settled world.store scope field) ∧
    ∃ report, (world.engine registry).recalculateAll world.store = .ok report world.store ∧
      report.isClean = true := by
  obtain ⟨-, shallow, consistent⟩ := reachable.sound regular
  have settled : ∀ scope ∈ (world.engine registry).registeredScopes,
      ∀ field ∈ registry.fields scope.kind,
      (world.engine registry).Settled world.store scope field := by
    intro scope member field registered
    exact consistent.settled regular (Engine.contains_of_mem_registeredScopes member) registered
      (exact scope member field registered)
  obtain ⟨entries, depths⟩ :=
    Graph.depths_isOk shallow (world.engine registry).registeredScopes ∅
  refine ⟨settled, Engine.recalculateAll_of_settled _ depths ?_⟩
  intro scope member field registered _
  exact settled scope member field registered

section Sample

/-- A team admits one user, and it totals the sizes of its users. -/
def worldRegistry : Registry where
  registrations :=
    [⟨"organization", sampleSum "storage" .limit⟩, ⟨"organization", sampleSum "seats" .usage⟩,
      ⟨"team", { name := "storage", defaultLimit := .constant 10 }⟩,
      ⟨"team", { sampleCounter with defaultLimit := .constant 1 }⟩,
      ⟨"team", { name := "size", rule := .total ⟨["user"], sampleToTeam, "size"⟩ }⟩]
  distinct := by decide

/-- All fields of the sample start from zero and are connected to every scope. -/
theorem regular_worldRegistry : worldRegistry.Regular := by
  have ofConstant : ∀ registration ∈ worldRegistry.registrations,
      registration.field.defaultUsage = .constant 0 := by
    intro registration member
    simp only [worldRegistry, List.mem_cons, List.not_mem_nil, or_false] at member
    rcases member with rfl | rfl | rfl | rfl | rfl <;> rfl
  intro registration member
  have idle := ofConstant registration member
  simp only [worldRegistry, List.mem_cons, List.not_mem_nil, or_false] at member
  rcases member with rfl | rfl | rfl | rfl | rfl
  all_goals
    refine ⟨rfl, ?_, ?_, ?_, fun _ scope graph => by rw [idle]; rfl⟩
    all_goals
      rintro rule ⟨⟩
  · rfl
  all_goals
    rintro weight ⟨⟩

/-- Teams belong to organizations, but there are none yet. -/
def worldStart : World MemoryStore :=
  ⟨{ parentRelations := Std.ExtTreeMap.empty.insert "team" ["organization"] }, .empty⟩

/-- A user names the team and has a size. -/
def sampleMember (size : Amount) : Node where
  relations := Std.ExtTreeMap.empty.insert "team" sampleTeam
  attributes := Std.ExtTreeMap.empty.insert "size" size

/-- The second user is refused, and the first one leaves at the end. -/
def worldSteps : List Step :=
  [.create sampleOrganization {},
    .create sampleTeam { relations := Std.ExtTreeMap.empty.insert "organization" sampleOrganization },
    .create sampleUser (sampleMember 3), .create ⟨"user", "bob"⟩ (sampleMember 5),
    .setAttribute sampleUser "size" 7, .operate (.setLimit sampleTeam "storage" 25),
    .delete sampleUser]

def sampleWorld : World MemoryStore := worldSteps.foldl (World.advance worldRegistry) worldStart

/-- Each of the steps is legal, also the one that is refused. -/
theorem reachable_sampleWorld : sampleWorld.Reachable worldRegistry := by
  have start : worldStart.Reachable worldRegistry :=
    .start _ _ fun scope name => MemoryStore.lookup_empty scope name
  have founded := start.advance (.create sampleOrganization {}) (by decide +kernel)
  have divided := founded.advance (.create sampleTeam
    { relations := Std.ExtTreeMap.empty.insert "organization" sampleOrganization })
    (by decide +kernel)
  have joined := divided.advance (.create sampleUser (sampleMember 3)) (by decide +kernel)
  have refused := joined.advance (.create ⟨"user", "bob"⟩ (sampleMember 5)) (by decide +kernel)
  have resized := refused.advance (.setAttribute sampleUser "size" 7) (by decide +kernel)
  have limited := resized.advance (.operate (.setLimit sampleTeam "storage" 25))
    (by decide +kernel)
  exact limited.advance (.delete sampleUser) (by decide +kernel)

/-- After the run the organization sums the raised limit, and nothing is left to repair. -/
theorem recalculateAll_of_reachable_sample :
    sampleWorld.store.lookup sampleOrganization "storage" = some ⟨.unlimited, 25⟩ ∧
      ∃ report, (sampleWorld.engine worldRegistry).recalculateAll sampleWorld.store =
        .ok report sampleWorld.store ∧ report.isClean = true := by
  have raised : sampleWorld.store.lookup sampleOrganization "storage" = some ⟨.unlimited, 25⟩ := by
    decide +kernel
  exact ⟨raised, (World.recalculateAll_of_reachable regular_worldRegistry reachable_sampleWorld
    (by decide +kernel)).2⟩

end Sample

end HierarchicalQuota
