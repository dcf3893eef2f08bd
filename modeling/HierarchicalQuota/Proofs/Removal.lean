import HierarchicalQuota.Inventory.Layout
import HierarchicalQuota.Proofs.Initialization
import HierarchicalQuota.Proofs.Worlds
import Mathlib.Logic.Relation

namespace HierarchicalQuota

open HierarchicalQuota.Action (Ensures Yields)
open LawfulStore (lookup put drop)

variable {σ : Type} [QuotaStore σ] [LawfulStore σ]

/-- The records of a scope are untouched if the store answers for it as it did before. -/
def Untouched (scope : Entity) (before after : σ) : Prop :=
  ∀ name, lookup after scope name = lookup before scope name

/-- A write at another scope leaves the scope untouched. -/
theorem Untouched.put {scope place : Entity} {before after : σ}
    (untouched : Untouched scope before after) (other : place ≠ scope) (name : String)
    (quota : Quota) : Untouched scope before (put after place name quota) := by
  intro label
  rw [LawfulStore.lookup_put, if_neg fun same => other same.1]
  exact untouched label

/-- The removal of the records of another scope leaves the scope untouched. -/
theorem Untouched.drop {scope place : Entity} {before after : σ}
    (untouched : Untouched scope before after) (other : place ≠ scope) :
    Untouched scope before (drop after place) := by
  intro label
  rw [LawfulStore.lookup_drop, if_neg other]
  exact untouched label

namespace Engine

variable {engine : Engine} {fit : StoreCall → σ → Prop} {entity scope : Entity} {base : σ}

/-- An entity counts towards a scope if it targets a usage of the scope or of a scope below it. -/
def CountsTowards (engine : Engine) (entity scope : Entity) : Prop :=
  ∃ place name, engine.Targets entity place name ∧
    (place = scope ∨ engine.graph.Above place scope)

/-- The events of an entity concern the entity, what stands above it, and what it counts towards. It
can count towards a scope through relations that have outlived the scope. -/
def Concerns (engine : Engine) (entity scope : Entity) : Prop :=
  (entity = scope ∨ engine.graph.Above entity scope) ∨ engine.CountsTowards entity scope

/-- An entity that counts towards a child counts towards all scopes above it. -/
theorem CountsTowards.above {child : Entity} (counts : engine.CountsTowards entity child)
    (above : engine.graph.Above child scope) : engine.CountsTowards entity scope := by
  obtain ⟨place, name, targets, reaches⟩ := counts
  refine ⟨place, name, targets, .inr ?_⟩
  rcases reaches with rfl | below
  · exact above
  · exact below.trans above

/-- Where nothing but itself refers to a scope that is gone, no event of others concerns it. -/
theorem not_concerns_of_unreferenced
    (unreferenced : ∀ other relation, engine.graph.related other relation = some scope →
      other = scope) (absent : engine.graph.contains scope = false) (other : entity ≠ scope) :
    ¬ engine.Concerns entity scope := by
  have unrelated : ∀ start relation, engine.graph.related start relation ≠ some scope := by
    intro start relation related
    obtain rfl := unreferenced start relation related
    rw [Graph.contains_eq, Option.isSome_eq_false_iff, Option.isNone_iff_eq_none] at absent
    rw [Graph.related, absent] at related
    cases related
  have lowest : ∀ start, ¬ engine.graph.Above start scope := by
    intro start above
    obtain ⟨child, -, hop⟩ := Relation.TransGen.tail'_iff.1 above
    obtain ⟨relation, -, related⟩ := List.mem_filterMap.1 hop
    exact unrelated child relation related
  rintro ((same | above) | ⟨place, name, targets, same | above⟩)
  · exact other same
  · exact lowest entity above
  · obtain ⟨registration, -, kinds, path, -, resolved, -⟩ := targets
    obtain ⟨start, relation, related⟩ := Graph.exists_related_of_resolve resolved
    exact unrelated start relation (same ▸ related)
  · exact lowest place above

section Frame

/-- What spreads from scopes among which another one is not, and never leaves them upwards, does not
touch that one. -/
theorem spreads_untouched {active : Entity → Prop}
    (upwards : ∀ child above, active child → engine.graph.Above child above → active above)
    (outside : ¬ active scope) :
    engine.Spreads fit (fun child _ => active child) (Untouched scope base) := by
  have reaches : ∀ {aggregate}, engine.Meets (fun child _ => active child) aggregate →
      active aggregate.scope := by
    rintro aggregate ⟨child, quota, measure, below, listed⟩
    exact upwards _ _ below (aggregateAbove_of_mem listed).above
  have other : ∀ {aggregate}, engine.Meets (fun child _ => active child) aggregate →
      aggregate.scope ≠ scope := fun meets same => outside (same ▸ reaches meets)
  constructor
  · exact fun meets untouched _ _ => ⟨untouched.put (other meets) _ _, fun _ => reaches meets⟩
  · exact fun meets untouched _ _ => ⟨untouched.put (other meets) _ _, reaches meets⟩

/-- The counters and totals of an entity touch only scopes that it counts towards. -/
theorem ensures_applyTargetChange_untouched (elsewhere : ¬ engine.CountsTowards entity scope)
    (change : TargetChange) {store : σ} (untouched : Untouched scope base store) :
    Ensures fit (engine.applyTargetChange entity change) store fun _ after =>
      Untouched scope base after := by
  have spreads : engine.Spreads fit (fun child _ => engine.CountsTowards entity child)
      (Untouched scope base) :=
    spreads_untouched (fun _ _ counts above => counts.above above) elsewhere
  have applies {place : Entity} {name : String} (counts : engine.CountsTowards entity place)
      (delta : Amount) (validate : Bool) {store : σ} (untouched : Untouched scope base store) :
      Ensures fit (engine.applyDelta place name delta validate) store fun _ after =>
        Untouched scope base after :=
    ensures_applyDelta_kept spreads (fun _ => counts)
      (fun _ _ kept => kept.put (fun same => elsewhere (same ▸ counts)) _ _) delta validate untouched
  have logs : engine.Logs fit true ((engine.registry.targeting entity.kind).filterMap
      (engine.targetRequest? entity change)) (fun _ => True) fun changes later =>
        Untouched scope base later ∧
          ∀ change ∈ changes, engine.CountsTowards entity change.scope := by
    constructor
    · intro request changes store member logged
      have counts : engine.CountsTowards entity request.scope :=
        ⟨request.scope, request.name, targets_of_mem member, .inl rfl⟩
      refine (applies counts request.amount true logged.1).mono ?_
      rintro (error | amount) after kept
      · exact ⟨⟨kept, logged.2⟩, trivial⟩
      · exact ⟨kept, List.forall_mem_cons.2 ⟨counts, logged.2⟩⟩
    · intro change changes store logged
      obtain ⟨counts, others⟩ := List.forall_mem_cons.1 logged.2
      exact (applies counts (-change.amount) false logged.1).mono fun _ _ kept => ⟨kept, others⟩
  refine (ensures_applyAll_logged logs [] ⟨untouched, by simp⟩).mono ?_
  rintro (error | done) after logged
  · exact logged.1.1
  · obtain ⟨changes, kept, -⟩ := logged
    exact kept

variable (outside : ¬ engine.Concerns entity scope)

include outside

/-- What spreads from an entity that does not concern a scope leaves it untouched. -/
theorem spreads_of_not_concerns :
    engine.Spreads fit (fun child _ => entity = child ∨ engine.graph.Above entity child)
      (Untouched scope base) := by
  apply spreads_untouched
  · rintro child above (rfl | below) hop
    · exact .inr hop
    · exact .inr (below.trans hop)
  · exact fun reaches => outside (.inl reaches)

/-- The numbers of removed records are taken back above the entity alone. -/
theorem ensures_childDeleted_untouched {store : σ} (untouched : Untouched scope base store) :
    Ensures fit (engine.childDeleted entity) store fun _ after => Untouched scope base after :=
  (ensures_childDeleted_kept (spreads_of_not_concerns outside) (fun _ => .inl rfl)
    fun _ => untouched.drop fun same => outside (.inl (.inl same))).mono fun _ _ kept => kept.1

/-- An event leaves the records of all scopes alone that it does not concern, and it does so in every
graph and whether it is accepted or refused. -/
theorem ensures_handle_untouched {event : EntityEvent} (happens : event.entity = entity)
    (store : σ) :
    Ensures fit (engine.handle event) store fun _ after => Untouched scope store after := by
  subst happens
  have uncounted : ¬ engine.CountsTowards event.entity scope := fun counts => outside (.inr counts)
  have start : Untouched scope store store := fun _ => rfl
  cases event with
  | created entity =>
      by_cases isScope : engine.registry.isScopeKind entity.kind = true
      · refine ensures_entityCreated_of_steps isScope ((ensures_initializeFields_kept
          (spreads_of_not_concerns outside) entity _ (fun field _ middle untouched _ _ =>
            ⟨untouched.put (fun same => outside (.inl (.inl same))) _ _, .inl rfl⟩) start).mono ?_)
        rintro (error | count) middle ⟨untouched, -⟩
        · exact untouched
        refine (ensures_applyTargetChange_untouched uncounted .created untouched).mono ?_
        rintro (error | done) later kept
        · exact ensures_childDeleted_untouched outside kept
        · exact kept
      · exact ensures_entityCreated_of_not_isScope isScope
          (ensures_applyTargetChange_untouched uncounted .created start)
  | deleted entity =>
      refine Action.ensures_bind (fun _ => inferInstance)
        ((ensures_applyTargetChange_untouched uncounted .deleted start).mono ?_)
      rintro (error | done) middle untouched
      · exact untouched
      dsimp only
      split
      · exact ensures_childDeleted_untouched outside untouched
      · exact Action.ensures_pure untouched
  | attributeChanged entity name old new =>
      change Ensures fit (engine.attributeChanged entity name old new) store _
      unfold attributeChanged
      split
      · exact Action.ensures_pure start
      · exact ensures_applyTargetChange_untouched uncounted _ start

omit outside in
/-- An event that does not concern a scope leaves its records as they are. -/
theorem lookup_handle {event : EntityEvent} (outside : ¬ engine.Concerns event.entity scope)
    (store : σ) (name : String) :
    lookup (Action.after (engine.handle event) store) scope name = lookup store scope name := by
  have ensures : Ensures (fun _ _ => True) (engine.handle event) store _ :=
    ensures_handle_untouched outside rfl store
  exact ensures.of_allFit (RecordedStore.answersAlike.handle engine event) (fun _ _ => trivial) name

end Frame

/-- A deletion that succeeds removes all records of its scope. -/
theorem ensures_entityDeleted_removes (isScope : engine.registry.isScopeKind scope.kind = true)
    (acyclic : ¬ engine.graph.Above scope scope) (store : σ) :
    Ensures fit (engine.entityDeleted scope) store fun result after =>
      result = .ok ⟨⟩ → ∀ name, lookup after scope name = none := by
  have counted : Ensures fit (engine.applyTargetChange scope .deleted) store fun _ _ => True :=
    fun _ _ => trivial
  refine Action.ensures_bind (fun _ => inferInstance) (counted.mono ?_)
  intro result middle _
  cases result with
  | error error => exact nofun
  | ok done =>
      dsimp only
      rw [if_pos isScope]
      exact (ensures_childDeleted_removes acyclic middle).mono fun _ _ removed _ => removed

/-- A scope that had no records starts with the defaults, unless it counts towards itself. -/
theorem ensures_entityCreated_begins (isScope : engine.registry.isScopeKind scope.kind = true)
    (acyclic : ¬ engine.graph.Above scope scope) (uncounted : ¬ engine.CountsTowards scope scope)
    {store : σ} (absent : ∀ name, lookup store scope name = none) :
    Ensures fit (engine.entityCreated scope) store fun result after =>
      result = .ok ⟨⟩ → ∀ field ∈ engine.registry.fields scope.kind,
        field.isConnected scope engine.graph = true →
        ∃ quota, lookup after scope field.name = some quota ∧ engine.Begins scope field quota := by
  refine ensures_entityCreated_of_steps isScope
    ((ensures_initializeScope_fresh acyclic absent).mono ?_)
  intro result middle fresh
  cases result with
  | error error => exact nofun
  | ok count =>
      have start : Untouched scope middle middle := fun _ => rfl
      refine (ensures_applyTargetChange_untouched uncounted .created start).mono ?_
      intro result later untouched
      cases result with
      | error error => exact fun _ _ => nofun
      | ok done =>
          intro _ field registered connected
          rw [untouched]
          exact fresh count rfl field registered connected

end Engine

namespace World

variable {registry : Registry} {world later : World σ} {scope : Entity}

/-- A step that reports an event of another entity does not concern a scope if its event does not. -/
def Unconcerned (registry : Registry) (scope : Entity) (world : World σ) (step : Step) : Prop :=
  ∃ entity, step.entity? = some entity ∧ ¬ (step.engine registry world.graph).Concerns entity scope

/-- A run whose steps do not concern a scope leaves its records as they are. -/
theorem untouched_of_follows
    (run : Relation.ReflTransGen (Follows registry (Unconcerned registry scope)) world later) :
    Untouched scope world.store later.store := by
  induction run with
  | refl => exact fun _ => rfl
  | tail _ last inductionHypothesis =>
      obtain ⟨step, ⟨entity, reports, outside⟩, rfl⟩ := last
      obtain ⟨event, rfl, same⟩ := Step.action_of_entity? reports registry _
      intro name
      rw [advance, same σ, Engine.lookup_handle outside]
      exact inductionHypothesis name

/-- The records of a deleted scope stay away as long as no event concerns it, and if it is created
again then, it starts from its defaults. -/
theorem records_of_deleted (isScope : registry.isScopeKind scope.kind = true)
    (acyclic : ¬ world.graph.Above scope scope)
    (deleted : Action.outcome ((Step.delete scope).action registry world.graph) world.store = .ok ⟨⟩)
    (run : Relation.ReflTransGen (Follows registry (Unconcerned registry scope))
      (world.advance registry (.delete scope)) later) :
    (∀ name, lookup later.store scope name = none) ∧
      ∀ node : Node,
        let engine : Engine := ⟨registry, later.graph.insert scope node⟩
        ¬ engine.graph.Above scope scope → ¬ engine.CountsTowards scope scope →
        Action.outcome (engine.handle (.created scope)) later.store = .ok ⟨⟩ →
        ∀ field ∈ registry.fields scope.kind, field.isConnected scope engine.graph = true →
          ∃ quota, lookup (Action.after (engine.handle (.created scope)) later.store) scope
              field.name = some quota ∧ engine.Begins scope field quota := by
  have removed : ∀ name, lookup (world.advance registry (.delete scope)).store scope name = none := by
    have ensures : Ensures (fun _ _ => True)
        ((world.engine registry).entityDeleted scope) world.store _ :=
      Engine.ensures_entityDeleted_removes isScope acyclic world.store
    exact ensures.of_allFit (RecordedStore.answersAlike.entityDeleted (world.engine registry) scope)
      (fun _ _ => trivial) deleted
  have absent : ∀ name, lookup later.store scope name = none :=
    fun name => (untouched_of_follows run name).trans (removed name)
  refine ⟨absent, ?_⟩
  intro node engine acyclicAgain uncounted created
  have ensures : Ensures (fun _ _ => True) (engine.entityCreated scope) later.store _ :=
    Engine.ensures_entityCreated_begins isScope acyclicAgain uncounted absent
  exact ensures.of_allFit (RecordedStore.answersAlike.entityCreated engine scope)
    (fun _ _ => trivial) created

end World

section Sample

def inventoryStart : World MemoryStore := ⟨Layout.emptyGraph, .empty⟩

def sampleCustomer : Entity := ⟨"customer", "acme"⟩

/-- The project belongs to the customer, and the volume to the project. -/
def sampleProject : Entity := ⟨"project", "web"⟩

def sampleVolume : Entity := ⟨"volume", "disk"⟩

/-- A project names its customer. -/
def ofCustomer : Node := { relations := Std.ExtTreeMap.empty.insert "customer" sampleCustomer }

/-- A volume names its project and has a size. -/
def ofProject (size : Amount) : Node where
  relations := Std.ExtTreeMap.empty.insert "project" sampleProject
  attributes := Std.ExtTreeMap.empty.insert "size" size

/-- The customer is created first, and then the project. -/
def projectWorld : World MemoryStore :=
  (inventoryStart.advance Layout.registry (.create sampleCustomer {})).advance Layout.registry
    (.create sampleProject ofCustomer)

/-- Another project of the same customer does not bring the deleted one back. -/
theorem records_of_deleted_sample :
    ((projectWorld.advance Layout.registry (.delete sampleProject)).advance Layout.registry
      (.create ⟨"project", "shop"⟩ ofCustomer)).store.lookup sampleProject "storage" = none := by
  have shallow : projectWorld.graph.Shallow := by decide +kernel
  have deleted : Action.outcome ((Step.delete sampleProject).action Layout.registry
      projectWorld.graph) projectWorld.store = .ok ⟨⟩ := by decide +kernel
  have outside : World.Unconcerned Layout.registry sampleProject
      (projectWorld.advance Layout.registry (.delete sampleProject))
      (.create ⟨"project", "shop"⟩ ofCustomer) :=
    ⟨⟨"project", "shop"⟩, rfl, Engine.not_concerns_of_unreferenced (by decide +kernel)
      (by decide +kernel) (by decide)⟩
  exact (World.records_of_deleted rfl (shallow.not_above_self sampleProject) deleted
    (.single ⟨_, outside, rfl⟩)).1 "storage"

/-- The volume is still related to its project, which has been deleted. -/
def orphanedWorld : World MemoryStore :=
  (projectWorld.advance Layout.registry (.create sampleVolume (ofProject 3))).advance Layout.registry
    (.delete sampleProject)

/-- So an event of another entity can bring a record of a deleted scope back. -/
theorem deleted_returns :
    ¬ ∀ (world later : World MemoryStore) (scope : Entity),
      Relation.ReflTransGen (World.Follows Layout.registry fun world step =>
        world.Succeeds Layout.registry step ∧ (step.graph world.graph).Shallow)
        inventoryStart world →
      Layout.registry.isScopeKind scope.kind = true →
      world.Succeeds Layout.registry (.delete scope) →
      Relation.ReflTransGen (World.Follows Layout.registry fun world step =>
        world.Succeeds Layout.registry step ∧ (step.graph world.graph).Shallow ∧
          step.entity? ≠ some scope)
        (world.advance Layout.registry (.delete scope)) later →
      ∀ name, later.store.lookup scope name = none := by
  intro claimed
  have gone := claimed (projectWorld.advance Layout.registry (.create sampleVolume (ofProject 3)))
    (orphanedWorld.advance Layout.registry (.setAttribute sampleVolume "size" 5)) sampleProject
    (((Relation.ReflTransGen.refl.tail ⟨.create sampleCustomer {}, by decide +kernel, rfl⟩).tail
      ⟨.create sampleProject ofCustomer, by decide +kernel, rfl⟩).tail
        ⟨.create sampleVolume (ofProject 3), by decide +kernel, rfl⟩)
    (by decide) (by decide +kernel)
    (.single ⟨.setAttribute sampleVolume "size" 5, by decide +kernel, rfl⟩) "storage"
  have returned : (orphanedWorld.advance Layout.registry
      (.setAttribute sampleVolume "size" 5)).store.lookup sampleProject "storage" =
        some ⟨.unlimited, 2⟩ := by decide +kernel
  rw [returned] at gone
  cases gone

end Sample

end HierarchicalQuota
