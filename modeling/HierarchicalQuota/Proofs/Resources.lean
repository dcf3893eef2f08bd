import HierarchicalQuota.Proofs.Counters
import HierarchicalQuota.Proofs.Layout
import HierarchicalQuota.Proofs.Removal

namespace HierarchicalQuota

open HierarchicalQuota.Action (Ensures)
open LawfulStore (lookup)

variable {σ : Type} [QuotaStore σ] [LawfulStore σ] {registry : Registry}

/-- A step leaves the targets of a path alone if all of them, except for the entity of the step, lead
to where they led before, and if no scope is lost to which one of them leads. -/
def Step.LeavesTargets (step : Step) (kinds : List String) (path : RelationPath) (graph : Graph) :
    Prop :=
  ∀ kind ∈ kinds, ∀ target ∈ graph.instances kind, step.entity? ≠ some target →
    (step.accepted graph).resolve target path = graph.resolve target path ∧
      ∀ scope ∈ graph.resolve target path, graph.contains scope = true →
        (step.accepted graph).contains scope = true

/-- It is enough to look at the targets of the graph before and after the step. -/
instance (step : Step) (kinds : List String) (path : RelationPath) (graph : Graph) :
    Decidable (step.LeavesTargets kinds path graph) :=
  inferInstanceAs (Decidable (∀ kind ∈ kinds, ∀ target ∈ graph.instances kind, _))

/-- A counter has targets. -/
theorem Field.isSome_targets?_of_counter {field : Field} {rule : CounterRule}
    (isRule : field.rule = .counter rule) : field.targets?.isSome := by
  rw [Field.targets?, isRule]
  rfl

namespace World

/-- A field counts in a world if it reads the total of its targets for every scope of its kind, and
is stored for those that exist. -/
def Counts (kind : String) (field : Field) (world : World σ) : Prop :=
  ∀ scope : Entity, scope.kind = kind → ReadsAs scope field.name
    (world.graph.contains scope = true) (field.weightTotal scope world.graph) world.store

/-- A step is orderly for a counter if it succeeds, leaves all other targets alone, and keeps the
counted totals within the range of amounts. -/
structure Orderly (registry : Registry) (kind : String) (field : Field) (world : World σ)
    (step : Step) : Prop where
  succeeds : world.Succeeds registry step
  leaves : ∀ kinds path, field.targets? = some (kinds, path) →
    step.LeavesTargets kinds path world.graph
  fits : ∀ scope : Entity, scope.kind = kind →
    field.weightTotal scope (step.accepted world.graph) ≤ 9223372036854775807

variable {kind : String} {field : Field} {rule : CounterRule} {world : World σ} {step : Step}

omit [LawfulStore σ] in
/-- An orderly step moves the path of no target but its own. -/
theorem Orderly.keepsTargets (orderly : world.Orderly registry kind field step) {entity : Entity}
    (reports : step.entity? = some entity) :
    field.KeepsTargets entity world.graph (step.accepted world.graph) := by
  intro kinds path targets other listed target member different
  refine (orderly.leaves kinds path targets other listed target member ?_).1
  rw [reports]
  exact fun same => different (Option.some.inj same).symm

omit [LawfulStore σ] in
/-- No target leads to an entity that an orderly step deletes. -/
theorem weightTotal_of_deleted {entity : Entity}
    (orderly : world.Orderly registry kind field (.delete entity)) :
    field.weightTotal entity (world.graph.remove entity) = 0 := by
  unfold Field.weightTotal
  cases targets : field.targets? with
  | none => rfl
  | some rule =>
      obtain ⟨kinds, path⟩ := rule
      apply sum_map_eq_zero
      intro target member
      obtain ⟨other, listed, references⟩ := List.mem_flatMap.1 member
      obtain ⟨inside, sameKind, resolved⟩ := Graph.mem_referencing.1 references
      obtain ⟨different, present⟩ := (Graph.contains_remove target).1 inside
      obtain ⟨same, kept⟩ := orderly.leaves kinds path targets other listed target
        (Graph.mem_instances.2 ⟨present, sameKind⟩) fun own => different (Option.some.inj own)
      have lost : (world.graph.remove entity).contains entity = true :=
        kept entity (same.symm.trans resolved) orderly.succeeds.lifecycle
      rw [Graph.contains_remove_self] at lost
      cases lost

section Advance

variable (regular : registry.Regular) (registered : field ∈ registry.fields kind)
  (isRule : field.rule = .counter rule) (counts : world.Counts kind field)

include regular registered isRule counts

/-- A new entity is counted where its path leads, and everything else is counted as before. -/
theorem Counts.created {entity : Entity} {node : Node}
    (orderly : world.Orderly registry kind field (.create entity node)) :
    (world.advance registry (.create entity node)).Counts kind field := by
  intro scope isKind
  subst isKind
  have isRegular := regular.of_mem_fields registered
  have heavy {graph : Graph} (target : Entity) : 0 ≤ (field.weight target graph).value :=
    isRegular.weight_nonneg_of_counter isRule target
  have floor : 0 ≤ field.weightTotal scope world.graph := Field.weightTotal_nonneg heavy scope
  have weight : 0 ≤ field.contribution scope (world.graph.insert entity node) entity
      (field.weight entity (world.graph.insert entity node)).value :=
    field.contribution_nonneg scope _ entity (heavy entity)
  have total := isRegular.weightTotal_insert orderly.succeeds.lifecycle (orderly.keepsTargets rfl)
    scope
  have fits : field.weightTotal scope (world.graph.insert entity node) ≤ 9223372036854775807 :=
    orderly.fits scope rfl
  have accepted := orderly.succeeds.accepted
  have adds : Ensures (fun _ _ => True)
      ((⟨registry, world.graph.insert entity node⟩ : Engine).entityCreated entity) world.store _ :=
    Engine.ensures_entityCreated_reads regular registered (Field.isSome_targets?_of_counter isRule) floor
      (by dsimp only; omega) (counts scope rfl)
  have reads := adds.of_allFit (RecordedStore.answersAlike.entityCreated _ entity)
    (fun _ _ => trivial) accepted
  rw [advance_of_ok accepted]
  refine ⟨fun present => reads.present ?_, reads.number.trans ?_⟩
  · exact ((Graph.contains_insert scope).1 present).imp_left Eq.symm
  · rw [add_comm]
    exact total.symm

/-- A deleted entity is counted no more, and nothing is counted for a deleted scope. -/
theorem Counts.deleted {entity : Entity}
    (orderly : world.Orderly registry kind field (.delete entity)) :
    (world.advance registry (.delete entity)).Counts kind field := by
  intro scope isKind
  subst isKind
  have isRegular := regular.of_mem_fields registered
  have heavy {graph : Graph} (target : Entity) : 0 ≤ (field.weight target graph).value :=
    isRegular.weight_nonneg_of_counter isRule target
  have rest : 0 ≤ field.weightTotal scope (world.graph.remove entity) :=
    Field.weightTotal_nonneg heavy scope
  have total := isRegular.weightTotal_remove orderly.succeeds.lifecycle (orderly.keepsTargets rfl)
    scope
  have accepted := orderly.succeeds.accepted
  have takes : Ensures (fun _ _ => True)
      ((⟨registry, world.graph⟩ : Engine).entityDeleted entity) world.store _ :=
    Engine.ensures_entityDeleted_reads regular registered (Field.isSome_targets?_of_counter isRule)
      (Field.weightTotal_nonneg heavy scope) (heavy entity)
      (by dsimp only [Step.accepted] at total ⊢; omega) (counts scope rfl)
  have reads := takes.of_allFit (RecordedStore.answersAlike.entityDeleted _ entity)
    (fun _ _ => trivial) accepted
  rw [advance_of_ok accepted]
  refine ⟨fun present => reads.present ?_, reads.number.trans ?_⟩
  · obtain ⟨different, earlier⟩ := (Graph.contains_remove scope).1 present
    exact ⟨earlier, different.symm⟩
  · split
    · rename_i own
      rw [own]
      exact (weightTotal_of_deleted orderly).symm
    · dsimp only [Step.accepted]
      omega

/-- Attributes are not counted. -/
theorem Counts.attributeSet {entity : Entity} {name : String} {value : Amount}
    (orderly : world.Orderly registry kind field (.setAttribute entity name value)) :
    (world.advance registry (.setAttribute entity name value)).Counts kind field := by
  intro scope isKind
  subst isKind
  have isRegular := regular.of_mem_fields registered
  have untracked : field.trackedAttribute? = none := by rw [Field.trackedAttribute?, isRule]
  have same : field.weightTotal scope (world.graph.setAttribute entity name value) =
      field.weightTotal scope world.graph := by
    apply Field.weightTotal_congr Graph.perm_referencing_setAttribute
    intro target
    apply isRegular.weight_congr
    rw [untracked]
    intro name tracked
    cases tracked
  have accepted := orderly.succeeds.accepted
  have keeps : Ensures (fun _ _ => True)
      ((Step.setAttribute entity name value).action registry world.graph) world.store _ :=
    Engine.ensures_attributeChanged_reads regular registered (Field.isSome_targets?_of_counter isRule)
      (Field.weightTotal_nonneg (isRegular.weight_nonneg_of_counter isRule) scope)
      (by rw [untracked]; simp) _ value (counts scope rfl)
  have reads := keeps.of_allFit (RecordedStore.answersAlike.handle _ (.attributeChanged entity name _
    value)) (fun _ _ => trivial) accepted
  rw [advance_of_ok accepted]
  refine ⟨fun present => reads.present ?_, reads.number.trans same.symm⟩
  exact (Graph.contains_setAttribute scope).symm.trans present

/-- An orderly step keeps the count. -/
theorem Counts.advance (orderly : world.Orderly registry kind field step) :
    (world.advance registry step).Counts kind field := by
  cases step with
  | create entity node => exact counts.created regular registered isRule orderly
  | delete entity => exact counts.deleted regular registered isRule orderly
  | setAttribute entity name value => exact counts.attributeSet regular registered isRule orderly
  | operate operation => cases orderly.succeeds.lifecycle

end Advance

/-- In an empty graph nothing is counted, and in an empty store nothing is stored. -/
theorem counts_start (relations : Table String (List String)) {store : σ}
    (empty : ∀ scope name, lookup store scope name = none) (kind : String) (field : Field) :
    Counts kind field ⟨{ parentRelations := relations }, store⟩ := by
  intro scope _
  have absent := contains_start relations scope
  have closed : ({ parentRelations := relations } : Graph).Closed := by
    intro entity relation other related
    cases (related_start relations entity relation).symm.trans related
  constructor
  · intro present
    cases absent.symm.trans present
  · rw [reading_of_none (empty scope field.name), Field.weightTotal_of_absent closed absent]

/-- A run of orderly steps keeps the count. -/
theorem counts_of_follows (regular : registry.Regular) (registered : field ∈ registry.fields kind)
    (isRule : field.rule = .counter rule) {later : World σ} (counts : world.Counts kind field)
    (run : Relation.ReflTransGen (Follows registry (Orderly registry kind field)) world later) :
    later.Counts kind field := by
  induction run with
  | refl => exact counts
  | tail _ last inductionHypothesis =>
      obtain ⟨step, orderly, rfl⟩ := last
      exact inductionHypothesis.advance regular registered isRule orderly

omit [LawfulStore σ] in
/-- The quota parents of a kind are given by the same relations throughout a run. -/
theorem parentRelations_advance :
    (world.advance registry step).graph.parentRelations = world.graph.parentRelations := by
  unfold advance
  cases Action.outcome (step.action registry world.graph) world.store <;> cases step <;> rfl

omit [LawfulStore σ] in
/-- No step changes which relations lead to quota parents. -/
theorem parentRelations_of_follows {condition : World σ → Step → Prop} {later : World σ}
    (run : Relation.ReflTransGen (Follows registry condition) world later) :
    later.graph.parentRelations = world.graph.parentRelations := by
  induction run with
  | refl => rfl
  | tail _ last inductionHypothesis =>
      obtain ⟨step, -, rfl⟩ := last
      exact parentRelations_advance.trans inductionHypothesis

/-- A step counts resources in order if it succeeds, moves the path of no other vm or volume and
deletes no customer that one of them belongs to, and if there are not more of them than an amount
can tell. -/
structure CountsResources (world : World σ) (step : Step) : Prop where
  succeeds : world.Succeeds Layout.registry step
  leaves : step.LeavesTargets Layout.resourceKinds Layout.toProjectCustomer world.graph
  fits : (Layout.resources (step.accepted world.graph)).length ≤ 9223372036854775807

omit [LawfulStore σ] in
/-- Whether a step counts resources can be seen from the graph and the outcome. -/
theorem countsResources_iff {world : World σ} {step : Step} :
    world.CountsResources step ↔ world.Succeeds Layout.registry step ∧
      step.LeavesTargets Layout.resourceKinds Layout.toProjectCustomer world.graph ∧
      (Layout.resources (step.accepted world.graph)).length ≤ 9223372036854775807 :=
  ⟨fun counts => ⟨counts.succeeds, counts.leaves, counts.fits⟩,
    fun ⟨succeeds, leaves, fits⟩ => ⟨succeeds, leaves, fits⟩⟩

instance (world : World σ) (step : Step) : Decidable (world.CountsResources step) :=
  decidable_of_iff _ countsResources_iff.symm

omit [LawfulStore σ] in
/-- A step that counts resources is orderly for their counter. -/
theorem CountsResources.orderly {world : World σ} {step : Step}
    (counts : world.CountsResources step) :
    world.Orderly Layout.registry Layout.customer Layout.resourceCount step where
  succeeds := counts.succeeds
  leaves := by
    rintro kinds path ⟨⟩
    exact counts.leaves
  fits scope _ := by
    have part := Layout.length_resourcesOf_le (step.accepted world.graph) scope
    have whole := counts.fits
    rw [Layout.weightTotal_resourceCount]
    omega

/-- Every customer has the number of its vms and volumes as long as no step takes a project away
from under them, and a recalculation finds the same number. -/
theorem resources_of_follows {store : σ} (empty : ∀ scope name, lookup store scope name = none)
    {world : World σ}
    (run : Relation.ReflTransGen (Follows Layout.registry CountsResources)
      ⟨Layout.emptyGraph, store⟩ world) :
    ∀ customer ∈ world.graph.instances Layout.customer, ∃ quota,
      lookup world.store customer "nc_resource_count" = some quota ∧
      quota.usage.value = (Layout.resourcesOf world.graph customer).length ∧
      ∀ report after,
        (world.engine Layout.registry).recalculateAll world.store = .ok report after →
        storedUsage? after customer "nc_resource_count" = some quota.usage := by
  intro customer member
  obtain ⟨present, isCustomer⟩ := Graph.mem_instances.1 member
  have registered : Layout.resourceCount ∈ Layout.registry.fields customer.kind :=
    isCustomer ▸ Layout.resourceCount_mem
  have orderly : ∀ before after : World σ, Follows Layout.registry CountsResources before after →
      Follows Layout.registry (Orderly Layout.registry customer.kind Layout.resourceCount) before
        after := by
    intro before after ⟨step, counted, isAfter⟩
    exact ⟨step, isCustomer ▸ counted.orderly, isAfter⟩
  have reads := counts_of_follows Layout.regular_registry registered rfl
    (counts_start _ empty customer.kind Layout.resourceCount)
    (Relation.ReflTransGen.mono orderly _ _ run) customer rfl
  rw [Layout.weightTotal_resourceCount] at reads
  obtain ⟨quota, found⟩ := lookup_of_stored (reads.present present)
  have number : quota.usage.value = (Layout.resourcesOf world.graph customer).length :=
    (reading_eq found).symm.trans reads.number
  refine ⟨quota, found, number, ?_⟩
  intro report after recalculated
  apply Layout.storedUsage?_of_recalculateAll (parentRelations_of_follows run) recalculated present
    registered
  rw [Layout.expectedUsage?_resourceCount]
  congr 1
  apply Amount.ext
  rw [number, Field.value_count reads.le]

end World

section Sample

/-- A customer has a vm and a volume in one project. -/
def resourceWorld : World MemoryStore :=
  (projectWorld.advance Layout.registry (.create sampleVolume (ofProject 3))).advance
    Layout.registry (.create ⟨"vm", "app"⟩ (ofProject 1))

/-- After the volume is gone, the customer has one resource left. -/
theorem resources_of_follows_sample :
    ∃ quota, (resourceWorld.advance Layout.registry (.delete sampleVolume)).store.lookup
      sampleCustomer "nc_resource_count" = some quota ∧ quota.usage = 1 := by
  have run : Relation.ReflTransGen (World.Follows Layout.registry World.CountsResources)
      inventoryStart (resourceWorld.advance Layout.registry (.delete sampleVolume)) :=
    ((((Relation.ReflTransGen.refl.tail ⟨.create sampleCustomer {}, by decide +kernel, rfl⟩).tail
      ⟨.create sampleProject ofCustomer, by decide +kernel, rfl⟩).tail
        ⟨.create sampleVolume (ofProject 3), by decide +kernel, rfl⟩).tail
          ⟨.create ⟨"vm", "app"⟩ (ofProject 1), by decide +kernel, rfl⟩).tail
            ⟨.delete sampleVolume, by decide +kernel, rfl⟩
  obtain ⟨quota, found, number, -⟩ := World.resources_of_follows MemoryStore.lookup_empty run
    sampleCustomer (by decide +kernel)
  have one : (Layout.resourcesOf (resourceWorld.advance Layout.registry
      (.delete sampleVolume)).graph sampleCustomer).length = 1 := by decide +kernel
  rw [one] at number
  exact ⟨quota, found, Amount.ext number⟩

/-- A deleted project takes its volume away from the customer, but the customer still counts it. -/
theorem resources_outlive_project :
    ¬ ∀ world : World MemoryStore,
      Relation.ReflTransGen (World.Follows Layout.registry (World.Succeeds Layout.registry))
        inventoryStart world →
      ∀ customer ∈ world.graph.instances Layout.customer, ∃ quota,
        world.store.lookup customer "nc_resource_count" = some quota ∧
        quota.usage.value = (Layout.resourcesOf world.graph customer).length := by
  intro claimed
  obtain ⟨quota, found, number⟩ := claimed orphanedWorld
    ((((Relation.ReflTransGen.refl.tail ⟨.create sampleCustomer {}, by decide +kernel, rfl⟩).tail
      ⟨.create sampleProject ofCustomer, by decide +kernel, rfl⟩).tail
        ⟨.create sampleVolume (ofProject 3), by decide +kernel, rfl⟩).tail
          ⟨.delete sampleProject, by decide +kernel, rfl⟩)
    sampleCustomer (by decide +kernel)
  have counted : orphanedWorld.store.lookup sampleCustomer "nc_resource_count" =
      some ⟨.unlimited, 1⟩ := by decide +kernel
  have none : (Layout.resourcesOf orphanedWorld.graph sampleCustomer).length = 0 := by
    decide +kernel
  rw [counted] at found
  rw [none, ← Option.some.inj found] at number
  cases number

end Sample

end HierarchicalQuota
