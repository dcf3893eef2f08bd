import HierarchicalQuota.Proofs.Recalculation

namespace HierarchicalQuota

namespace Graph

variable {graph : Graph}

/-- A scope leads to a cycle if it or a scope above it is above itself. -/
def LeadsToCycle (graph : Graph) (scope : Entity) : Prop :=
  ∃ looped, (looped = scope ∨ graph.Above scope looped) ∧ graph.Above looped looped

/-- What is ranked does not lead to a cycle, since the ranks fall on the way up. -/
theorem Ranked.not_leadsToCycle {known : Table Entity Nat} (ranked : graph.Ranked known)
    {scope : Entity} {depth : Nat} (found : known[scope]? = some depth) :
    ¬ graph.LeadsToCycle scope := by
  rintro ⟨looped, same | above, around⟩
  · rw [same] at around
    exact ranked.not_above_self found around
  · obtain ⟨less, lessFound, -⟩ := ranked.above above found
    exact ranked.not_above_self lessFound around

section Failure

variable {α β : Type}

/-- A result fails in the hierarchy if its error can only be that this is too deep. -/
def FailsInHierarchy (result : Except QuotaError α) : Prop :=
  ∀ error, result = .error error → ∃ deep, error = .hierarchyTooDeep deep

theorem failsInHierarchy_ok (value : α) : FailsInHierarchy (.ok value : Except QuotaError α) := by
  rintro error ⟨⟩

theorem failsInHierarchy_tooDeep (deep : Entity) :
    FailsInHierarchy (.error (.hierarchyTooDeep deep) : Except QuotaError α) := by
  rintro error ⟨⟩
  exact ⟨deep, rfl⟩

/-- A sequence fails in the hierarchy if both of its parts can fail in no other way. -/
theorem FailsInHierarchy.bind {result : Except QuotaError α} {next : α → Except QuotaError β}
    (first : FailsInHierarchy result) (rest : ∀ value, FailsInHierarchy (next value)) :
    FailsInHierarchy (result >>= next) := by
  cases result with
  | ok value => exact rest value
  | error cause =>
      intro error failed
      cases failed
      exact first cause rfl

/-- A loop without a store fails in the hierarchy if each of its steps does. -/
theorem failsInHierarchy_foldlM {step : β → α → Except QuotaError β}
    (steps : ∀ value item, FailsInHierarchy (step value item)) (items : List α) (value : β) :
    FailsInHierarchy (items.foldlM step value) := by
  induction items generalizing value with
  | nil => exact failsInHierarchy_ok value
  | cons item items inductionHypothesis =>
      rw [List.foldlM_cons]
      exact (steps value item).bind inductionHypothesis

/-- A search fails only where it is too deep. -/
theorem failsInHierarchy_depth (levels : Nat) (scope : Entity) (known : Table Entity Nat) :
    FailsInHierarchy (graph.depth levels scope known) := by
  induction levels generalizing scope known with
  | zero =>
      unfold Graph.depth
      cases known[scope]? with
      | some depth => exact failsInHierarchy_ok (depth, known)
      | none => exact failsInHierarchy_tooDeep scope
  | succ levels inductionHypothesis =>
      have deepens (found : Nat × Table Entity Nat) (parent : Entity) :
          FailsInHierarchy (graph.deepen levels found parent) :=
        (inductionHypothesis parent found.2).bind fun _ => failsInHierarchy_ok _
      rw [depth_succ]
      cases known[scope]? with
      | some depth => exact failsInHierarchy_ok (depth, known)
      | none => exact (failsInHierarchy_foldlM deepens _ _).bind fun _ => failsInHierarchy_ok _

/-- No search for depths fails except where the hierarchy is too deep. -/
theorem failsInHierarchy_depths (scopes : List Entity) (known : Table Entity Nat) :
    FailsInHierarchy (graph.depths scopes known) := by
  induction scopes generalizing known with
  | nil => exact failsInHierarchy_ok []
  | cons scope scopes inductionHypothesis =>
      exact (failsInHierarchy_depth maxHierarchyDepth scope known).bind fun found =>
        (inductionHypothesis found.2).bind fun _ => failsInHierarchy_ok _

end Failure

/-- No depths are found for scopes one of which leads to a cycle. -/
theorem depths_of_leadsToCycle {scopes : List Entity} {scope : Entity} (member : scope ∈ scopes)
    (leads : graph.LeadsToCycle scope) :
    ∃ deep, graph.depths scopes ∅ = .error (.hierarchyTooDeep deep) := by
  cases run : graph.depths scopes ∅ with
  | error error =>
      obtain ⟨deep, rfl⟩ := failsInHierarchy_depths scopes ∅ error run
      exact ⟨deep, rfl⟩
  | ok entries =>
      obtain ⟨sameScopes, table, ranked, -, listed⟩ :=
        ranked_of_depths scopes ∅ entries graph.ranked_empty run
      rw [← sameScopes] at member
      obtain ⟨entry, inEntries, rfl⟩ := List.mem_map.1 member
      exact absurd leads (ranked.not_leadsToCycle (listed entry inEntries))

end Graph

namespace Action

variable {σ α β : Type}

/-- An action fails in the store if every error of it is one of the store. -/
def FailsInStore (action : Action σ α) : Prop :=
  ∀ store error, outcome action store = .error error → ∃ cause, error = .storage cause

theorem failsInStore_pure (value : α) : FailsInStore (pure value : Action σ α) := by
  rintro store error ⟨⟩

/-- An access has no errors but those of the store. -/
theorem failsInStore_access (request : StoreAccess σ α) : FailsInStore (access request) := by
  intro store error failed
  rw [outcome_access] at failed
  cases found : outcome request store with
  | ok value =>
      rw [found] at failed
      cases failed
  | error cause =>
      rw [found] at failed
      cases failed
      exact ⟨cause, rfl⟩

/-- A sequence fails in the store if both of its parts can fail in no other way. -/
theorem FailsInStore.bind {action : Action σ α} {next : α → Action σ β}
    (first : FailsInStore action) (rest : ∀ value, FailsInStore (next value)) :
    FailsInStore (action >>= next) := by
  intro store error failed
  rw [outcome_bind] at failed
  cases found : outcome action store with
  | ok value =>
      rw [found] at failed
      exact rest value _ error failed
  | error cause =>
      rw [found] at failed
      cases failed
      exact first store error found

/-- Dropping the value of an action adds no errors. -/
theorem FailsInStore.discard {action : Action σ α} (first : FailsInStore action) :
    FailsInStore (discard action) := by
  rw [discard_eq_bind]
  exact first.bind fun _ => failsInStore_pure _

end Action

namespace Engine

open HierarchicalQuota.Action

variable {σ : Type} [QuotaStore σ] (engine : Engine)

section Failure

variable (scope : Entity) (field : Field)

/-- Children are summed by reads of the store alone. -/
theorem failsInStore_sumOver (quota : String) (measure : Measure) (children : List Entity)
    (sum : Amount) : FailsInStore (sumOver (σ := σ) quota measure children sum) := by
  induction children generalizing sum with
  | nil => exact failsInStore_pure sum
  | cons child children inductionHypothesis =>
      refine (failsInStore_access _).bind fun found => ?_
      cases found with
      | some record => exact inductionHypothesis _
      | none => exact inductionHypothesis _

/-- The true usage fails only where a child cannot be read. -/
theorem failsInStore_trueUsage : FailsInStore (engine.trueUsage? (σ := σ) scope field) := by
  unfold trueUsage?
  cases field.rule with
  | direct => exact failsInStore_pure _
  | counter rule => exact failsInStore_pure _
  | total rule => exact failsInStore_pure _
  | aggregator rule =>
      refine FailsInStore.bind ?_ fun usage => failsInStore_pure _
      unfold sumChildren
      split
      · exact failsInStore_sumOver _ _ _ _
      · exact failsInStore_pure _

/-- The repair of a record can only fail at one of its accesses. -/
theorem failsInStore_recalculateField (report : Report) :
    FailsInStore (engine.recalculateField (σ := σ) scope field report) := by
  refine (failsInStore_access _).bind fun made => ?_
  refine (failsInStore_trueUsage engine scope field).bind fun usage => ?_
  cases usage with
  | none => exact failsInStore_pure _
  | some usage =>
      dsimp only
      split
      · exact failsInStore_pure _
      · exact (failsInStore_access _).discard.bind fun _ => failsInStore_pure _

/-- The fields of a scope are repaired unless the store fails. -/
theorem failsInStore_recalculateFields (fields : List Field) (report : Report) :
    FailsInStore (engine.recalculateFields (σ := σ) scope fields report) := by
  induction fields generalizing report with
  | nil => exact failsInStore_pure report
  | cons field fields inductionHypothesis =>
      unfold recalculateFields
      split
      · exact (failsInStore_recalculateField engine scope field report).bind inductionHypothesis
      · exact inductionHypothesis report

/-- Once the depths are found, a recalculation fails only if the store does. -/
theorem failsInStore_recalculateScopes (scopes : List Entity) (report : Report) :
    FailsInStore (engine.recalculateScopes (σ := σ) scopes report) := by
  induction scopes generalizing report with
  | nil => exact failsInStore_pure report
  | cons scope scopes inductionHypothesis =>
      exact (failsInStore_recalculateFields engine scope _ report).bind inductionHypothesis

end Failure

/-- A hierarchy is accepted on a store if the recalculation of all scopes succeeds. -/
def AcceptsHierarchy (store : σ) : Prop :=
  ∃ report after, engine.recalculateAll store = .ok report after

/-- A hierarchy is refused on a store if it is too deep for a recalculation, which then leaves the
store alone. -/
def RefusesHierarchy (store : σ) : Prop :=
  ∃ deep, engine.recalculateAll store = .error (.hierarchyTooDeep deep) store

/-- An engine has depths if they are found for all scopes that a recalculation visits. -/
def hasDepths : Bool := (engine.graph.depths engine.registeredScopes ∅).isOk

/-- An engine that has depths gets one for each scope that it visits. -/
theorem exists_depths (finds : engine.hasDepths = true) :
    ∃ entries, engine.graph.depths engine.registeredScopes ∅ = .ok entries := by
  unfold hasDepths at finds
  cases depths : engine.graph.depths engine.registeredScopes ∅ with
  | ok entries => exact ⟨entries, rfl⟩
  | error error =>
      rw [depths] at finds
      cases finds

/-- Once the depths are found, they are not looked at again. -/
theorem outcome_ne_tooDeep (finds : engine.hasDepths = true) (deep : Entity) (store : σ) :
    Action.outcome engine.recalculateAll store ≠ .error (.hierarchyTooDeep deep) := by
  obtain ⟨entries, depths⟩ := engine.exists_depths finds
  rw [recalculateAll, outcome_bind, outcome_ofExcept, after_ofExcept, depths]
  intro failed
  obtain ⟨cause, differs⟩ := failsInStore_recalculateScopes engine _ _ store _ failed
  cases differs

/-- With all depths found, only the store could make a recalculation fail, and no store that is one
table fails. -/
theorem acceptsHierarchy_of_hasDepths [LawfulStore σ] (finds : engine.hasDepths = true) (store : σ) :
    engine.AcceptsHierarchy store := by
  obtain ⟨entries, depths⟩ := engine.exists_depths finds
  obtain ⟨report, run, -⟩ := engine.recalculateAll_eq_ok depths store
  exact ⟨report, _, run⟩

/-- Without all depths nothing is written, because they are searched first. -/
theorem refusesHierarchy_of_hasDepths (finds : engine.hasDepths = false) (store : σ) :
    engine.RefusesHierarchy store := by
  unfold hasDepths at finds
  cases depths : engine.graph.depths engine.registeredScopes ∅ with
  | ok entries =>
      rw [depths] at finds
      cases finds
  | error error =>
      obtain ⟨deep, rfl⟩ := Graph.failsInHierarchy_depths _ ∅ error depths
      refine ⟨deep, ?_⟩
      rw [eq_error_iff, recalculateAll, outcome_bind, after_bind, outcome_ofExcept, after_ofExcept,
        depths]
      exact ⟨rfl, rfl⟩

/-- A registered instance is an entity of the graph whose kind has a field. -/
def RegisteredInstance (scope : Entity) : Prop :=
  engine.registry.isScopeKind scope.kind = true ∧ engine.graph.contains scope = true

/-- A recalculation visits the instances of the registered kinds. -/
theorem mem_registeredScopes_iff {scope : Entity} :
    scope ∈ engine.registeredScopes ↔ engine.RegisteredInstance scope := by
  simp only [registeredScopes, Graph.instances, Registry.scopeKinds, RegisteredInstance,
    Registry.isScopeKind, List.mem_flatMap, List.mem_filter, Std.ExtTreeSet.mem_toList,
    Std.ExtTreeSet.mem_ofList, List.contains_eq_mem, decide_eq_true_eq, List.mem_map,
    List.any_eq_true]
  constructor
  · rintro ⟨kind, ⟨registration, listed, isKind⟩, present, rfl⟩
    exact ⟨⟨registration, listed, isKind⟩, Std.ExtTreeMap.mem_keys.1 present⟩
  · rintro ⟨⟨registration, listed, isKind⟩, present⟩
    exact ⟨scope.kind, ⟨registration, listed, isKind⟩, Std.ExtTreeMap.mem_keys.2 present, rfl⟩

/-- A hierarchy below the depth bound has all its depths, in whichever order they are searched. -/
theorem hasDepths_of_low
    (low : ∀ scope, engine.RegisteredInstance scope →
      ¬ engine.graph.Climbs maxHierarchyDepth scope) : engine.hasDepths = true := by
  obtain ⟨entries, depths⟩ := Graph.depths_isOk_of_low
    (fun scope member => low scope (engine.mem_registeredScopes_iff.1 member)) ∅
  rw [hasDepths, depths]
  rfl

/-- A scope that leads to a cycle never gets a depth, whatever is known already. -/
theorem hasDepths_of_leadsToCycle {scope : Entity} (registered : engine.RegisteredInstance scope)
    (leads : engine.graph.LeadsToCycle scope) : engine.hasDepths = false := by
  obtain ⟨deep, depths⟩ :=
    Graph.depths_of_leadsToCycle (engine.mem_registeredScopes_iff.2 registered) leads
  rw [hasDepths, depths]
  rfl

/-- A recalculation refuses a hierarchy in which a registered instance leads to a cycle and leaves
the store alone. It never refuses one in which no registered instance climbs to the depth bound. -/
theorem recalculateAll_accepts (store : σ) :
    ((∃ scope, engine.RegisteredInstance scope ∧ engine.graph.LeadsToCycle scope) →
      ∃ deep, engine.recalculateAll store = .error (.hierarchyTooDeep deep) store) ∧
    ((∀ scope, engine.RegisteredInstance scope →
        ¬ engine.graph.Climbs maxHierarchyDepth scope) →
      ∀ deep, Action.outcome engine.recalculateAll store ≠ .error (.hierarchyTooDeep deep)) := by
  constructor
  · rintro ⟨scope, registered, leads⟩
    exact engine.refusesHierarchy_of_hasDepths
      (engine.hasDepths_of_leadsToCycle registered leads) store
  · intro low deep
    exact engine.outcome_ne_tooDeep (engine.hasDepths_of_low low) deep store

end Engine

section Sample

/-- The organization is its own parent. -/
def loopGraph : Graph :=
  (((Graph.empty.withParentRelations "team" ["organization"]).withParentRelations "organization"
    ["parent"]).insert sampleOrganization
      { relations := Std.ExtTreeMap.empty.insert "parent" sampleOrganization }).insert sampleTeam
      { relations := Std.ExtTreeMap.empty.insert "organization" sampleOrganization }

/-- The team leads to the organization, which is its own quota parent. -/
theorem leadsToCycle_loopGraph : loopGraph.LeadsToCycle sampleTeam := by
  have hop : sampleOrganization ∈ loopGraph.quotaParents sampleTeam := by decide +kernel
  have loop : sampleOrganization ∈ loopGraph.quotaParents sampleOrganization := by decide +kernel
  exact ⟨sampleOrganization, .inr (.single hop), .single loop⟩

/-- The team leads to the loop, and nothing in the other graph climbs high. -/
theorem recalculateAll_accepts_sample :
    (∃ deep, (Engine.mk sampleRegistry loopGraph).recalculateAll sampleDrift =
        .error (.hierarchyTooDeep deep) sampleDrift) ∧
      ∀ deep, Action.outcome sampleEngine.recalculateAll sampleDrift ≠
        .error (.hierarchyTooDeep deep) :=
  ⟨(Engine.recalculateAll_accepts ⟨sampleRegistry, loopGraph⟩ sampleDrift).1
      ⟨sampleTeam, ⟨by decide +kernel, by decide +kernel⟩, leadsToCycle_loopGraph⟩,
    (Engine.recalculateAll_accepts sampleEngine sampleDrift).2
      fun scope _ => shallow_sampleGraph scope⟩

end Sample

end HierarchicalQuota
