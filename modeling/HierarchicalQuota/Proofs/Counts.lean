import HierarchicalQuota.Engine.Lifecycle
import HierarchicalQuota.Proofs.Edits
import HierarchicalQuota.Proofs.Registered
import Mathlib.Algebra.Order.BigOperators.Group.List
import Mathlib.Tactic.Linarith
import Mathlib.Tactic.Ring

namespace HierarchicalQuota

/-- A field is regular if it is connected to every scope, and if its usage, where it counts or
totals, starts from zero and weighs each target by a fixed number that is not negative. -/
structure Field.Regular (field : Field) : Prop where
  unconditional : field.condition = none
  uncomputed : ∀ rule, field.rule = .counter rule → rule.currentUsage = none
  fixed : ∀ rule, field.rule = .counter rule → ∀ weight ∈ rule.weight, ∀ entity first second,
    weight entity first = weight entity second
  heavy : ∀ rule, field.rule = .counter rule → ∀ weight ∈ rule.weight, ∀ entity graph,
    0 ≤ (weight entity graph).value
  idle : field.targets?.isSome → ∀ scope graph, field.defaultUsage.resolve scope graph = 0

/-- A registry is regular if all its fields are. -/
def Registry.Regular (registry : Registry) : Prop :=
  ∀ registration ∈ registry.registrations, registration.field.Regular

/-- The fields of a regular registry are regular. -/
theorem Registry.Regular.of_mem_fields {registry : Registry} (regular : registry.Regular)
    {kind : String} {field : Field} (registered : field ∈ registry.fields kind) :
    field.Regular := by
  obtain ⟨registration, member, rfl⟩ := List.mem_map.1 registered
  exact regular registration (List.mem_filter.1 member).1

namespace Graph

variable {graph : Graph}

/-- No attribute of a graph is negative. -/
def Nonnegative (graph : Graph) : Prop :=
  ∀ entity name value, graph.attributeOf entity name = some value → 0 ≤ value.value

/-- An attribute that is missing counts as zero. -/
theorem Nonnegative.value_getD (nonnegative : graph.Nonnegative) (entity : Entity)
    (name : String) : 0 ≤ ((graph.attributeOf entity name).getD 0).value := by
  cases found : graph.attributeOf entity name with
  | none => exact le_rfl
  | some value => exact nonnegative entity name value found

/-- No attribute is negative after a node without negative attributes is inserted. -/
theorem Nonnegative.insert (nonnegative : graph.Nonnegative) {entity : Entity} {node : Node}
    (positive : ∀ (name : String) (value : Amount), node.attributes[name]? = some value →
      0 ≤ value.value) : (graph.insert entity node).Nonnegative := by
  intro other name value found
  rw [attributeOf_insert] at found
  split at found
  · exact positive name value found
  · exact nonnegative other name value found

/-- A removal adds no attribute. -/
theorem Nonnegative.remove (nonnegative : graph.Nonnegative) {entity : Entity} :
    (graph.remove entity).Nonnegative := by
  intro other name value found
  rw [attributeOf_remove] at found
  split at found
  · cases found
  · exact nonnegative other name value found

/-- No attribute is negative after one is set to a value that is not. -/
theorem Nonnegative.setAttribute (nonnegative : graph.Nonnegative) {entity : Entity}
    {name : String} {value : Amount} (present : graph.contains entity = true)
    (positive : 0 ≤ value.value) : (graph.setAttribute entity name value).Nonnegative := by
  intro other label found isFound
  rw [attributeOf_setAttribute present] at isFound
  split at isFound
  · obtain rfl := Option.some.inj isFound
    exact positive
  · exact nonnegative other label found isFound

end Graph

namespace Field

variable {field : Field} {graph : Graph}

/-- A regular field is connected to every scope. -/
theorem Regular.isConnected (regular : field.Regular) (scope : Entity) (graph : Graph) :
    field.isConnected scope graph = true := by
  rw [Field.isConnected, regular.unconditional]
  rfl

/-- A counter weighs no target by a negative number. -/
theorem Regular.weight_nonneg_of_counter (regular : field.Regular) {rule : CounterRule}
    (isRule : field.rule = .counter rule) (target : Entity) :
    0 ≤ (field.weight target graph).value := by
  unfold weight
  rw [isRule]
  dsimp only
  cases weight : rule.weight with
  | none =>
      change (0 : Int) ≤ (1 : Amount).value
      decide
  | some weight' => exact regular.heavy rule isRule weight' weight target graph

/-- No target takes anything off a counter or a total. -/
theorem Regular.weight_nonneg (regular : field.Regular) (nonnegative : graph.Nonnegative)
    (target : Entity) : 0 ≤ (field.weight target graph).value := by
  cases isRule : field.rule with
  | direct | aggregator _ => simp [weight, isRule]
  | counter rule => exact regular.weight_nonneg_of_counter isRule target
  | total rule =>
      unfold weight
      rw [isRule]
      exact nonnegative.value_getD target rule.summedAttribute

/-- A weight depends on the graph at most through an attribute of the target. -/
theorem Regular.weight_congr (regular : field.Regular) {other : Graph} {target : Entity}
    (same : ∀ name ∈ field.trackedAttribute?,
      (other.attributeOf target name).getD 0 = (graph.attributeOf target name).getD 0) :
    field.weight target other = field.weight target graph := by
  unfold weight
  cases isRule : field.rule with
  | direct | aggregator _ => rfl
  | counter rule =>
      dsimp only
      cases weight : rule.weight with
      | none => rfl
      | some weight' => exact regular.fixed rule isRule weight' weight target other graph
  | total rule => exact same rule.summedAttribute (by rw [trackedAttribute?, isRule]; rfl)

/-- The usage that a counter or a total should have, over the integers. -/
def weightTotal (field : Field) (scope : Entity) (graph : Graph) : Int :=
  match field.targets? with
  | some (kinds, path) =>
      ((targetsOf kinds path scope graph).map fun target => (field.weight target graph).value).sum
  | none => 0

/-- An entity contributes an amount once for every listing of its kind, to the scope at the end of
its path. -/
def contribution (field : Field) (scope : Entity) (graph : Graph) (entity : Entity)
    (amount : Int) : Int :=
  match field.targets? with
  | some (kinds, path) =>
      if graph.resolve entity path = some scope then kinds.count entity.kind * amount else 0
  | none => 0

/-- What an entity contributes has the sign of the amount. -/
theorem contribution_nonneg (field : Field) (scope : Entity) (graph : Graph) (entity : Entity)
    {amount : Int} (nonneg : 0 ≤ amount) : 0 ≤ field.contribution scope graph entity amount := by
  unfold contribution
  split
  · split
    · exact mul_nonneg (Int.natCast_nonneg _) nonneg
    · exact le_rfl
  · exact le_rfl

/-- An amount of zero contributes nothing. -/
theorem contribution_zero (field : Field) (scope : Entity) (graph : Graph)
    (entity : Entity) : field.contribution scope graph entity 0 = 0 := by
  unfold contribution
  split
  · rw [mul_zero, ite_self]
  · rfl

/-- The opposite amount has the opposite contribution. -/
theorem contribution_neg (field : Field) (scope : Entity) (graph : Graph) (entity : Entity)
    (amount : Int) :
    field.contribution scope graph entity (-amount) =
      -field.contribution scope graph entity amount := by
  unfold contribution
  split
  · split
    · rw [mul_neg]
    · rfl
  · rfl

/-- Weights that are not negative have a total that is not negative. -/
theorem weightTotal_nonneg (heavy : ∀ target, 0 ≤ (field.weight target graph).value)
    (scope : Entity) : 0 ≤ field.weightTotal scope graph := by
  unfold weightTotal
  split
  · apply List.sum_nonneg
    intro weight member
    obtain ⟨target, -, rfl⟩ := List.mem_map.1 member
    exact heavy target
  · exact le_rfl

/-- A sum of amounts that are not negative is exact if it stays within the range. -/
theorem value_foldl_add (amounts : List Amount) (nonneg : ∀ amount ∈ amounts, 0 ≤ amount.value)
    (start : Amount) (positive : 0 ≤ start.value)
    (bounded : start.value + (amounts.map Amount.value).sum ≤ 9223372036854775807) :
    (amounts.foldl (· + ·) start).value = start.value + (amounts.map Amount.value).sum := by
  induction amounts generalizing start with
  | nil => simp
  | cons amount amounts inductionHypothesis =>
      rw [List.map_cons, List.sum_cons] at bounded ⊢
      have first := nonneg amount List.mem_cons_self
      have others : ∀ other ∈ amounts, 0 ≤ other.value :=
        fun other member => nonneg other (List.mem_cons_of_mem _ member)
      have rest : 0 ≤ (amounts.map Amount.value).sum := by
        apply List.sum_nonneg
        intro value member
        obtain ⟨other, otherMember, rfl⟩ := List.mem_map.1 member
        exact others other otherMember
      have sum : (start + amount).value = start.value + amount.value := by
        rw [Amount.value_add]
        omega
      rw [List.foldl_cons, inductionHypothesis others (start + amount) (by omega) (by omega), sum]
      omega

/-- The usage that follows from the graph is the total of the weights if that is an amount. -/
theorem Regular.targetUsage?_eq (regular : field.Regular)
    (heavy : ∀ target, 0 ≤ (field.weight target graph).value)
    (targets : field.targets?.isSome) {scope : Entity}
    (bounded : field.weightTotal scope graph ≤ 9223372036854775807) :
    ∃ usage, field.targetUsage? scope graph = some usage ∧
      usage.value = field.weightTotal scope graph := by
  have exact (kinds : List String) (path : RelationPath)
      (listed : field.targets? = some (kinds, path)) :
      (field.weightSum kinds path scope graph).value = field.weightTotal scope graph := by
    have total : field.weightTotal scope graph =
        (((targetsOf kinds path scope graph).map fun target =>
          field.weight target graph).map Amount.value).sum := by
      rw [weightTotal, listed, List.map_map]
      rfl
    rw [weightSum, value_foldl_add, total, Amount.value_zero, zero_add]
    · intro amount member
      obtain ⟨target, -, rfl⟩ := List.mem_map.1 member
      exact heavy target
    · exact le_rfl
    · rwa [Amount.value_zero, zero_add, ← total]
  unfold targetUsage?
  cases isRule : field.rule with
  | direct | aggregator _ => simp [Field.targets?, isRule] at targets
  | counter rule =>
      dsimp only
      rw [regular.uncomputed rule isRule]
      exact ⟨_, rfl, exact rule.targets rule.path (by rw [Field.targets?, isRule])⟩
  | total rule => exact ⟨_, rfl, exact rule.targets rule.path (by rw [Field.targets?, isRule])⟩

/-- A sum over kinds counts a kind as often as it is listed. -/
theorem sum_occurrences (kinds : List String) (kind : String) (reached : Prop) [Decidable reached]
    (amount : Int) :
    (kinds.map fun other => if kind = other ∧ reached then amount else 0).sum =
      if reached then kinds.count kind * amount else 0 := by
  by_cases isReached : reached
  · have each : ∀ other ∈ kinds, (if kind = other ∧ reached then amount else 0) =
        if other = kind then amount else 0 := by
      intro other _
      simp [isReached, eq_comm]
    rw [List.map_congr_left each, sum_map_occurrences, if_pos isReached, nsmul_eq_mul]
  · simp [isReached]

/-- Graphs in which the same targets weigh the same give the same totals. -/
theorem weightTotal_congr {other : Graph}
    (perm : ∀ kind path scope,
      (other.referencing kind path scope).Perm (graph.referencing kind path scope))
    (same : ∀ target, field.weight target other = field.weight target graph) (scope : Entity) :
    field.weightTotal scope other = field.weightTotal scope graph := by
  unfold weightTotal
  cases field.targets? with
  | none => rfl
  | some rule =>
      obtain ⟨kinds, path⟩ := rule
      dsimp only
      rw [targetsOf, targetsOf, sum_map_flatMap, sum_map_flatMap]
      congr 1
      apply List.map_congr_left
      intro kind _
      rw [((perm kind path scope).map _).sum_eq]
      congr 1
      apply List.map_congr_left
      intro target _
      rw [same]

/-- Nothing references an entity that does not exist. -/
theorem weightTotal_of_absent (closed : graph.Closed) {scope : Entity}
    (absent : graph.contains scope = false) : field.weightTotal scope graph = 0 := by
  unfold weightTotal
  split
  · apply sum_map_eq_zero
    intro target member
    obtain ⟨kind, -, references⟩ := List.mem_flatMap.1 member
    have present := closed.of_resolve (Graph.mem_referencing.1 references).2.2
    rw [absent] at present
    cases present
  · rfl

/-- A set attribute changes the weight of its entity in the totals that track it. -/
theorem Regular.weight_setAttribute (regular : field.Regular) {entity : Entity} {name : String}
    {value : Amount} (present : graph.contains entity = true) :
    (field.weight entity (graph.setAttribute entity name value)).value -
        (field.weight entity graph).value =
      if field.trackedAttribute? = some name
        then value.value - ((graph.attributeOf entity name).getD 0).value else 0 := by
  by_cases tracked : field.trackedAttribute? = some name
  · rw [if_pos tracked]
    unfold trackedAttribute? at tracked
    unfold weight
    cases isRule : field.rule with
    | direct | counter _ | aggregator _ => simp [isRule] at tracked
    | total rule =>
        simp only [isRule, Option.some.injEq] at tracked
        dsimp only
        rw [Graph.attributeOf_setAttribute present, if_pos ⟨rfl, tracked.symm⟩, Option.getD_some,
          tracked]
  · rw [if_neg tracked, regular.weight_congr, sub_self]
    intro label isTracked
    rw [Graph.attributeOf_setAttribute present, if_neg]
    rintro ⟨-, rfl⟩
    exact tracked isTracked

/-- An edit keeps the targets of a field if it keeps the path of all their kinds. -/
def KeepsTargets (field : Field) (entity : Entity) (before after : Graph) : Prop :=
  ∀ kinds path, field.targets? = some (kinds, path) → ∀ kind ∈ kinds,
    before.KeepsPath after entity kind path

/-- A new entity adds its weight to what the counters at the ends of its paths should hold. -/
theorem Regular.weightTotal_insert (regular : field.Regular) {entity : Entity} {node : Node}
    (absent : graph.contains entity = false)
    (kept : field.KeepsTargets entity graph (graph.insert entity node)) (scope : Entity) :
    field.weightTotal scope (graph.insert entity node) =
      field.contribution scope (graph.insert entity node) entity
        (field.weight entity (graph.insert entity node)).value +
        field.weightTotal scope graph := by
  unfold weightTotal contribution
  cases targets : field.targets? with
  | none => rfl
  | some rule =>
      obtain ⟨kinds, path⟩ := rule
      dsimp only
      have old : ∀ kind, ((graph.referencing kind path scope).map fun target =>
          (field.weight target (graph.insert entity node)).value) =
          (graph.referencing kind path scope).map fun target =>
            (field.weight target graph).value := by
        intro kind
        apply List.map_congr_left
        intro target member
        have different := Graph.ne_of_absent absent (Graph.mem_referencing.1 member).1
        congr 1
        apply regular.weight_congr
        intro name _
        rw [Graph.attributeOf_insert, if_neg different]
      rw [targetsOf, targetsOf, sum_map_flatMap, sum_map_flatMap, ← sum_occurrences,
        ← List.sum_map_add]
      congr 1
      apply List.map_congr_left
      intro kind listed
      rw [Graph.sum_referencing_insert absent (kept kinds path targets kind listed), old]

/-- A removed entity takes its weight out of what the counters should hold. -/
theorem Regular.weightTotal_remove (regular : field.Regular) {entity : Entity}
    (present : graph.contains entity = true)
    (kept : field.KeepsTargets entity graph (graph.remove entity)) (scope : Entity) :
    field.weightTotal scope graph =
      field.contribution scope graph entity (field.weight entity graph).value +
        field.weightTotal scope (graph.remove entity) := by
  obtain ⟨node, whole⟩ := Graph.exists_insert_remove present
  have parts : field.weightTotal scope ((graph.remove entity).insert entity node) = _ :=
    regular.weightTotal_insert (Graph.contains_remove_self graph entity)
      (fun kinds path targets kind listed =>
        whole.symm ▸ (kept kinds path targets kind listed).of_remove) scope
  rwa [whole] at parts

/-- An entity whose weight changes adds the change to what its counters should hold. -/
theorem Regular.weightTotal_setAttribute (regular : field.Regular) {entity : Entity} {name : String}
    {value : Amount} (present : graph.contains entity = true) (scope : Entity) :
    field.weightTotal scope (graph.setAttribute entity name value) =
      field.contribution scope (graph.setAttribute entity name value) entity
        ((field.weight entity (graph.setAttribute entity name value)).value -
          (field.weight entity graph).value) +
        field.weightTotal scope graph := by
  unfold weightTotal contribution
  cases field.targets? with
  | none => rfl
  | some rule =>
      obtain ⟨kinds, path⟩ := rule
      dsimp only
      have each : ∀ target, (field.weight target (graph.setAttribute entity name value)).value =
          (if target = entity then (field.weight entity (graph.setAttribute entity name value)).value -
            (field.weight entity graph).value else 0) + (field.weight target graph).value := by
        intro target
        by_cases same : target = entity
        · subst same
          rw [if_pos rfl, sub_add_cancel]
        · rw [if_neg same, zero_add]
          congr 1
          apply regular.weight_congr
          intro label _
          rw [Graph.attributeOf_setAttribute present, if_neg fun equal => same equal.1.symm]
      rw [targetsOf, targetsOf, sum_map_flatMap, sum_map_flatMap, ← sum_occurrences,
        ← List.sum_map_add]
      congr 1
      apply List.map_congr_left
      intro kind _
      rw [((Graph.perm_referencing_setAttribute kind path scope).map _).sum_eq,
        List.map_congr_left fun target _ => each target, List.sum_map_add, sum_map_occurrences,
        (graph.nodup_referencing kind path scope).count, Graph.resolve_setAttribute]
      congr 1
      simp only [Graph.mem_referencing, present, true_and]
      split <;> simp

end Field

/-- This number is what a list of requests asks to add to one usage. -/
def pending (requests : List (Except QuotaError Change)) (scope : Entity) (name : String) : Int :=
  (requests.map fun request =>
    match request with
    | .ok change => if change.scope = scope ∧ change.name = name then change.amount.value else 0
    | .error _ => 0).sum

namespace Engine

variable {engine : Engine}

/-- What one registration asks to add to a usage. -/
theorem pending_targetRequest? (regular : engine.registry.Regular) {registration : Registration}
    (listed : registration ∈ engine.registry.registrations) {kinds : List String}
    {path : RelationPath} (rule : registration.field.targets? = some (kinds, path))
    (entity : Entity) (change : TargetChange) (scope : Entity) (name : String) :
    pending (engine.targetRequest? entity change registration).toList scope name =
      if registration.key = (scope.kind, name) then
        if engine.graph.resolve entity path = some scope then
          (change.delta registration.field entity engine.graph).value
        else 0
      else 0 := by
  unfold targetRequest?
  dsimp only
  split
  · rename_i zero
    rw [zero]
    simp [pending]
  rw [rule]
  cases resolved : engine.graph.resolve entity path with
  | none => simp [pending, resolved]
  | some other =>
      simp only [Option.bind_eq_bind, Option.bind_some, resolved,
        (regular registration listed).isConnected, if_true, Registration.key, Prod.mk.injEq,
        Option.some.injEq]
      by_cases sameKind : other.kind = registration.kind
      · simp only [sameKind, ne_eq, not_true_eq_false, if_false, Option.toList_some, pending,
          List.map_cons, List.map_nil, List.sum_cons, List.sum_nil, add_zero]
        by_cases same : other = scope
        · subst same
          simp [sameKind]
        · simp [same]
      · simp only [sameKind, ne_eq, not_false_eq_true, if_true, Option.toList_some, pending,
          List.map_cons, List.map_nil, List.sum_cons, List.sum_nil, add_zero]
        by_cases same : other = scope
        · subst same
          simp [Ne.symm sameKind]
        · simp [same]

/-- What a list of items asks for is the sum of what each of them asks for. -/
theorem pending_filterMap {α : Type} (request? : α → Option (Except QuotaError Change))
    (items : List α) (scope : Entity) (name : String) :
    pending (items.filterMap request?) scope name =
      (items.map fun item => pending (request? item).toList scope name).sum := by
  induction items with
  | nil => rfl
  | cons item items inductionHypothesis =>
      rw [List.map_cons, List.sum_cons, ← inductionHypothesis]
      cases asks : request? item with
      | none =>
          rw [List.filterMap_cons_none asks]
          simp [pending]
      | some request =>
          rw [List.filterMap_cons_some asks]
          simp [pending]

/-- The requests of an event add to a field exactly what its entity contributes. -/
theorem pending_targeting (regular : engine.registry.Regular) (entity : Entity)
    (change : TargetChange) {scope : Entity} {field : Field}
    (registered : field ∈ engine.registry.fields scope.kind) :
    pending ((engine.registry.targeting entity.kind).filterMap
      (engine.targetRequest? entity change)) scope field.name =
        field.contribution scope engine.graph entity
          (change.delta field entity engine.graph).value := by
  obtain ⟨registration, member, rfl⟩ := List.mem_map.1 registered
  obtain ⟨listed, kind⟩ := List.mem_filter.1 member
  have key : registration.key = (scope.kind, registration.field.name) := by
    rw [Registration.key, of_decide_eq_true kind]
  have own := sum_map_key engine.registry.distinct listed fun other =>
    other.field.contribution scope engine.graph entity
      (change.delta other.field entity engine.graph).value
  rw [pending_filterMap, Registry.targeting, sum_map_flatMap, ← own]
  congr 1
  apply List.map_congr_left
  intro other otherListed
  unfold Field.contribution
  cases rule : other.field.targets? with
  | none => simp
  | some targets =>
      obtain ⟨kinds, path⟩ := targets
      simp only [List.map_const', List.map_replicate, List.sum_replicate]
      rw [pending_targetRequest? regular otherListed rule, key, List.count_eq_length_filter,
        nsmul_eq_mul]
      split
      · split
        · rfl
        · rw [mul_zero]
      · rw [mul_zero]

end Engine

end HierarchicalQuota
