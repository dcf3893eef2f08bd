import HierarchicalQuota.Proofs.Lifecycle
import HierarchicalQuota.Proofs.Tally

namespace HierarchicalQuota

open HierarchicalQuota.Action (Ensures)
open LawfulStore (lookup put drop list)

variable {σ : Type} [QuotaStore σ] [LawfulStore σ]

namespace Engine

/-- Exactly the registered fields of existing entities have records. -/
def Placed (engine : Engine) (store : σ) : Prop :=
  ∀ scope name, stored store scope name = true ↔
    engine.graph.contains scope = true ∧ (engine.registry.field? scope.kind name).isSome

/-- A store is consistent with the graph if its records are in place, every aggregate equals the sum
over its children, and every counter and total equals the sum over its targets. -/
structure Consistent (engine : Engine) (store : σ) : Prop where
  closed : engine.graph.Closed
  nonnegative : engine.graph.Nonnegative
  placed : engine.Placed store
  balanced : engine.Balanced store
  counted : ∀ scope, ∀ field ∈ engine.registry.fields scope.kind, field.targets?.isSome →
    engine.graph.contains scope = true →
    reading store scope field.name .usage = field.weightTotal scope engine.graph

variable {engine : Engine} {before store after : σ}

theorem Consistent.sound (consistent : engine.Consistent store) : engine.Sound store :=
  ⟨consistent.balanced, fun scope name present => ((consistent.placed scope name).1 present).2⟩

/-- Every registered field of an existing entity has its record. -/
theorem Consistent.stored (consistent : engine.Consistent store) {scope : Entity} {field : Field}
    (present : engine.graph.contains scope = true)
    (registered : field ∈ engine.registry.fields scope.kind) :
    HierarchicalQuota.stored store scope field.name = true :=
  (consistent.placed scope field.name).2 ⟨present, Registry.isSome_field? registered⟩

/-- No counter has moved. -/
def KeepsCounts (engine : Engine) (before after : σ) : Prop :=
  ∀ scope, ∀ field ∈ engine.registry.fields scope.kind, field.targets?.isSome →
    engine.graph.contains scope = true →
    reading after scope field.name .usage = reading before scope field.name .usage

/-- Where nothing outside the graph is touched, the records stay with the existing entities. -/
theorem placed_of_maintains (placed : engine.Placed before)
    (maintains : engine.Maintains engine.Inside before after) : engine.Placed after := by
  intro scope name
  constructor
  · intro present
    refine ⟨?_, maintains.sound.registered scope name present⟩
    by_contra outside
    have same := maintains.frame.same scope name outside
    rw [stored, same] at present
    exact outside ((placed scope name).1 present).1
  · intro known
    exact maintains.frame.kept scope name ((placed scope name).2 known)

/-- A store stays consistent while nothing outside the graph is touched and no counter moves. -/
theorem Consistent.of_maintains (consistent : engine.Consistent before)
    (maintains : engine.Maintains engine.Inside before after)
    (counts : engine.KeepsCounts before after) : engine.Consistent after where
  closed := consistent.closed
  nonnegative := consistent.nonnegative
  placed := placed_of_maintains consistent.placed maintains
  balanced := maintains.sound.balanced
  counted scope field registered targets present := by
    rw [counts scope field registered targets present]
    exact consistent.counted scope field registered targets present

section Operations

/-- A usage is set directly if no other rule of its name is registered. -/
def Direct (engine : Engine) (scope : Entity) (name : String) : Prop :=
  ∀ field ∈ engine.registry.field? scope.kind name, field.rule = .direct

/-- A usage that is set directly is not summed. -/
theorem Direct.plain {scope : Entity} {name : String} (direct : engine.Direct scope name) :
    engine.Plain scope name := by
  intro field known
  rw [Field.aggregator?, direct field known]

/-- No counter has the name of a usage that is set directly. -/
theorem Direct.ne_name {scope : Entity} {name : String} (direct : engine.Direct scope name)
    {field : Field} (registered : field ∈ engine.registry.fields scope.kind)
    (targets : field.targets?.isSome) : field.name ≠ name := by
  rintro rfl
  have rule := direct field (Registry.field?_eq_some_iff.2 ⟨registered, rfl⟩)
  rw [Field.targets?, rule] at targets
  cases targets

/-- A usable operation works on existing entities and changes the usage of direct fields only. The
records of an existing entity are not removed. -/
def Usable (engine : Engine) : Operation → Prop
  | .getOrCreate scope _ | .initializeScope scope | .setLimit scope _ _ | .updateLimit scope _ _ =>
      engine.graph.contains scope = true
  | .childDeleted _ => False
  | .setUsage scope name _ | .addUsage scope name _ _ =>
      engine.graph.contains scope = true ∧ engine.Direct scope name
  | .applyChanges scopes deltas _ _ =>
      ∀ scope ∈ scopes, engine.graph.contains scope = true ∧
        ∀ delta ∈ deltas, engine.Direct scope delta.1

omit [QuotaStore σ] [LawfulStore σ] in
/-- A usage is set directly unless a field of its name sums children or counts targets. -/
theorem direct_iff {scope : Entity} {name : String} :
    engine.Direct scope name ↔ ∀ field ∈ engine.registry.field? scope.kind name,
      field.aggregator?.isNone ∧ field.targets?.isNone := by
  unfold Direct Field.aggregator? Field.targets?
  refine forall₂_congr fun field _ => ?_
  cases field.rule <;> simp

instance (scope : Entity) (name : String) : Decidable (engine.Direct scope name) :=
  decidable_of_iff _ direct_iff.symm

/-- An operation is usable if its scopes have nodes and its fields are direct. -/
instance : (operation : Operation) → Decidable (engine.Usable operation)
  | .getOrCreate scope _ | .initializeScope scope | .setLimit scope _ _ | .updateLimit scope _ _ =>
      inferInstanceAs (Decidable (engine.graph.contains scope = true))
  | .childDeleted _ => isFalse id
  | .setUsage scope name _ | .addUsage scope name _ _ =>
      inferInstanceAs (Decidable (engine.graph.contains scope = true ∧ engine.Direct scope name))
  | .applyChanges scopes deltas _ _ =>
      inferInstanceAs (Decidable (∀ scope ∈ scopes, engine.graph.contains scope = true ∧
        ∀ delta ∈ deltas, engine.Direct scope delta.1))

/-- A counter that is not touched keeps its usage. -/
theorem keepsCounts_of_frame {touched : Entity → String → Prop}
    (frame : Frame touched before after)
    (untouched : ∀ scope, ∀ field ∈ engine.registry.fields scope.kind, field.targets?.isSome →
      engine.graph.contains scope = true → ¬ touched scope field.name) :
    engine.KeepsCounts before after := by
  intro scope field registered targets present
  rw [reading, frame.same scope field.name (untouched scope field registered targets present)]
  rfl

/-- A change of a direct usage touches aggregates above it, but no counter. -/
theorem not_touches_of_direct {scope other : Entity} {name : String} {field : Field}
    (direct : engine.Direct scope name) (registered : field ∈ engine.registry.fields other.kind)
    (targets : field.targets?.isSome) : ¬ engine.Touches scope name other field.name := by
  rintro (⟨rfl, sameName⟩ | reaches)
  · exact direct.ne_name registered targets sameName
  · exact (plain_of_targets registered targets).unreached scope reaches

/-- A record keeps its usage, and everything else that is touched stands above it. -/
theorem keepsCounts_of_keepsUsage {scope : Entity} {name : String}
    (frame : Frame (engine.Touches scope name) before after)
    (keeps : KeepsUsage scope name before after)
    (present : ∀ field ∈ engine.registry.fields scope.kind,
      stored before scope field.name = true) : engine.KeepsCounts before after := by
  intro other field registered targets _
  by_cases own : other = scope ∧ field.name = name
  · obtain ⟨rfl, rfl⟩ := own
    obtain ⟨quota, found⟩ := lookup_of_stored (present field registered)
    obtain ⟨later, laterFound, usage⟩ := keeps quota found
    rw [reading_eq found, reading_eq laterFound, usage]
  · have untouched : ¬ engine.Touches scope name other field.name := by
      rintro (same | reaches)
      · exact own same
      · exact (plain_of_targets registered targets).unreached scope reaches
    rw [reading, frame.same other field.name untouched]
    rfl

/-- What a change in a closed graph touches is inside the graph. -/
theorem maintains_inside {scope : Entity} {name : String} (closed : engine.graph.Closed)
    (present : engine.graph.contains scope = true)
    (maintains : engine.Maintains (engine.Touches scope name) before after) :
    engine.Maintains engine.Inside before after :=
  ⟨maintains.sound, maintains.frame.mono fun _ _ touches =>
    inside_of_touches closed present touches⟩

/-- A change of an existing record that keeps its usage keeps a store consistent. -/
theorem Consistent.of_keepsUsage (consistent : engine.Consistent before) {scope : Entity}
    {name : String} (present : engine.graph.contains scope = true)
    (maintains : engine.Maintains (engine.Touches scope name) before after)
    (keeps : KeepsUsage scope name before after) : engine.Consistent after :=
  consistent.of_maintains (maintains_inside consistent.closed present maintains)
    (keepsCounts_of_keepsUsage maintains.frame keeps fun _ registered =>
      consistent.stored present registered)

/-- A change of a usage that is set directly keeps a store consistent. -/
theorem Consistent.of_direct (consistent : engine.Consistent before) {scope : Entity}
    {name : String} (present : engine.graph.contains scope = true)
    (direct : engine.Direct scope name)
    (maintains : engine.Maintains (engine.Touches scope name) before after) :
    engine.Consistent after :=
  consistent.of_maintains (maintains_inside consistent.closed present maintains)
    (keepsCounts_of_frame maintains.frame fun _ _ registered targets _ =>
      not_touches_of_direct direct registered targets)

variable (matching : engine.Matching) (shallow : engine.graph.Shallow)

include matching shallow

/-- A usable operation keeps a store consistent, whether it succeeds or fails. -/
theorem ensures_perform_consistent (operation : Operation) (usable : engine.Usable operation)
    (consistent : engine.Consistent store) :
    Ensures engine.Exact (engine.perform operation) store
      fun _ after => engine.Consistent after := by
  have sound := consistent.sound
  cases operation with
  | getOrCreate scope name =>
      apply Action.ensures_discard
      refine (ensures_getOrCreateQuota matching shallow formsExactly_exact scope name sound).mono ?_
      rintro (error | quota) after ⟨maintains, kept, -⟩ <;>
      · apply consistent.of_keepsUsage usable maintains
        intro quota found
        exact ⟨quota, kept quota found ▸ found, rfl⟩
  | initializeScope scope =>
      apply Action.ensures_discard
      refine (ensures_initializeFields matching shallow scope _ (fun _ member => member)
        sound).mono ?_
      rintro (error | count) after ⟨-, maintains, -⟩ <;>
      · refine consistent.of_maintains ⟨maintains.sound, maintains.frame.mono ?_⟩
          (keepsCounts_of_frame maintains.frame fun other field registered targets present => ?_)
        · rintro other label (⟨rfl, -⟩ | reaches)
          · exact usable
          · exact inside_of_reaches consistent.closed reaches
        · rintro (⟨rfl, absent⟩ | reaches)
          · rw [consistent.stored present registered] at absent
            cases absent
          · exact (plain_of_targets registered targets).unreached scope reaches
  | setLimit scope name limit =>
      refine (ensures_setQuotaLimit matching shallow scope name limit sound).mono ?_
      rintro _ after ⟨maintains, keeps⟩
      exact consistent.of_keepsUsage usable maintains keeps
  | updateLimit scope name limit =>
      refine (ensures_updateLimit matching shallow scope name limit sound).mono ?_
      rintro _ after ⟨maintains, keeps⟩
      exact consistent.of_keepsUsage usable maintains keeps
  | childDeleted scope => exact usable.elim
  | setUsage scope name usage =>
      obtain ⟨present, direct⟩ := usable
      refine (ensures_setQuotaUsage matching shallow scope name usage sound
        direct.plain.ne_name).mono ?_
      intro _ after maintains
      exact consistent.of_direct present direct maintains
  | addUsage scope name delta validate =>
      obtain ⟨present, direct⟩ := usable
      apply Action.ensures_discard
      refine (ensures_applyDelta matching shallow scope name delta validate sound
        direct.plain.ne_name).mono ?_
      rintro (error | amount) after maintains <;>
      exact consistent.of_direct present direct maintains
  | applyChanges scopes deltas multiplier validate =>
      refine (ensures_applyChanges matching shallow scopes deltas multiplier validate
        (fun scope member delta listed => ((usable scope member).2 delta listed).plain) sound).mono
          ?_
      intro _ after maintains
      refine consistent.of_maintains ⟨maintains.sound, maintains.frame.mono ?_⟩
        (keepsCounts_of_frame maintains.frame fun other field registered targets _ => ?_)
      · rintro other label ⟨scope, member, delta, -, touches⟩
        exact inside_of_touches consistent.closed (usable scope member).1 touches
      · rintro ⟨scope, member, delta, listed, touches⟩
        exact not_touches_of_direct ((usable scope member).2 delta listed) registered targets
          touches

end Operations

/-- A call that is exact for the engine is exact for the store. -/
theorem Exact.storeExact (call : StoreCall) (store : σ) (exact : engine.Exact call store) :
    call.Exact store := exact.1

/-- In a closed graph whose records are in place, an event of an existing entity is prepared if no
counter is negative. -/
theorem prepared_of_placed {event : EntityEvent} (existing : event ≠ .created event.entity)
    (closed : engine.graph.Closed)
    (placed : engine.Placed store)
    (floor : ∀ scope, ∀ field ∈ engine.registry.fields scope.kind, field.targets?.isSome →
      engine.graph.contains scope = true → 0 ≤ reading store scope field.name .usage) :
    engine.Prepared event store := by
  have covered (scope : Entity) : engine.Covered store scope := by
    intro aggregate above
    exact (placed _ _).2
      ⟨closed.of_above above.above, Registry.isSome_field? above.registered⟩
  refine ⟨fun creation => absurd creation existing, covered _, fun scope name targets _ => ?_⟩
  obtain ⟨field, registered, rfl, isTarget, -⟩ := targets.mem_fields
  have present := targets.inside closed
  obtain ⟨quota, found⟩ := lookup_of_stored
    ((placed scope field.name).2 ⟨present, Registry.isSome_field? registered⟩)
  have enough := floor scope field registered isTarget present
  rw [reading_eq found] at enough
  exact ⟨⟨quota, found, enough⟩, covered scope⟩

section Events

variable {registry : Registry} {graph : Graph} {entity : Entity}

/-- A prepared event that is refused leaves the store as it was. -/
theorem after_of_refused (shallow : engine.graph.Shallow) {event : EntityEvent}
    (prepared : engine.Prepared event store)
    (exact : RecordedStore.AllFit engine.Exact (Action.history (engine.handle event) store))
    {error : QuotaError} (refused : Action.outcome (engine.handle event) store = .error error) :
    Action.after (engine.handle event) store = store := by
  have ensures : Ensures engine.Exact (engine.handle event) store
      (engine.AllOrNothing event.entity store) :=
    (ensures_handle shallow prepared).restrict Exact.storeExact
  exact (ensures.of_allFit (RecordedStore.answersAlike.handle engine event) exact error refused).1

/-- A counter is not negative, because no weight is. -/
theorem Consistent.reading_nonneg (regular : engine.registry.Regular)
    (consistent : engine.Consistent store) {scope : Entity} {field : Field}
    (registered : field ∈ engine.registry.fields scope.kind) (targets : field.targets?.isSome)
    (present : engine.graph.contains scope = true) :
    0 ≤ reading store scope field.name .usage := by
  rw [consistent.counted scope field registered targets present]
  exact Field.weightTotal_nonneg
    ((regular.of_mem_fields registered).weight_nonneg consistent.nonnegative) scope

/-- An entity without a node has no records. -/
theorem Consistent.unborn (consistent : engine.Consistent store)
    (absent : engine.graph.contains entity = false) (name : String) :
    lookup store entity name = none := by
  cases found : lookup store entity name with
  | none => rfl
  | some quota =>
      have present := ((consistent.placed entity name).1 (stored_of_lookup found)).1
      rw [absent] at present
      cases present

/-- Graphs with equal sums over children are balanced by the same stores. -/
theorem balanced_of_childTotal {first second : Graph} (regular : registry.Regular)
    (same : ∀ scope field, (⟨registry, second⟩ : Engine).childTotal store scope field =
      (⟨registry, first⟩ : Engine).childTotal store scope field)
    (balanced : (⟨registry, first⟩ : Engine).Balanced store) :
    (⟨registry, second⟩ : Engine).Balanced store := by
  intro aggregate present quota found
  have connected := (regular.of_mem_fields present.registered).isConnected aggregate.scope first
  rw [balanced aggregate ⟨present.registered, present.aggregator, connected⟩ quota found, same]

/-- A new entity without records adds nothing to any sum over children. -/
theorem childTotal_insert {node : Node} (closed : graph.Closed)
    (absent : graph.contains entity = false) (unborn : ∀ name, lookup store entity name = none)
    (scope : Entity) (field : Field) :
    (⟨registry, graph.insert entity node⟩ : Engine).childTotal store scope field =
      (⟨registry, graph⟩ : Engine).childTotal store scope field := by
  unfold childTotal
  cases field.aggregator? with
  | none => rfl
  | some rule =>
      cases field.childQuota? with
      | none => rfl
      | some quota =>
          dsimp only [AggregatorRule.children]
          rw [Graph.sum_referencing_insert absent (closed.keepsPath_insert absent _ _),
            reading_of_none (unborn quota), ite_self, zero_add]

/-- An entity whose records are gone is missing from no sum over children. -/
theorem childTotal_remove (closed : (graph.remove entity).Closed)
    (present : graph.contains entity = true) (gone : ∀ name, lookup store entity name = none)
    (scope : Entity) (field : Field) :
    (⟨registry, graph.remove entity⟩ : Engine).childTotal store scope field =
      (⟨registry, graph⟩ : Engine).childTotal store scope field := by
  obtain ⟨node, whole⟩ := Graph.exists_insert_remove present
  have same : (⟨registry, (graph.remove entity).insert entity node⟩ : Engine).childTotal store scope
      field = (⟨registry, graph.remove entity⟩ : Engine).childTotal store scope field :=
    childTotal_insert closed (Graph.contains_remove_self graph entity) gone scope field
  rw [whole] at same
  exact same.symm

/-- The order in which targets are listed does not matter to a total of integers. -/
theorem childTotal_congr {other : Graph}
    (perm : ∀ kind path scope,
      (other.referencing kind path scope).Perm (graph.referencing kind path scope))
    (scope : Entity) (field : Field) :
    (⟨registry, other⟩ : Engine).childTotal store scope field =
      (⟨registry, graph⟩ : Engine).childTotal store scope field := by
  unfold childTotal
  cases field.aggregator? with
  | none => rfl
  | some rule =>
      cases field.childQuota? with
      | none => rfl
      | some quota => exact ((perm _ _ _).map _).sum_eq

/-- Where a new entity gets all its records, the records are again those of the existing entities. -/
theorem placed_of_creates {node : Node} (placed : (⟨registry, graph⟩ : Engine).Placed before)
    (maintains : (⟨registry, graph.insert entity node⟩ : Engine).Maintains
      (⟨registry, graph.insert entity node⟩ : Engine).Inside before after)
    (own : ∀ field ∈ registry.fields entity.kind, stored after entity field.name = true) :
    (⟨registry, graph.insert entity node⟩ : Engine).Placed after := by
  intro scope name
  rw [Graph.contains_insert]
  constructor
  · intro present
    refine ⟨?_, maintains.sound.registered scope name present⟩
    by_contra outside
    have untouched : ¬ (⟨registry, graph.insert entity node⟩ : Engine).Inside scope name :=
      fun inside => outside ((Graph.contains_insert scope).1 inside)
    rw [stored, maintains.frame.same scope name untouched] at present
    exact outside (.inr ((placed scope name).1 present).1)
  · rintro ⟨rfl | earlier, known⟩
    · obtain ⟨field, isField⟩ := Option.isSome_iff_exists.1 known
      obtain ⟨registered, rfl⟩ := Registry.field?_eq_some_iff.1 isField
      exact own field registered
    · exact maintains.frame.kept scope name ((placed scope name).2 ⟨earlier, known⟩)

/-- Where the records of an entity are removed, the others are those of the remaining entities. -/
theorem placed_of_removes (closed : engine.graph.Closed) (placed : engine.Placed before)
    (removes : engine.Maintains (engine.Reaches entity) (drop before entity) after)
    (gone : ∀ name, lookup after entity name = none) :
    (⟨engine.registry, engine.graph.remove entity⟩ : Engine).Placed after := by
  intro scope name
  rw [Graph.contains_remove]
  constructor
  · intro present
    refine ⟨⟨?_, ?_⟩, removes.sound.registered scope name present⟩
    · rintro rfl
      rw [stored, gone] at present
      cases present
    · by_contra outside
      have unreached : ¬ engine.Reaches entity scope name := fun reaches =>
        outside (inside_of_reaches closed reaches)
      rw [stored, removes.frame.same scope name unreached,
        LawfulStore.lookup_drop] at present
      split at present
      · cases present
      · exact outside ((placed scope name).1 present).1
  · rintro ⟨⟨elsewhere, earlier⟩, known⟩
    apply removes.frame.kept
    rw [stored, LawfulStore.lookup_drop, if_neg elsewhere]
    exact (placed scope name).2 ⟨earlier, known⟩

/-- The creation of a new entity is prepared by a consistent store. -/
theorem Consistent.prepared_created {node : Node} (regular : registry.Regular)
    (consistent : (⟨registry, graph⟩ : Engine).Consistent store)
    (absent : graph.contains entity = false) (closed : (graph.insert entity node).Closed)
    (shallow : (graph.insert entity node).Shallow) :
    (⟨registry, graph.insert entity node⟩ : Engine).Prepared (.created entity) store where
  unborn _ := consistent.unborn absent
  covered aggregate above := by
    have inside := (Graph.contains_insert _).1 (closed.of_above above.above)
    have present := inside.resolve_left fun same =>
      shallow.not_above_self entity (same ▸ above.above)
    exact consistent.stored present above.registered
  targets scope name targets elsewhere := by
    obtain ⟨field, registered, rfl, isTarget, -⟩ := targets.mem_fields
    have inside := (Graph.contains_insert _).1 (targets.inside closed)
    have present := inside.resolve_left fun same => elsewhere rfl same.symm
    obtain ⟨quota, found⟩ := lookup_of_stored (consistent.stored present registered)
    have floor := consistent.reading_nonneg regular registered isTarget present
    rw [reading_eq found] at floor
    refine ⟨⟨quota, found, floor⟩, fun aggregate above => ?_⟩
    exact consistent.stored (consistent.closed.above_insert absent present above.above)
      above.registered

/-- A new entity is created with all its records and with its weight in every counter. -/
theorem Consistent.created {node : Node} (regular : registry.Regular)
    (consistent : (⟨registry, graph⟩ : Engine).Consistent store)
    (absent : graph.contains entity = false)
    (refers : ∀ (relation : String) (other : Entity), node.relations[relation]? = some other →
      other = entity ∨ graph.contains other = true)
    (nonnegative : ∀ (name : String) (value : Amount), node.attributes[name]? = some value →
      0 ≤ value.value)
    (matching : (⟨registry, graph.insert entity node⟩ : Engine).Matching)
    (shallow : (graph.insert entity node).Shallow)
    (exact : RecordedStore.AllFit (⟨registry, graph.insert entity node⟩ : Engine).Exact
      (Action.history ((⟨registry, graph.insert entity node⟩ : Engine).handle (.created entity))
        store))
    (succeeds : Action.outcome ((⟨registry, graph.insert entity node⟩ : Engine).handle
      (.created entity)) store = .ok ⟨⟩) :
    (⟨registry, graph.insert entity node⟩ : Engine).Consistent
      (Action.after ((⟨registry, graph.insert entity node⟩ : Engine).handle (.created entity))
        store) := by
  let engine : Engine := ⟨registry, graph.insert entity node⟩
  have closed : engine.graph.Closed := consistent.closed.insert refers
  have nonneg : engine.graph.Nonnegative := consistent.nonnegative.insert nonnegative
  have present : engine.graph.contains entity = true := (Graph.contains_insert _).2 (.inl rfl)
  have unborn := consistent.unborn absent
  have sound : engine.Sound store :=
    ⟨balanced_of_childTotal regular (childTotal_insert consistent.closed absent unborn)
      consistent.balanced, consistent.sound.registered⟩
  have adds := ensures_entityCreated_adds shallow regular nonneg
    (consistent.prepared_created regular absent closed shallow)
  have keeps := ensures_entityCreated_sound matching shallow closed present
    (fun field registered => (regular.of_mem_fields registered).isConnected entity _) sound
  obtain ⟨added, kept⟩ := ((adds.restrict Exact.storeExact).and keeps).of_allFit
    (RecordedStore.answersAlike.handle engine (.created entity)) exact
  obtain ⟨maintains, own⟩ := kept succeeds
  refine ⟨closed, nonneg, placed_of_creates consistent.placed maintains own,
    maintains.sound.balanced, fun scope field registered targets inside => ?_⟩
  have isRegular := regular.of_mem_fields registered
  rw [isRegular.weightTotal_insert absent
    fun _ path _ kind _ => consistent.closed.keepsPath_insert absent kind path]
  rcases (Graph.contains_insert _).1 inside with rfl | earlier
  · rw [added succeeds entity field registered targets (.inl rfl),
      reading_of_none (unborn field.name), Field.weightTotal_of_absent consistent.closed absent]
    exact add_comm _ _
  · rw [added succeeds scope field registered targets
      (.inr (consistent.stored earlier registered)),
      consistent.counted scope field registered targets earlier]
    exact add_comm _ _

/-- The deletion of an entity is prepared by a consistent store. -/
theorem Consistent.prepared_deleted (regular : engine.registry.Regular)
    (consistent : engine.Consistent store) : engine.Prepared (.deleted entity) store :=
  prepared_of_placed (by simp) consistent.closed consistent.placed
    fun _ _ registered targets inside => consistent.reading_nonneg regular registered targets inside

/-- An entity that no other refers to is deleted with all its records and with its weight in every
counter. -/
theorem Consistent.deleted (regular : registry.Regular)
    (consistent : (⟨registry, graph⟩ : Engine).Consistent store)
    (present : graph.contains entity = true)
    (unreferenced : ∀ other relation, graph.related other relation = some entity →
      other = entity)
    (matching : (⟨registry, graph⟩ : Engine).Matching) (shallow : graph.Shallow)
    (exact : RecordedStore.AllFit (⟨registry, graph⟩ : Engine).Exact
      (Action.history ((⟨registry, graph⟩ : Engine).handle (.deleted entity)) store))
    (succeeds : Action.outcome ((⟨registry, graph⟩ : Engine).handle (.deleted entity)) store =
      .ok ⟨⟩) :
    (⟨registry, graph.remove entity⟩ : Engine).Consistent
      (Action.after ((⟨registry, graph⟩ : Engine).handle (.deleted entity)) store) := by
  let engine : Engine := ⟨registry, graph⟩
  have closed : (graph.remove entity).Closed := consistent.closed.remove unreferenced
  have nonneg : (graph.remove entity).Nonnegative := consistent.nonnegative.remove
  have total : ∀ scope, ∀ field ∈ registry.fields scope.kind,
      field.weightTotal scope graph = field.contribution scope graph entity
        (field.weight entity graph).value + field.weightTotal scope (graph.remove entity) :=
    fun scope field registered =>
      (regular.of_mem_fields registered).weightTotal_remove present
        (fun _ path _ kind _ => closed.keepsPath_remove present kind path) scope
  -- What the entity has added is still in the count, because no other weight is negative.
  have enough : ∀ scope, ∀ field ∈ registry.fields scope.kind,
      engine.Targets entity scope field.name → field.contribution scope graph entity
        (field.weight entity graph).value ≤ reading store scope field.name .usage := by
    intro scope field registered targets
    have rest := Field.weightTotal_nonneg
      ((regular.of_mem_fields registered).weight_nonneg nonneg) scope
    rw [consistent.counted scope field registered (targets.isSome_targets? registered)
      (targets.inside consistent.closed), total scope field registered]
    omega
  have adds := ensures_entityDeleted_adds shallow regular consistent.nonnegative
    (consistent.prepared_deleted regular) enough
  have keeps : Ensures engine.Exact (engine.handle (.deleted entity)) store _ :=
    ensures_entityDeleted_sound matching shallow consistent.closed consistent.sound
  obtain ⟨added, kept⟩ := ((adds.restrict Exact.storeExact).and keeps).of_allFit
    (RecordedStore.answersAlike.handle engine (.deleted entity)) exact
  obtain ⟨middle, maintains, removes⟩ := kept succeeds
  have gone : ∀ name, lookup (Action.after (engine.handle (.deleted entity)) store) entity name =
      none := by
    intro name
    have same := removes.frame.same entity name (not_reaches_self shallow entity name)
    rwa [LawfulStore.lookup_drop, if_pos rfl] at same
  refine ⟨closed, nonneg, placed_of_removes consistent.closed
    (placed_of_maintains consistent.placed maintains) removes gone,
    balanced_of_childTotal regular (childTotal_remove closed present gone) removes.sound.balanced,
    fun scope field registered targets inside => ?_⟩
  obtain ⟨elsewhere, earlier⟩ := (Graph.contains_remove scope).1 inside
  rw [added succeeds scope field registered targets (Ne.symm elsewhere)
    (consistent.stored earlier registered),
    consistent.counted scope field registered targets earlier, total scope field registered]
  exact add_sub_cancel_left _ _

/-- An attribute does not change which scopes sum a child. -/
theorem matching_setAttribute {name : String} {value : Amount}
    (matching : (⟨registry, graph⟩ : Engine).Matching) :
    (⟨registry, graph.setAttribute entity name value⟩ : Engine).Matching := by
  intro parent field rule quota registered isRule isQuota child known
  have same : child ∈ rule.children parent (graph.setAttribute entity name value) ↔
      child ∈ rule.children parent graph :=
    (Graph.perm_referencing_setAttribute rule.childKind rule.path parent).mem_iff
  have count := matching parent field rule quota registered isRule isQuota child known
  rw [Graph.quotaParents_setAttribute, count]
  simp only [same]

/-- An attribute does not make a hierarchy deeper. -/
theorem shallow_setAttribute {name : String} {value : Amount} (shallow : graph.Shallow) :
    (graph.setAttribute entity name value).Shallow := by
  apply shallow.of_subset
  intro scope
  rw [Graph.quotaParents_setAttribute]
  exact List.Subset.refl _

/-- An attribute does not move records. -/
theorem placed_setAttribute {name : String} {value : Amount}
    (placed : (⟨registry, graph⟩ : Engine).Placed store) :
    (⟨registry, graph.setAttribute entity name value⟩ : Engine).Placed store := by
  intro scope label
  rw [Graph.contains_setAttribute]
  exact placed scope label

/-- The change of an attribute is prepared by a store that is consistent with the earlier graph. -/
theorem Consistent.prepared_attributeChanged {name : String} {old value : Amount}
    (regular : registry.Regular) (consistent : (⟨registry, graph⟩ : Engine).Consistent store) :
    (⟨registry, graph.setAttribute entity name value⟩ : Engine).Prepared
      (.attributeChanged entity name old value) store := by
  apply prepared_of_placed (by simp) consistent.closed.setAttribute
    (placed_setAttribute consistent.placed)
  intro scope field registered targets inside
  rw [Graph.contains_setAttribute] at inside
  exact consistent.reading_nonneg regular registered targets inside

/-- An attribute is changed together with the totals that track it. -/
theorem Consistent.attributeChanged {name : String} {old value : Amount}
    (regular : registry.Regular) (consistent : (⟨registry, graph⟩ : Engine).Consistent store)
    (present : graph.contains entity = true) (positive : 0 ≤ value.value)
    (previous : old = (graph.attributeOf entity name).getD 0)
    (matching : (⟨registry, graph⟩ : Engine).Matching) (shallow : graph.Shallow)
    (exact : RecordedStore.AllFit (⟨registry, graph.setAttribute entity name value⟩ : Engine).Exact
      (Action.history ((⟨registry, graph.setAttribute entity name value⟩ : Engine).handle
        (.attributeChanged entity name old value)) store))
    (succeeds : Action.outcome ((⟨registry, graph.setAttribute entity name value⟩ : Engine).handle
      (.attributeChanged entity name old value)) store = .ok ⟨⟩) :
    (⟨registry, graph.setAttribute entity name value⟩ : Engine).Consistent
      (Action.after ((⟨registry, graph.setAttribute entity name value⟩ : Engine).handle
        (.attributeChanged entity name old value)) store) := by
  let engine : Engine := ⟨registry, graph.setAttribute entity name value⟩
  have difference : value.SubtractsExactly old := by
    have oldPositive : 0 ≤ old.value := previous ▸ consistent.nonnegative.value_getD entity name
    exact Amount.subtractsExactly_of_nonneg positive oldPositive
  have closed : engine.graph.Closed := consistent.closed.setAttribute
  have nonneg : engine.graph.Nonnegative := consistent.nonnegative.setAttribute present positive
  have isShallow : engine.graph.Shallow := shallow_setAttribute shallow
  have placed : engine.Placed store := placed_setAttribute consistent.placed
  have sound : engine.Sound store :=
    ⟨balanced_of_childTotal regular (childTotal_congr Graph.perm_referencing_setAttribute)
      consistent.balanced, consistent.sound.registered⟩
  have earlier {scope : Entity} (inside : engine.graph.contains scope = true) :
      graph.contains scope = true := by rwa [Graph.contains_setAttribute] at inside
  have total : ∀ scope, ∀ field ∈ registry.fields scope.kind, field.targets?.isSome →
      engine.graph.contains scope = true → field.weightTotal scope engine.graph =
        reading store scope field.name .usage + field.contribution scope engine.graph entity
          (if field.trackedAttribute? = some name then value.value - old.value else 0) := by
    intro scope field registered targets inside
    have isRegular := regular.of_mem_fields registered
    rw [isRegular.weightTotal_setAttribute present, isRegular.weight_setAttribute present,
      consistent.counted scope field registered targets (earlier inside), previous]
    exact add_comm _ _
  -- The total after the change is not negative, so the change takes none below zero.
  have enough : ∀ scope, ∀ field ∈ registry.fields scope.kind,
      engine.Targets entity scope field.name →
      0 ≤ reading store scope field.name .usage + field.contribution scope engine.graph entity
        (if field.trackedAttribute? = some name then value.value - old.value else 0) := by
    intro scope field registered targets
    rw [← total scope field registered (targets.isSome_targets? registered)
      (targets.inside closed)]
    exact Field.weightTotal_nonneg ((regular.of_mem_fields registered).weight_nonneg nonneg) scope
  have adds := ensures_attributeChanged_adds isShallow regular
    (consistent.prepared_attributeChanged regular) difference enough
  have keeps := ensures_attributeChanged_sound (matching_setAttribute matching) isShallow closed
    entity name old value sound
  obtain ⟨added, maintains⟩ := ((adds.restrict Exact.storeExact).and keeps).of_allFit
    (RecordedStore.answersAlike.handle engine (.attributeChanged entity name old value)) exact
  refine ⟨closed, nonneg, placed_of_maintains placed maintains, maintains.sound.balanced,
    fun scope field registered targets inside => ?_⟩
  rw [added succeeds scope field registered targets (consistent.stored (earlier inside) registered),
    total scope field registered targets inside]

/-- An attribute that is set and then set back leaves everything in agreement. -/
theorem Consistent.setBack {name : String} {old value : Amount} (regular : registry.Regular)
    (consistent : (⟨registry, graph⟩ : Engine).Consistent store)
    (present : graph.contains entity = true) (positive : 0 ≤ value.value)
    (previous : old = (graph.attributeOf entity name).getD 0) :
    (⟨registry, (graph.setAttribute entity name value).setAttribute entity name old⟩ :
      Engine).Consistent store := by
  have middle : (graph.setAttribute entity name value).contains entity = true := by
    rwa [Graph.contains_setAttribute]
  have perm : ∀ kind path scope,
      (((graph.setAttribute entity name value).setAttribute entity name old).referencing kind path
        scope).Perm (graph.referencing kind path scope) := fun kind path scope =>
    (Graph.perm_referencing_setAttribute kind path scope).trans
      (Graph.perm_referencing_setAttribute kind path scope)
  have same : ∀ other label,
      (((graph.setAttribute entity name value).setAttribute entity name old).attributeOf other
        label).getD 0 = (graph.attributeOf other label).getD 0 := by
    intro other label
    rw [Graph.attributeOf_setAttribute middle, Graph.attributeOf_setAttribute present]
    split
    · rename_i here
      rw [previous, here.1, here.2, Option.getD_some]
    · rfl
  have oldPositive : 0 ≤ old.value := previous ▸ consistent.nonnegative.value_getD entity name
  refine ⟨consistent.closed.setAttribute.setAttribute,
    (consistent.nonnegative.setAttribute present positive).setAttribute middle oldPositive,
    placed_setAttribute (placed_setAttribute consistent.placed),
    balanced_of_childTotal regular (childTotal_congr perm) consistent.balanced,
    fun scope field registered targets inside => ?_⟩
  rw [Graph.contains_setAttribute, Graph.contains_setAttribute] at inside
  rw [consistent.counted scope field registered targets inside]
  apply (Field.weightTotal_congr perm (fun target => ?_) scope).symm
  exact (regular.of_mem_fields registered).weight_congr fun label _ => same target label

end Events

end Engine

end HierarchicalQuota
