import HierarchicalQuota.Proofs.Updates
import HierarchicalQuota.Proofs.Tree.Hierarchy

namespace HierarchicalQuota.TreeShape

open HierarchicalQuota.Action (Ensures outcome after)
open LawfulStore (lookup put)

variable {σ : Type} [QuotaStore σ] [LawfulStore σ] {shape : TreeShape} {graph : Graph}
  {fit : StoreCall → σ → Prop}

/-- The engine of a tree applies the same rules while the graph grows. -/
def engineOn (shape : TreeShape) (graph : Graph) : Engine := ⟨shape.grownRegistry, graph⟩

/-- A store is unused if no record in it has a usage. -/
def Unused (store : σ) : Prop := ∀ scope name, reading store scope name .usage = 0

/-- A record without usage keeps a store unused. -/
theorem Unused.put {store : σ} (unused : Unused store) (scope : Entity) (name : String)
    {quota : Quota} (zero : quota.usage = 0) : Unused (put store scope name quota) := by
  intro other label
  rw [reading, LawfulStore.lookup_put]
  split
  · simp [Quota.value, zero]
  · exact unused other label

/-- On an unused store every record starts unused, also that of an aggregate. -/
theorem usage_starting {store : σ} (unused : Unused store) {scope : Entity} {field : Field}
    (member : field ∈ shape.grownRegistry.fields scope.kind) :
    ((shape.engineOn graph).starting store scope field).usage = 0 := by
  rw [Engine.starting]
  split
  · rename_i aggregator
    obtain ⟨level, -, -, rfl⟩ := eq_innerField_of_aggregator member aggregator
    exact summed_eq_zero fun child _ => unused child "usage"
  · rw [Field.initial, (starts_unused member).2]
    rfl

/-- The inner levels sum usages, so no aggregate stands over a limit. -/
theorem aggregatesOver_limit (scope : Entity) (name : String) :
    (shape.engineOn graph).aggregatesOver scope name .limit = [] := by
  apply List.eq_nil_iff_forall_not_mem.2
  intro aggregate member
  obtain ⟨-, registered, sums, measures, -⟩ := Engine.mem_aggregatesOver.1 member
  have aggregator : aggregate.field.aggregator?.isSome = true := by
    cases rule : aggregate.field.aggregator? with
    | none => simp [rule] at measures
    | some rule => rfl
  obtain ⟨level, -, -, inner⟩ := eq_innerField_of_aggregator registered aggregator
  rw [inner] at measures
  cases measures

omit [LawfulStore σ] in
/-- A new record has nothing to pass on. -/
theorem ensures_announce_unused {scope : Entity} {name : String} {quota : Quota}
    (zero : quota.usage = 0) (store : σ) :
    Ensures fit ((shape.engineOn graph).announce scope name quota) store fun result after =>
      result = .ok [] ∧ after = store := by
  refine Action.ensures_bind (fun _ => inferInstance)
    ((Engine.ensures_spread_nowhere (.inl zero) store).mono ?_)
  intro result middle settled
  obtain ⟨rfl, rfl⟩ := settled
  refine Action.ensures_bind (fun _ => inferInstance)
    ((Engine.ensures_spread_nowhere (.inr (aggregatesOver_limit scope name)) middle).mono ?_)
  intro result after settled
  obtain ⟨rfl, rfl⟩ := settled
  exact Action.ensures_pure ⟨rfl, rfl⟩

/-- A field without a record gets one, and nothing else changes. -/
theorem ensures_ensure_unused {store : σ} (unused : Unused store) {scope : Entity} {field : Field}
    (member : field ∈ shape.grownRegistry.fields scope.kind)
    (absent : lookup store scope field.name = none) :
    Ensures fit ((shape.engineOn graph).ensure scope field) store fun result after =>
      (∃ quota, result = .ok quota) ∧ ∃ quota, quota.usage = 0 ∧
        after = put store scope field.name quota := by
  have zero : ((shape.engineOn graph).starting store scope field).usage = 0 :=
    usage_starting unused member
  refine Engine.ensures_ensure_of_steps (fun quota found => ?_) fun _ => ?_
  · rw [absent] at found
    cases found
  rw [← Engine.length_aggregateKeys]
  refine Engine.ensures_create_of_announce _ ⟨scope, field⟩ absent fun _ =>
    (ensures_announce_unused zero _).mono ?_
  intro result after settled
  obtain ⟨rfl, rfl⟩ := settled
  exact Action.ensures_pure ⟨⟨_, rfl⟩, _, zero, rfl⟩

/-- One step of the growth leaves the store unused, keeps all records and makes some. -/
structure Furnishes (scope : Entity) (fields : List Field) (before after : σ) : Prop where
  unused : Unused after
  kept : ∀ other name, stored before other name = true → stored after other name = true
  made : ∀ field ∈ fields, stored after scope field.name = true

/-- The records of a new scope are created, and none has a usage. -/
theorem ensures_initializeFields_unused {scope : Entity} (fields : List Field)
    (registered : fields ⊆ shape.grownRegistry.fields scope.kind) {store : σ}
    (unused : Unused store) :
    Ensures fit ((shape.engineOn graph).initializeFields scope fields) store fun result after =>
      (∃ count, result = .ok count) ∧ Furnishes scope fields store after := by
  induction fields generalizing store with
  | nil => exact Action.ensures_pure ⟨⟨0, rfl⟩, unused, fun _ _ kept => kept, by simp⟩
  | cons field fields inductionHypothesis =>
      obtain ⟨member, others⟩ := List.cons_subset.1 registered
      have connected : field.isConnected scope graph = true := by
        simp [Field.isConnected, (starts_unused member).1]
      unfold Engine.initializeFields
      rw [if_pos (show field.isConnected scope (shape.engineOn graph).graph = true from connected)]
      refine Action.ensures_bind (fun found => by cases found <;> infer_instance)
        (Action.ensures_access (Action.ensures_get ?_))
      cases found : lookup store scope field.name with
      | some quota =>
          refine (inductionHypothesis others unused).mono ?_
          intro result after furnished
          obtain ⟨counted, furnishes⟩ := furnished
          refine ⟨counted, furnishes.unused, furnishes.kept, ?_⟩
          rw [List.forall_mem_cons]
          exact ⟨furnishes.kept _ _ (stored_of_lookup found), furnishes.made⟩
      | none =>
          refine Action.ensures_bind (fun _ => inferInstance)
            (Action.ensures_discard ((ensures_ensure_unused unused member found).mono ?_))
          intro result middle created
          obtain ⟨⟨_, rfl⟩, quota, zero, rfl⟩ := created
          have present : stored (put store scope field.name quota) scope field.name = true := by
            simp [stored, LawfulStore.lookup_put]
          refine Action.ensures_bind (fun _ => inferInstance)
            ((inductionHypothesis others (unused.put scope field.name zero)).mono ?_)
          intro result after furnished
          obtain ⟨⟨count, rfl⟩, furnishes⟩ := furnished
          refine Action.ensures_pure ⟨⟨count + 1, rfl⟩, furnishes.unused, ?_, ?_⟩
          · intro other name kept
            apply furnishes.kept
            rw [stored, LawfulStore.lookup_put]
            split
            · rfl
            · exact kept
          · rw [List.forall_mem_cons]
            exact ⟨furnishes.kept _ _ present, furnishes.made⟩

/-- A new scope of a level gets all its records, and no counter has a say in it. -/
theorem ensures_entityCreated_unused {scope : Entity} {level : Nat} (low : level < shape.depth)
    (kind : scope.kind = levelKind level) {store : σ} (unused : Unused store) :
    Ensures fit ((shape.engineOn graph).entityCreated scope) store fun result after =>
      result = .ok ⟨⟩ ∧ Furnishes scope (shape.grownRegistry.fields scope.kind) store after := by
  obtain ⟨field, registered, -⟩ := exists_usage low
  have isScope : shape.grownRegistry.isScopeKind scope.kind = true := by
    rw [kind]
    exact Registry.isScopeKind_of_mem_fields registered
  have untargeted : (engineOn shape graph).registry.targeting scope.kind = [] := by
    rw [kind]
    exact targeting_levelKind level
  refine Engine.ensures_entityCreated_of_steps isScope ((ensures_initializeFields_unused _
    (fun _ member => member) unused).mono ?_)
  intro result middle furnished
  obtain ⟨⟨count, rfl⟩, furnishes⟩ := furnished
  unfold Engine.applyTargetChange
  rw [untargeted]
  exact Action.ensures_pure ⟨rfl, furnishes⟩

/-- A store is ready for a graph if it is unused and holds the records of all its scopes. -/
structure Ready (shape : TreeShape) (graph : Graph) (store : σ) : Prop where
  unused : Unused store
  furnished : ∀ scope, graph.contains scope = true →
    ∀ field ∈ shape.grownRegistry.fields scope.kind, stored store scope field.name = true

/-- A part of the growth succeeds with a value, after which the store is ready for a graph. -/
def Yields {ε α : Type} (shape : TreeShape) (action : EStateM ε σ α) (store : σ) (value : α)
    (graph : Graph) : Prop :=
  ∃ after, action store = .ok value after ∧ shape.Ready graph after

/-- Steps of the growth follow each other, and the graph grows from step to step. -/
theorem Yields.bind {α β : Type} {action : Action σ α} {next : α → Action σ β} {store : σ}
    {value : α}
    {result : β} {larger : Graph} (first : shape.Yields action store value graph)
    (second : ∀ middle, shape.Ready graph middle → shape.Yields (next value) middle result larger) :
    shape.Yields (action >>= next) store result larger := by
  obtain ⟨middle, run, ready⟩ := first
  rw [Yields, Action.bind_of_eq_ok run]
  exact second middle ready

/-- A value that is returned adds no scope. -/
theorem yields_pure {α : Type} {store : σ} (value : α) (ready : shape.Ready graph store) :
    shape.Yields (pure value : Action σ α) store value graph := ⟨store, rfl, ready⟩

/-- A new scope joins the graph and gets its records. -/
theorem yields_addScope {scope : Entity} {level : Nat} (low : level < shape.depth)
    (kind : scope.kind = levelKind level) (relations : Table String Entity) {store : σ}
    (ready : shape.Ready graph store) :
    shape.Yields (addScope (shape.engineOn graph) scope relations) store
      (shape.engineOn (graph.insert scope { relations })) (graph.insert scope { relations }) := by
  have creates : Ensures (fun _ _ => True)
      ((shape.engineOn (graph.insert scope { relations })).entityCreated scope) store
      fun result after => result = .ok ⟨⟩ ∧
        Furnishes scope (shape.grownRegistry.fields scope.kind) store after :=
    ensures_entityCreated_unused low kind ready.unused
  obtain ⟨succeeds, furnishes⟩ := creates.of_allFit
    (RecordedStore.answersAlike.entityCreated _ scope) fun _ _ => trivial
  refine ⟨_, Action.bind_of_eq_ok (Action.eq_ok_iff.2 ⟨succeeds, rfl⟩), furnishes.unused, ?_⟩
  intro other present field registered
  cases Graph.contains_insert other |>.1 present with
  | inl same =>
      subst same
      exact furnishes.made field registered
  | inr earlier => exact furnishes.kept _ _ (ready.furnished other earlier field registered)

/-- The children of a parent are added one after the other. The induction is on them. -/
theorem yields_addChildren {level : Nat} (low : level < shape.depth) (parent : Entity)
    {children : List Entity} (kinds : ∀ child ∈ children, child.kind = levelKind level) {store : σ}
    (ready : shape.Ready graph store) :
    let links := children.map fun child => (child, parent)
    shape.Yields (addChildren parent children (shape.engineOn graph)) store
      (shape.engineOn (attach links graph)) (attach links graph) := by
  induction children generalizing graph store with
  | nil => exact yields_pure _ ready
  | cons child children inductionHypothesis =>
      rw [List.forall_mem_cons] at kinds
      exact (yields_addScope low kinds.1 _ ready).bind fun middle readyMiddle =>
        inductionHypothesis kinds.2 readyMiddle

/-- The children of all parents make one level. -/
theorem yields_addLevel {level : Nat} (low : level < shape.depth) (parents : List Entity) {store : σ}
    (ready : shape.Ready graph store) :
    let links := parents.flatMap fun parent =>
      (shape.children level parent).map fun child => (child, parent)
    shape.Yields (shape.addLevel level parents (shape.engineOn graph)) store
      (shape.engineOn (attach links graph)) (attach links graph) := by
  induction parents generalizing graph store with
  | nil => exact yields_pure _ ready
  | cons parent parents inductionHypothesis =>
      have kinds : ∀ child ∈ shape.children level parent, child.kind = levelKind level := by
        intro child isChild
        obtain ⟨index, -, rfl⟩ := mem_children.1 isChild
        rfl
      intro links
      rw [show links = _ ++ _ from List.flatMap_cons, attach_append]
      exact (yields_addChildren low parent kinds ready).bind fun middle readyMiddle =>
        inductionHypothesis readyMiddle

/-- The remaining levels are linked one after the other. The induction is on their number. -/
theorem yields_addLevels {remaining level : Nat} (low : level + remaining < shape.depth) {store : σ}
    (ready : shape.Ready graph store) :
    let larger := attach ((List.range' level remaining).flatMap shape.linksAt) graph
    shape.Yields
      (shape.addLevels remaining (level + 1) (shape.scopesAt level) (shape.engineOn graph)) store
      { engine := shape.engineOn larger, leaves := shape.scopesAt (level + remaining) } larger := by
  induction remaining generalizing level graph store with
  | zero => exact yields_pure _ ready
  | succ remaining inductionHypothesis =>
      rw [List.range'_succ, List.flatMap_cons, attach_append,
        show level + (remaining + 1) = level + 1 + remaining by omega]
      exact (yields_addLevel (by omega) _ ready).bind fun middle readyMiddle =>
        inductionHypothesis (by omega) readyMiddle

/-- A tree of at least one level grows from its registry on every store that is still unused. -/
theorem yields_grow (positive : 1 ≤ shape.depth) {store : σ} (unused : Unused store) :
    shape.Yields (shape.grow shape.grownRegistry) store shape.grown shape.grownGraph := by
  have empty : shape.Ready shape.emptyGraph store := by
    refine ⟨unused, ?_⟩
    intro scope present
    rw [Graph.contains_eq, Graph.node?, nodes_emptyGraph] at present
    simp at present
  refine (yields_addScope positive rfl ∅ empty).bind fun second readySecond => ?_
  have rest := @yields_addLevels _ _ _ shape _ (shape.depth - 1) 0 (by omega) _ readySecond
  rw [Nat.zero_add, Nat.zero_add, ← List.range_eq_range'] at rest
  exact rest

/-- A tree with a level is built on every unused store. -/
theorem yields_build (positive : 1 ≤ shape.depth) {store : σ} (unused : Unused store) :
    shape.Yields shape.build store shape.grown shape.grownGraph := by
  obtain ⟨after, run, ready⟩ := yields_grow positive unused
  refine ⟨after, ?_, ready⟩
  rw [build, registry_eq shape positive]
  simp only [EStateM.adaptExcept, run]

/-- Only a tree without levels is refused, and then the store stays as it is. -/
theorem build_eq_error_iff {store after : σ} {error : TreeError} (unused : Unused store) :
    shape.build store = .error error after ↔
      shape.depth = 0 ∧ error = .noLevels ∧ after = store := by
  by_cases flat : shape.depth = 0
  · rw [build, registry, if_pos flat]
    simp [flat, eq_comm]
  · have positive : 1 ≤ shape.depth := Nat.one_le_iff_ne_zero.2 flat
    obtain ⟨built, run, -⟩ := yields_build positive unused
    simp [run, flat]

end HierarchicalQuota.TreeShape
