import HierarchicalQuota.Proofs.Initialization
import HierarchicalQuota.Proofs.Validation

namespace HierarchicalQuota

open HierarchicalQuota.Action (Ensures)
open LawfulStore (lookup put)

variable {σ : Type} [QuotaStore σ] [LawfulStore σ]

namespace Engine

variable {engine : Engine} {fit : StoreCall → σ → Prop} {scope : Entity} {store : σ}

/-- A field wants a record if it is connected to the scope and has none. -/
def wanting (engine : Engine) (store : σ) (scope : Entity) (fields : List Field) : List Field :=
  fields.filter fun field =>
    field.isConnected scope engine.graph && !stored store scope field.name

/-- A scope wants the connected fields that have no record. -/
theorem mem_wanting {fields : List Field} {field : Field} :
    field ∈ engine.wanting store scope fields ↔
      field ∈ fields ∧ field.isConnected scope engine.graph = true ∧
        lookup store scope field.name = none := by
  simp [wanting, stored]

/-- Each field is wanted or skipped on its own. -/
theorem wanting_cons (field : Field) (fields : List Field) :
    engine.wanting store scope (field :: fields) =
      if field.isConnected scope engine.graph = true ∧ lookup store scope field.name = none then
        field :: engine.wanting store scope fields
      else engine.wanting store scope fields := by
  simp [wanting, List.filter_cons, stored]

/-- Only the records of the scope decide what it wants. -/
theorem wanting_congr {after : σ} {fields : List Field}
    (same : ∀ field ∈ fields, lookup after scope field.name = lookup store scope field.name) :
    engine.wanting after scope fields = engine.wanting store scope fields :=
  List.filter_congr fun field member => by rw [stored, stored, same field member]

/-- The children of a scope are apart from it if none of them is the scope itself or above it. -/
def ChildrenApart (engine : Engine) (scope : Entity) : Prop :=
  ∀ field ∈ engine.registry.fields scope.kind, ∀ rule ∈ field.aggregator?,
    ∀ child ∈ rule.children scope engine.graph, child ≠ scope ∧ ¬ engine.graph.Above scope child

/-- Two stores agree on all scopes that are not above a given one. -/
def AgreeBelow (engine : Engine) (scope : Entity) (before after : σ) : Prop :=
  ∀ other name, ¬ engine.graph.Above scope other → lookup after other name = lookup before other name

/-- A record that is created for a field is all that is written, except above the scope. -/
theorem ensures_ensure_absent (shallow : engine.graph.Shallow) {field : Field}
    (absent : lookup store scope field.name = none) :
    Ensures fit (engine.ensure scope field) store fun result after =>
      result = .ok (engine.starting store scope field) ∧
        engine.AgreeBelow scope
          (put store scope field.name (engine.starting store scope field)) after := by
  have spreads : engine.Spreads fit (fun child _ => child = scope ∨ engine.graph.Above scope child)
      (engine.AgreeBelow scope
        (put store scope field.name (engine.starting store scope field))) := by
    refine spreads_above fun middle place name quota above agrees other label below => ?_
    rw [LawfulStore.lookup_put, if_neg]
    · exact agrees other label below
    · rintro ⟨rfl, -⟩
      exact below above
  refine (ensures_ensure_kept spreads scope field (fun quota found => ?_)
    fun _ _ => ⟨fun _ _ _ => rfl, .inl rfl⟩).mono ?_
  · rw [absent] at found
    cases found
  · intro result after ⟨agrees, yields⟩
    cases result with
    | error error => exact absurd shallow yields
    | ok quota =>
        change quota = _ at yields
        rw [absent, Option.getD_none] at yields
        exact ⟨congrArg Except.ok yields, agrees⟩

/-- A scope is filled for some fields if those that wanted a record have what they start from, and if
all its other records stay as they were, and so do those of scopes that are not above. -/
structure Fills (engine : Engine) (scope : Entity) (fields : List Field) (before after : σ) :
    Prop where
  begun : ∀ field ∈ engine.wanting before scope fields,
    lookup after scope field.name = some (engine.starting before scope field)
  kept : ∀ other name, ¬ engine.graph.Above scope other →
    (other = scope → ∀ field ∈ engine.wanting before scope fields, field.name ≠ name) →
    lookup after other name = lookup before other name

/-- A field that is not connected or has a record is passed over. -/
theorem Fills.skip {field : Field} {fields : List Field} {before after : σ}
    (fills : engine.Fills scope fields before after)
    (skips : ¬ (field.isConnected scope engine.graph = true ∧
      lookup before scope field.name = none)) :
    engine.Fills scope (field :: fields) before after := by
  have same : engine.wanting before scope (field :: fields) = engine.wanting before scope fields := by
    rw [wanting_cons, if_neg skips]
  exact ⟨by rw [same]; exact fills.begun, by rw [same]; exact fills.kept⟩

section Written

variable {field : Field} {fields : List Field} {before middle after : σ}
  (acyclic : ¬ engine.graph.Above scope scope)
  (fresh : ∀ other ∈ fields, other.name ≠ field.name)
  (agrees : engine.AgreeBelow scope
    (put before scope field.name (engine.starting before scope field)) middle)

include agrees in
/-- A record neither written nor above the scope is as before. -/
theorem AgreeBelow.lookup_eq {other : Entity} {name : String}
    (below : ¬ engine.graph.Above scope other) (elsewhere : ¬ (scope = other ∧ field.name = name)) :
    lookup middle other name = lookup before other name := by
  rw [agrees other name below, LawfulStore.lookup_put, if_neg elsewhere]

include acyclic fresh agrees

/-- A new record does not change which of the other fields want one. -/
theorem AgreeBelow.wanting_eq :
    engine.wanting middle scope fields = engine.wanting before scope fields :=
  wanting_congr fun other member =>
    agrees.lookup_eq acyclic fun same => fresh other member same.2.symm

/-- After one record has been written the others follow, and each starts from what it would have
started from before, because no child of the scope has changed. -/
theorem Fills.cons (apart : engine.ChildrenApart scope)
    (registered : fields ⊆ engine.registry.fields scope.kind)
    (wants : field.isConnected scope engine.graph = true ∧ lookup before scope field.name = none)
    (fills : engine.Fills scope fields middle after) :
    engine.Fills scope (field :: fields) before after := by
  have first : engine.wanting before scope (field :: fields) =
      field :: engine.wanting middle scope fields := by
    rw [wanting_cons, if_pos wants, agrees.wanting_eq acyclic fresh]
  have starts (other : Field) (member : other ∈ fields) :
      engine.starting middle scope other = engine.starting before scope other := by
    refine starting_congr fun rule aggregator quota _ child selected => ?_
    obtain ⟨different, below⟩ := apart other (registered member) rule aggregator child selected
    exact agrees.lookup_eq below fun same => different same.1.symm
  refine ⟨?_, fun other name below unwanted => ?_⟩
  · rw [first]
    refine List.forall_mem_cons.2 ⟨?_, fun other member => ?_⟩
    · rw [fills.kept scope field.name acyclic fun _ other member => fresh other (mem_wanting.1 member).1,
        agrees scope field.name acyclic, LawfulStore.lookup_put, if_pos ⟨rfl, rfl⟩]
    · rw [fills.begun other member, starts other (mem_wanting.1 member).1]
  · rw [first] at unwanted
    have later := fills.kept other name below fun same candidate member =>
      unwanted same candidate (List.mem_cons_of_mem _ member)
    rw [later]
    exact agrees.lookup_eq below fun same => unwanted same.1.symm field List.mem_cons_self same.2

end Written

/-- One field after the other gets its record. The induction is on the fields. -/
theorem ensures_initializeFields_fills (shallow : engine.graph.Shallow)
    (apart : engine.ChildrenApart scope) (fields : List Field)
    (registered : fields ⊆ engine.registry.fields scope.kind)
    (distinct : (fields.map Field.name).Nodup) (store : σ) :
    Ensures fit (engine.initializeFields scope fields) store fun result after =>
      result = .ok (engine.wanting store scope fields).length ∧
        engine.Fills scope fields store after := by
  have acyclic := shallow.not_above_self scope
  induction fields generalizing store with
  | nil => exact Action.ensures_pure ⟨rfl, ⟨by simp [wanting], fun _ _ _ _ => rfl⟩⟩
  | cons field fields inductionHypothesis =>
      obtain ⟨-, others⟩ := List.cons_subset.1 registered
      obtain ⟨new, distinctOthers⟩ := List.nodup_cons.1 distinct
      have fresh (other : Field) (member : other ∈ fields) : other.name ≠ field.name :=
        fun same => new (same ▸ List.mem_map_of_mem member)
      -- A field without a connection and one with a record are passed over alike.
      have skipped (skips : ¬ (field.isConnected scope engine.graph = true ∧
          lookup store scope field.name = none)) :
          Ensures fit (engine.initializeFields scope fields) store fun result after =>
            result = .ok (engine.wanting store scope (field :: fields)).length ∧
              engine.Fills scope (field :: fields) store after := by
        rw [wanting_cons, if_neg skips]
        exact (inductionHypothesis others distinctOthers store).mono fun _ _ filled =>
          ⟨filled.1, filled.2.skip skips⟩
      unfold initializeFields
      split
      · rename_i connected
        refine Action.ensures_bind (fun found => by cases found <;> infer_instance)
          (Action.ensures_access (Action.ensures_get ?_))
        cases found : lookup store scope field.name with
        | some quota => exact skipped (by simp [found])
        | none =>
            refine Action.ensures_bind (fun _ => inferInstance) (Action.ensures_discard
              ((ensures_ensure_absent shallow found).mono ?_))
            rintro _ middle ⟨rfl, agrees⟩
            refine Action.ensures_bind (fun _ => inferInstance)
              ((inductionHypothesis others distinctOthers middle).mono ?_)
            rintro _ after ⟨rfl, fills⟩
            refine Action.ensures_pure
              ⟨?_, fills.cons acyclic fresh agrees apart others ⟨connected, found⟩⟩
            rw [wanting_cons, if_pos ⟨connected, found⟩, agrees.wanting_eq acyclic fresh]
            rfl
      · exact skipped fun wants => absurd wants.1 ‹_›

/-- Where every connected field has a record, an initialization does nothing. -/
theorem initializeFields_of_stored {fields : List Field}
    (full : ∀ field ∈ fields, field.isConnected scope engine.graph = true →
      stored store scope field.name = true) :
    engine.initializeFields scope fields store = .ok 0 store := by
  induction fields with
  | nil => rfl
  | cons field fields inductionHypothesis =>
      obtain ⟨present, others⟩ := List.forall_mem_cons.1 full
      unfold initializeFields
      split
      · rename_i connected
        obtain ⟨quota, found⟩ := lookup_of_stored (present connected)
        rw [Action.bind_of_eq_ok (Action.access_eq_ok (LawfulStore.get_eq store scope field.name)),
          found]
        exact inductionHypothesis others
      · exact inductionHypothesis others

/-- A scope is initialized if every connected field has a record, no other field has got one, the
earlier records are as they were, and each new record begins at the defaults of its field, except that
the usage of an aggregate is the sum over its children, whose records are as they were, too. -/
structure Initialized (engine : Engine) (scope : Entity) (before after : σ) : Prop where
  recorded : ∀ field ∈ engine.registry.fields scope.kind,
    field.isConnected scope engine.graph = true → stored after scope field.name = true
  unconnected : ∀ field ∈ engine.registry.fields scope.kind,
    field.isConnected scope engine.graph = false →
    lookup after scope field.name = lookup before scope field.name
  kept : KeepsRecords scope before after
  plain : ∀ field ∈ engine.wanting before scope (engine.registry.fields scope.kind),
    field.aggregator? = none →
    lookup after scope field.name = some (field.initial scope engine.graph)
  summed : ∀ field ∈ engine.wanting before scope (engine.registry.fields scope.kind),
    field.aggregator?.isSome = true →
    lookup after scope field.name =
      some { field.initial scope engine.graph with usage := engine.childSum after scope field }
  children : ∀ field ∈ engine.registry.fields scope.kind, ∀ rule ∈ field.aggregator?,
    ∀ child ∈ rule.children scope engine.graph, ∀ name,
      lookup after child name = lookup before child name

/-- In a shallow hierarchy a scope is initialized when all its fields are filled. -/
theorem Fills.initialized (shallow : engine.graph.Shallow) (apart : engine.ChildrenApart scope)
    {before after : σ} (fills : engine.Fills scope (engine.registry.fields scope.kind) before after) :
    engine.Initialized scope before after := by
  have acyclic := shallow.not_above_self scope
  have children : ∀ field ∈ engine.registry.fields scope.kind, ∀ rule ∈ field.aggregator?,
      ∀ child ∈ rule.children scope engine.graph, ∀ name,
        lookup after child name = lookup before child name := by
    intro field registered rule aggregator child selected name
    obtain ⟨other, below⟩ := apart field registered rule aggregator child selected
    exact fills.kept child name below fun same => absurd same other
  have kept : KeepsRecords scope before after := by
    intro name quota found
    rw [fills.kept scope name acyclic, found]
    rintro _ field member rfl
    have absent := (mem_wanting.1 member).2.2
    rw [found] at absent
    cases absent
  refine ⟨?_, ?_, kept, ?_, ?_, children⟩
  · intro field registered connected
    cases found : lookup before scope field.name with
    | some quota => exact stored_of_lookup (kept field.name quota found)
    | none => exact stored_of_lookup (fills.begun field (mem_wanting.2 ⟨registered, connected, found⟩))
  · intro field registered unconnected
    refine fills.kept scope field.name acyclic fun _ other member same => ?_
    obtain ⟨otherRegistered, connected, -⟩ := mem_wanting.1 member
    rw [Registry.eq_of_name_eq otherRegistered registered same, unconnected] at connected
    cases connected
  · intro field member plain
    rw [fills.begun field member, starting_of_plain before scope plain]
  · intro field member aggregates
    have registered := (mem_wanting.1 member).1
    have sum : engine.childSum after scope field = engine.childSum before scope field :=
      childSum_congr fun rule aggregator quota _ child selected =>
        children field registered rule aggregator child selected quota
    rw [fills.begun field member, starting, if_pos aggregates, sum]

/-- The initialization of a scope is complete, exact and idempotent, unless the scope sums itself or a
scope above it. It answers how many connected fields had no record and gives each of them one. The
quotas of the scope are then the records of its connected fields in the order of registration, and to
initialize the scope again changes nothing. -/
theorem initializeScope_exact (shallow : engine.graph.Shallow) (apart : engine.ChildrenApart scope)
    (store : σ) :
    ∃ after, engine.initializeScope scope store =
        .ok (engine.wanting store scope (engine.registry.fields scope.kind)).length after ∧
      engine.Initialized scope store after ∧
      (∃ records, engine.quotas scope after = .ok records after ∧
        records.map Record.name = ((engine.registry.fields scope.kind).filter fun field =>
          field.isConnected scope engine.graph).map Field.name ∧
        ∀ record ∈ records, record.scope = scope ∧
          lookup after scope record.name = some record.quota) ∧
      engine.initializeScope scope after = .ok 0 after := by
  have ensures : Ensures (fun _ _ => True) (engine.initializeScope scope) store _ :=
    ensures_initializeFields_fills shallow apart (engine.registry.fields scope.kind)
      (List.Subset.refl _) (engine.registry.nodup_names scope.kind) store
  obtain ⟨count, fills⟩ := ensures.of_allFit
    (RecordedStore.answersAlike.initializeScope engine scope) fun _ _ => trivial
  have initialized := fills.initialized shallow apart
  refine ⟨_, Action.eq_ok_iff.2 ⟨count, rfl⟩, initialized, ?_,
    initializeFields_of_stored initialized.recorded⟩
  refine ⟨_, quotas_eq engine scope _, ?_, fun record member => ?_⟩
  · rw [List.map_map]
    rfl
  · obtain ⟨field, listed, rfl⟩ := List.mem_map.1 member
    obtain ⟨registered, connected⟩ := List.mem_filter.1 listed
    obtain ⟨quota, found⟩ := lookup_of_stored (initialized.recorded field registered connected)
    refine ⟨rfl, ?_⟩
    rw [standing_of_lookup found, found]

end Engine

section Sample

/-- One aggregate of the organization is stored already, and it is not the sum over the children. -/
def halfStore : MemoryStore := busyStore.put sampleOrganization "seats" ⟨7, 9⟩

/-- The organization sums its teams, and no team is above it. -/
theorem childrenApart_sampleOrganization : sampleEngine.ChildrenApart sampleOrganization := by
  have top : sampleGraph.quotaParents sampleOrganization = [] := by decide +kernel
  have below (child : Entity) : ¬ sampleGraph.Above sampleOrganization child := by
    intro above
    obtain ⟨parent, isParent, -⟩ := Relation.TransGen.head'_iff.1 above
    rw [top] at isParent
    cases isParent
  have apart : ∀ field ∈ sampleRegistry.fields "organization", ∀ rule ∈ field.aggregator?,
      ∀ child ∈ rule.children sampleOrganization sampleGraph, child ≠ sampleOrganization := by
    decide +kernel
  exact fun field registered rule aggregator child selected =>
    ⟨apart field registered rule aggregator child selected, below child⟩

/-- The missing aggregate starts from the limit of the team, and the other one stays as it is. -/
theorem initializeScope_exact_sample :
    ∃ after, sampleEngine.initializeScope sampleOrganization halfStore = .ok 1 after ∧
      after.lookup sampleOrganization "storage" = some ⟨.unlimited, 10⟩ ∧
      after.lookup sampleOrganization "seats" = some ⟨7, 9⟩ ∧
      sampleEngine.initializeScope sampleOrganization after = .ok 0 after := by
  obtain ⟨after, run, initialized, -, again⟩ := Engine.initializeScope_exact shallow_sampleGraph
    childrenApart_sampleOrganization halfStore
  have missing : sampleSum "storage" .limit ∈ sampleEngine.wanting halfStore sampleOrganization
      (sampleRegistry.fields "organization") :=
    Engine.mem_wanting.2 ⟨List.mem_cons_self, rfl, by decide +kernel⟩
  have sum : sampleEngine.childSum after sampleOrganization (sampleSum "storage" .limit) =
      sampleEngine.childSum halfStore sampleOrganization (sampleSum "storage" .limit) :=
    Engine.childSum_congr fun rule aggregator quota _ child selected =>
      initialized.children _ List.mem_cons_self rule aggregator child selected quota
  refine ⟨after, run, ?_, initialized.kept "seats" ⟨7, 9⟩ (by decide +kernel), again⟩
  refine (initialized.summed _ missing rfl).trans ?_
  rw [sum]
  decide +kernel

end Sample

end HierarchicalQuota
