import HierarchicalQuota.Proofs.Inventory
import Mathlib.Data.List.AList

namespace HierarchicalQuota

section Sorting

variable {α : Type} [Ord α]

/-- The items of a list are sorted by their order. -/
def sorted (items : List α) : List α :=
  items.mergeSort fun first second => (compare first second).isLE

/-- However items are arranged, sorting them yields the one arrangement that is in order. -/
theorem sorted_eq_of_perm [Std.TransOrd α] [Std.LawfulEqOrd α] {items ordered : List α}
    (arranged : items.Perm ordered)
    (increasing : ordered.Pairwise fun first second => compare first second = .lt) :
    sorted items = ordered := by
  have transitive (first second third : α) (lower : (compare first second).isLE = true)
      (upper : (compare second third).isLE = true) : (compare first third).isLE = true :=
    Std.TransOrd.isLE_trans lower upper
  have total (first second : α) :
      ((compare first second).isLE || (compare second first).isLE) = true := by
    rw [Std.OrientedOrd.eq_swap (a := second)]
    cases compare first second <;> rfl
  refine List.Perm.eq_of_pairwise (fun first second _ _ lower upper => ?_)
    (List.pairwise_mergeSort transitive total items) (increasing.imp fun less => ?_)
    ((List.mergeSort_perm _ _).trans arranged)
  · exact Std.LawfulEqOrd.eq_of_compare (Std.OrientedCmp.isLE_antisymm lower upper)
  · rw [less]
    rfl

end Sorting

/-- A hashed graph lists the entries of its nodes in any order. Its other table is only asked for
single kinds. -/
structure HashedGraph where
  nodes : AList fun _ : Entity => Node := ∅
  parentRelations : Table String (List String) := ∅

namespace HashedGraph

variable (graph : HashedGraph)

/-- An inserted node replaces the earlier node of the same entity, and the other entries may be
rearranged. -/
structure Inserts (before : HashedGraph) (item : InventoryItem) (after : HashedGraph) : Prop where
  nodes : after.nodes.entries.Perm (before.nodes.insert item.entity item.node).entries
  parentRelations : after.parentRelations = before.parentRelations

/-- The items of a list are inserted one after the other. -/
inductive Loads : HashedGraph → List InventoryItem → HashedGraph → Prop
  | nil (graph : HashedGraph) : Loads graph [] graph
  | cons {before middle after : HashedGraph} {item : InventoryItem} {items : List InventoryItem} :
      Inserts before item middle → Loads middle items after → Loads before (item :: items) after

/-- The table of a hashed graph forgets how the entries were arranged. -/
def table : Graph where
  nodes := Std.ExtTreeMap.ofList (graph.nodes.entries.map fun entry => (entry.1, entry.2)) compare
  parentRelations := graph.parentRelations

/-- No entity has two entries, so the table can be made from the list of them. -/
theorem pairwise_entries : (graph.nodes.entries.map fun entry => (entry.1, entry.2)).Pairwise
    fun first second => ¬ compare first.1 second.1 = .eq := by
  rw [List.pairwise_map]
  refine (List.nodupKeys_iff_pairwise.1 graph.nodes.nodupKeys).imp fun different same => ?_
  exact different (Std.LawfulEqOrd.eq_of_compare same)

/-- The table answers a lookup as the hashed graph does. -/
theorem node?_table (entity : Entity) : graph.table.node? entity = graph.nodes.lookup entity := by
  cases found : graph.nodes.lookup entity with
  | some node =>
      have listed := AList.mem_lookup_iff.1 found
      exact Std.ExtTreeMap.getElem?_ofList_of_mem Std.ReflCmp.compare_self graph.pairwise_entries
        (List.mem_map_of_mem listed)
  | none =>
      apply Std.ExtTreeMap.getElem?_ofList_of_contains_eq_false
      rw [List.map_map, List.contains_eq_mem, decide_eq_false_iff_not]
      exact AList.lookup_eq_none.1 found

/-- A table is determined by its lookups. -/
theorem table_eq {plain : Graph} (sameNodes : ∀ entity, graph.nodes.lookup entity = plain.node? entity)
    (sameRelations : graph.parentRelations = plain.parentRelations) : graph.table = plain :=
  Graph.ext (Std.ExtTreeMap.ext_getElem? fun entity =>
    (graph.node?_table entity).trans (sameNodes entity)) sameRelations

variable {graph}

/-- An insertion that rearranges the entries is an insertion into the table. -/
theorem Inserts.table_eq {before after : HashedGraph} {item : InventoryItem}
    (inserts : before.Inserts item after) :
    after.table = before.table.insert item.entity item.node := by
  refine after.table_eq (fun entity => ?_) inserts.parentRelations
  rw [AList.perm_lookup inserts.nodes, Graph.node?_insert, node?_table]
  split
  · rename_i same
    rw [← same, AList.lookup_insert]
  · rename_i different
    exact AList.lookup_insert_ne (Ne.symm different)

/-- Loading a list leads to the table that the insertions in order lead to. The induction is on the
list. -/
theorem Loads.table_eq {before after : HashedGraph} {items : List InventoryItem}
    (loads : before.Loads items after) :
    after.table = items.foldl (fun graph item => graph.insert item.entity item.node) before.table := by
  induction loads with
  | nil graph => rfl
  | cons inserts _ inductionHypothesis => rw [inductionHypothesis, inserts.table_eq, List.foldl_cons]

/-- Every list can be loaded. -/
theorem exists_loads (before : HashedGraph) (items : List InventoryItem) :
    ∃ after, before.Loads items after := by
  induction items generalizing before with
  | nil => exact ⟨before, .nil before⟩
  | cons item items inductionHypothesis =>
      let middle := { before with nodes := before.nodes.insert item.entity item.node }
      have inserts : before.Inserts item middle := ⟨.refl _, rfl⟩
      obtain ⟨after, loads⟩ := inductionHypothesis middle
      exact ⟨after, .cons inserts loads⟩

section Reads

variable (graph)

/-- The instances of a kind are picked out of the entries as these are listed, and then sorted. No
other read of the graph lists its entries. -/
def instances (kind : String) : List Entity :=
  sorted (graph.nodes.keys.filter fun entity => entity.kind = kind)

/-- A relation of an entity is looked up in its node. -/
def related (entity : Entity) (relation : String) : Option Entity :=
  (graph.nodes.lookup entity).bind fun node => node.relations[relation]?

/-- The quota parents of a scope are looked up relation by relation. -/
def quotaParents (scope : Entity) : List Entity :=
  (graph.parentRelations.getD scope.kind []).filterMap (graph.related scope)

/-- A path is walked by lookups. -/
def resolve (entity : Entity) (path : RelationPath) : Option Entity :=
  path.hops.foldlM graph.related entity

/-- The entities that reference a scope are those instances whose path ends there. -/
def referencing (kind : String) (path : RelationPath) (scope : Entity) : List Entity :=
  (graph.instances kind).filter fun entity => graph.resolve entity path = some scope

/-- The depth of a scope is searched as in a plain graph, and what is known is only looked up. -/
def depth (graph : HashedGraph) (levels : Nat) (scope : Entity) (known : Table Entity Nat) :
    Except QuotaError (Nat × Table Entity Nat) :=
  match known[scope]? with
  | some depth => .ok (depth, known)
  | none =>
      match levels with
      | 0 => .error (.hierarchyTooDeep scope)
      | levels + 1 => do
          let (depth, known) ← (graph.quotaParents scope).foldlM
            (fun (depth, known) parent => do
              let (above, known) ← graph.depth levels parent known
              return (max depth (above + 1), known))
            (0, known)
          return (depth, known.insert scope depth)

/-- The depths of several scopes share what is known. -/
def depths (graph : HashedGraph) : List Entity → Table Entity Nat →
    Except QuotaError (List (Nat × Entity))
  | [], _ => .ok []
  | scope :: scopes, known => do
      let (depth, known) ← graph.depth maxHierarchyDepth scope known
      let others ← graph.depths scopes known
      return (depth, scope) :: others

/-- However the entries are arranged, the instances are listed as in the table. -/
theorem instances_eq (kind : String) : graph.instances kind = graph.table.instances kind := by
  have increasing : (graph.table.instances kind).Pairwise fun first second =>
      compare first second = .lt :=
    Std.ExtTreeMap.ordered_keys.filter _
  refine sorted_eq_of_perm ((List.perm_ext_iff_of_nodup (graph.nodes.keys_nodup.filter _)
    (graph.table.nodup_instances kind)).2 fun entity => ?_) increasing
  rw [Graph.mem_instances, List.mem_filter, decide_eq_true_eq, Graph.contains_eq, node?_table,
    AList.lookup_isSome, AList.mem_keys]

theorem related_eq : graph.related = graph.table.related := by
  funext entity relation
  rw [related, Graph.related, node?_table]

/-- Quota parents are looked up as in the table. -/
theorem quotaParents_eq (scope : Entity) :
    graph.quotaParents scope = graph.table.quotaParents scope := by
  rw [quotaParents, related_eq]
  rfl

/-- The entities that reference a scope are listed as in the table. -/
theorem referencing_eq (kind : String) (path : RelationPath) (scope : Entity) :
    graph.referencing kind path scope = graph.table.referencing kind path scope := by
  have resolves (entity : Entity) : graph.resolve entity path = graph.table.resolve entity path := by
    rw [resolve, related_eq, Graph.resolve]
  simp only [referencing, Graph.referencing, instances_eq, resolves]

/-- A search asks for nothing but parents. The induction is on the levels that are left. -/
theorem depth_eq (levels : Nat) (scope : Entity) (known : Table Entity Nat) :
    graph.depth levels scope known = graph.table.depth levels scope known := by
  induction levels generalizing scope known with
  | zero =>
      unfold depth Graph.depth
      cases known[scope]? <;> rfl
  | succ levels inductionHypothesis =>
      unfold depth Graph.depth
      cases known[scope]? with
      | some depth => rfl
      | none => simp only [quotaParents_eq, inductionHypothesis]

/-- The depths are searched as in the table, and with the same errors. -/
theorem depths_eq (scopes : List Entity) (known : Table Entity Nat) :
    graph.depths scopes known = graph.table.depths scopes known := by
  induction scopes generalizing known with
  | nil => rfl
  | cons scope scopes inductionHypothesis =>
      simp only [depths, Graph.depths, depth_eq, inductionHypothesis]

end Reads

end HashedGraph

/-- A hashed engine lists the kinds of its registry and the nodes of its graph in any order. It
recalculates as a plain engine does, but over the reads of its hashed graph. The functions of a scope
see that graph as its table. -/
structure HashedEngine where
  registry : Registry
  kinds : List String
  graph : HashedGraph

namespace HashedEngine

variable {σ : Type} [QuotaStore σ] (engine : HashedEngine)

/-- The plain engine has the kinds and the nodes in order. -/
def plain : Engine := ⟨engine.registry, engine.graph.table⟩

/-- The targets of a field are weighed in the order in which the graph lists them. -/
def weightSum (field : Field) (kinds : List String) (path : RelationPath) (scope : Entity) : Amount :=
  ((kinds.flatMap fun kind => engine.graph.referencing kind path scope).map fun target =>
    field.weight target engine.graph.table).foldl (· + ·) 0

def targetUsage? (field : Field) (scope : Entity) : Option Amount :=
  match field.rule with
  | .counter rule =>
      match rule.currentUsage with
      | some usage => some (usage rule.targets scope engine.graph.table)
      | none => some (engine.weightSum field rule.targets rule.path scope)
  | .total rule => some (engine.weightSum field rule.targets rule.path scope)
  | .direct | .aggregator _ => none

/-- The children of an aggregate are summed in the order in which the graph lists them. -/
def sumChildren (scope : Entity) (field : Field) : Action σ Amount :=
  match field.aggregator?, field.childQuota? with
  | some rule, some quota =>
      Engine.sumOver quota rule.measure
        (engine.graph.referencing rule.childKind rule.path scope) 0
  | _, _ => return 0

/-- The true usage follows from the hashed graph or from the stored children. -/
def trueUsage? (scope : Entity) (field : Field) : Action σ (Option Amount) :=
  match field.rule with
  | .direct => return none
  | .counter _ | .total _ => return engine.targetUsage? field scope
  | .aggregator _ => do
      let usage ← engine.sumChildren scope field
      return some usage

/-- A record is created from its defaults, and a usage that is not the true one is set. -/
def recalculateField (scope : Entity) (field : Field) (report : Report) : Action σ Report := do
  let (quota, created) ← Action.access
    (QuotaStore.getOrCreate scope field.name (field.initial scope engine.graph.table))
  let report := if created then { report with created := report.created + 1 } else report
  match ← engine.trueUsage? scope field with
  | none => return report
  | some usage =>
      if usage = quota.usage then return report
      else
        discard (Action.access (QuotaStore.setUsage scope field.name usage))
        return { report with updated := report.updated + 1 }

def recalculateFields (engine : HashedEngine) (scope : Entity) : List Field → Report → Action σ Report
  | [], report => return report
  | field :: fields, report => do
      if field.isConnected scope engine.graph.table then
        let report ← engine.recalculateField scope field report
        engine.recalculateFields scope fields report
      else
        engine.recalculateFields scope fields report

def recalculateScopes (engine : HashedEngine) : List Entity → Report → Action σ Report
  | [], report => return report
  | scope :: scopes, report => do
      let report ← engine.recalculateFields scope (engine.registry.fields scope.kind) report
      engine.recalculateScopes scopes report

/-- The kinds are sorted before their instances are listed. -/
def registeredScopes : List Entity := (sorted engine.kinds).flatMap engine.graph.instances

/-- The depths decide the order of the scopes, and entities break the ties. -/
def recalculateAll : Action σ Report := do
  let depths ← Action.ofExcept (engine.graph.depths engine.registeredScopes ∅)
  let scopes := (depths.mergeSort Engine.bottomUp).map (·.2)
  engine.recalculateScopes scopes { scopes := scopes.length }

/-- Targets are weighed as in the plain graph. -/
theorem weightSum_eq (field : Field) (kinds : List String) (path : RelationPath) (scope : Entity) :
    engine.weightSum field kinds path scope =
      field.weightSum kinds path scope engine.plain.graph := by
  simp only [weightSum, Field.weightSum, Field.targetsOf, HashedGraph.referencing_eq, plain]

theorem targetUsage?_eq (field : Field) (scope : Entity) :
    engine.targetUsage? field scope = field.targetUsage? scope engine.plain.graph := by
  unfold targetUsage? Field.targetUsage?
  simp only [weightSum_eq]
  rfl

/-- Children are summed as in the plain graph. -/
theorem sumChildren_eq (scope : Entity) (field : Field) :
    engine.sumChildren (σ := σ) scope field = engine.plain.sumChildren scope field := by
  unfold sumChildren Engine.sumChildren
  simp only [HashedGraph.referencing_eq]
  rfl

/-- The true usage does not depend on the order of the entries. -/
theorem trueUsage?_eq (scope : Entity) (field : Field) :
    engine.trueUsage? (σ := σ) scope field = engine.plain.trueUsage? scope field := by
  unfold trueUsage? Engine.trueUsage?
  cases field.rule with
  | direct => rfl
  | counter rule => exact congrArg pure (engine.targetUsage?_eq field scope)
  | total rule => exact congrArg pure (engine.targetUsage?_eq field scope)
  | aggregator rule => simp only [sumChildren_eq]

/-- A record is repaired as in the plain engine. -/
theorem recalculateField_eq (scope : Entity) (field : Field) (report : Report) :
    engine.recalculateField (σ := σ) scope field report =
      engine.plain.recalculateField scope field report := by
  unfold recalculateField Engine.recalculateField
  simp only [trueUsage?_eq]
  rfl

/-- The fields of a scope are repaired as in the plain engine. -/
theorem recalculateFields_eq (scope : Entity) (fields : List Field) (report : Report) :
    engine.recalculateFields (σ := σ) scope fields report =
      engine.plain.recalculateFields scope fields report := by
  induction fields generalizing report with
  | nil => rfl
  | cons field fields inductionHypothesis =>
      simp only [recalculateFields, Engine.recalculateFields, recalculateField_eq,
        inductionHypothesis]
      rfl

/-- Scopes in a given order are repaired as in the plain engine. -/
theorem recalculateScopes_eq (scopes : List Entity) (report : Report) :
    engine.recalculateScopes (σ := σ) scopes report =
      engine.plain.recalculateScopes scopes report := by
  induction scopes generalizing report with
  | nil => rfl
  | cons scope scopes inductionHypothesis =>
      simp only [recalculateScopes, Engine.recalculateScopes, recalculateFields_eq,
        inductionHypothesis]
      rfl

section Listed

variable {engine} (listed : engine.kinds.Perm engine.registry.scopeKinds)

include listed

/-- However the kinds are arranged, the scopes are listed in one order. -/
theorem registeredScopes_eq : engine.registeredScopes = engine.plain.registeredScopes := by
  rw [registeredScopes, sorted_eq_of_perm listed Std.ExtTreeSet.ordered_toList,
    Engine.registeredScopes]
  exact congrArg (engine.registry.scopeKinds.flatMap ·) (funext engine.graph.instances_eq)

/-- A recalculation runs as if everything were listed in order. -/
theorem recalculateAll_eq :
    engine.recalculateAll (σ := σ) = engine.plain.recalculateAll := by
  unfold recalculateAll Engine.recalculateAll
  simp only [registeredScopes_eq listed, HashedGraph.depths_eq, recalculateScopes_eq]
  rfl

end Listed

/-- An engine serves a snapshot if the kinds of its registry are listed and all items are loaded, no
matter in which order the tables keep them. -/
structure Serves (registry : Registry) (snapshot : Snapshot) : Prop where
  registered : engine.registry = registry
  listed : engine.kinds.Perm registry.scopeKinds
  loads : HashedGraph.Loads { parentRelations := Layout.emptyGraph.parentRelations }
    snapshot.items engine.graph

variable {engine} {registry : Registry} {snapshot : Snapshot}

/-- An engine that serves a snapshot has the graph of the snapshot as its table. -/
theorem Serves.plain_eq (serves : engine.Serves registry snapshot) :
    engine.plain = ⟨registry, Repair.graph snapshot⟩ := by
  have starts : HashedGraph.table { parentRelations := Layout.emptyGraph.parentRelations } =
      Layout.emptyGraph := HashedGraph.table_eq _ (fun _ => rfl) rfl
  have loaded := serves.loads.table_eq
  rw [starts] at loaded
  rw [plain, serves.registered, loaded, Repair.graph, Snapshot.insertInto]

/-- The plain engine of the repair does what every engine does that serves its snapshot. -/
theorem Serves.recalculateAll_eq (serves : engine.Serves registry snapshot) :
    engine.recalculateAll (σ := σ) =
      (⟨registry, Repair.graph snapshot⟩ : Engine).recalculateAll := by
  have listed : engine.kinds.Perm engine.registry.scopeKinds := serves.registered ▸ serves.listed
  rw [HashedEngine.recalculateAll_eq listed, serves.plain_eq]

/-- Every snapshot can be served. -/
theorem exists_serves (registry : Registry) (snapshot : Snapshot) :
    ∃ engine : HashedEngine, engine.Serves registry snapshot := by
  obtain ⟨graph, loads⟩ := HashedGraph.exists_loads
    { parentRelations := Layout.emptyGraph.parentRelations } snapshot.items
  exact ⟨⟨registry, registry.scopeKinds, graph⟩, rfl, .refl _, loads⟩

end HashedEngine

/-- The node of an entity in a snapshot is the one listed last for it. -/
def Snapshot.lastNode? (snapshot : Snapshot) (entity : Entity) : Option Node :=
  ((snapshot.items.filter fun item => item.entity = entity).getLast?).map InventoryItem.node

namespace Repair

variable {σ : Type} [QuotaStore σ]

/-- Snapshots with the same last nodes have one graph. -/
theorem graph_eq_of_lastNode?_eq {first second : Snapshot}
    (same : ∀ entity, first.lastNode? entity = second.lastNode? entity) :
    graph first = graph second := by
  refine Graph.ext (Std.ExtTreeMap.ext_getElem? fun entity => ?_)
    ((fits_graph first).trans (fits_graph second).symm)
  exact (node?_graph first entity).trans ((same entity).trans (node?_graph second entity).symm)

/-- A recalculation for a snapshot can end with a result if some order of its tables leads there. -/
def CanEnd (registry : Registry) (snapshot : Snapshot) (store : σ)
    (result : EStateM.Result QuotaError σ Report) : Prop :=
  ∃ engine : HashedEngine, engine.Serves registry snapshot ∧ engine.recalculateAll store = result

/-- A recalculation ends in one way only, with the result of the plain engine. -/
theorem canEnd_iff {registry : Registry} {snapshot : Snapshot} {store : σ}
    {result : EStateM.Result QuotaError σ Report} :
    CanEnd registry snapshot store result ↔
      (⟨registry, graph snapshot⟩ : Engine).recalculateAll store = result := by
  constructor
  · rintro ⟨engine, serves, rfl⟩
    rw [serves.recalculateAll_eq]
  · rintro rfl
    obtain ⟨engine, serves⟩ := HashedEngine.exists_serves registry snapshot
    exact ⟨engine, serves, by rw [serves.recalculateAll_eq]⟩

/-- The result of a recalculation depends only on the last nodes of its snapshot. Whichever of two
snapshots with the same last nodes is loaded, and however the tables are ordered, the recalculation
ends with one store and one report or error. Every listing is sorted before it is used, so also sums
that are cut off are added up in one order. -/
theorem canEnd_iff_of_lastNode?_eq {first second : Snapshot}
    (same : ∀ entity, first.lastNode? entity = second.lastNode? entity) (registry : Registry)
    (store : σ) (result : EStateM.Result QuotaError σ Report) :
    (CanEnd registry first store result ↔
      (⟨registry, graph first⟩ : Engine).recalculateAll store = result) ∧
    (CanEnd registry second store result ↔
      (⟨registry, graph first⟩ : Engine).recalculateAll store = result) :=
  ⟨canEnd_iff, graph_eq_of_lastNode?_eq same ▸ canEnd_iff⟩

end Repair

section Sample

/-- This snapshot lists the nodes that count in the other sample, and in another order. -/
def rearrangedSnapshot : Snapshot :=
  ⟨[⟨sampleVolume, ofProject 20⟩, ⟨sampleProject, ofCustomer⟩, ⟨sampleCustomer, {}⟩]⟩

/-- The usage that is stored here is too great. -/
def staleStore : MemoryStore := MemoryStore.empty.put sampleProject "storage" ⟨25, 99⟩

/-- The two samples have the same last node for every entity. -/
theorem lastNode?_rearranged (entity : Entity) :
    sampleSnapshot.lastNode? entity = rearrangedSnapshot.lastNode? entity := by
  by_cases isVolume : entity = sampleVolume
  · subst isVolume
    rfl
  by_cases isProject : entity = sampleProject
  · subst isProject
    rfl
  by_cases isCustomer : entity = sampleCustomer
  · subst isCustomer
    rfl
  simp [Snapshot.lastNode?, sampleSnapshot, rearrangedSnapshot, Ne.symm isVolume,
    Ne.symm isProject, Ne.symm isCustomer]

/-- Both snapshots repair a stale store alike. -/
theorem canEnd_iff_of_lastNode?_eq_sample :
    (∀ entity, sampleSnapshot.lastNode? entity = rearrangedSnapshot.lastNode? entity) ∧
      ∃ report after,
        Repair.CanEnd Layout.registry sampleSnapshot staleStore (.ok report after) ∧
        Repair.CanEnd Layout.registry rearrangedSnapshot staleStore (.ok report after) ∧
        storedUsage? after sampleProject "storage" = some 20 := by
  refine ⟨lastNode?_rearranged, ?_⟩
  let engine : Engine := ⟨Layout.registry, Repair.graph sampleSnapshot⟩
  have fits := Repair.fits_graph sampleSnapshot
  have shallow := Layout.shallow_of_flat fits (by decide +kernel)
  obtain ⟨entries, depths⟩ := Graph.depths_isOk shallow engine.registeredScopes ∅
  obtain ⟨report, run, -⟩ := engine.recalculateAll_eq_ok depths staleStore
  obtain ⟨first, second⟩ := Repair.canEnd_iff_of_lastNode?_eq lastNode?_rearranged
    Layout.registry staleStore (.ok report _)
  refine ⟨report, _, first.2 run, second.2 run, ?_⟩
  have isProject : sampleProject ∈ engine.graph.instances Layout.project := by decide +kernel
  exact ((Layout.totals_of_recalculateAll fits run).projectStorage sampleProject isProject).trans
    (by decide +kernel)

end Sample

end HierarchicalQuota
