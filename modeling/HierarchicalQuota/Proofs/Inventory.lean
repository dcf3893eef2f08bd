import HierarchicalQuota.Inventory.Repair
import HierarchicalQuota.Proofs.Json.Parse
import HierarchicalQuota.Proofs.Layout
import HierarchicalQuota.Proofs.Removal

namespace HierarchicalQuota

open LawfulStore (lookup)

namespace Snapshot

variable (snapshot : Snapshot) (graph : Graph)

/-- A snapshot adds nodes and no relations to parents. -/
theorem parentRelations_insertInto :
    (snapshot.insertInto graph).parentRelations = graph.parentRelations := by
  obtain ⟨items⟩ := snapshot
  change (items.foldl _ graph).parentRelations = _
  induction items generalizing graph with
  | nil => rfl
  | cons item items inductionHypothesis => exact inductionHypothesis _

/-- The last item listed for an entity replaces all nodes from before. -/
theorem node?_insertInto (entity : Entity) :
    (snapshot.insertInto graph).node? entity =
      (((snapshot.items.filter fun item => item.entity = entity).getLast?).map
        InventoryItem.node).or (graph.node? entity) := by
  obtain ⟨items⟩ := snapshot
  change (items.foldl _ graph).node? entity = _
  induction items generalizing graph with
  | nil => rfl
  | cons item items inductionHypothesis =>
      rw [List.foldl_cons, inductionHypothesis, Graph.node?_insert, List.filter_cons]
      by_cases same : item.entity = entity
      · rw [if_pos same, if_pos (decide_eq_true same), List.getLast?_cons]
        cases (items.filter fun item => item.entity = entity).getLast? <;> rfl
      · rw [if_neg same, if_neg (by simpa using same)]

end Snapshot

variable {σ : Type} [QuotaStore σ] [LawfulStore σ]

/-- A sum over children adds up their stored usages, and a child without a record adds nothing. -/
theorem summed_eq_foldl (store : σ) (name : String) (children : List Entity) (sum : Amount) :
    summed store name .usage children sum =
      (children.map fun child => (storedUsage? store child name).getD 0).foldl (· + ·) sum := by
  induction children generalizing sum with
  | nil => rfl
  | cons child children inductionHypothesis =>
      unfold summed
      rw [List.map_cons, List.foldl_cons, storedUsage?]
      cases lookup store child name with
      | none =>
          have zero : sum + (0 : Amount) = sum := by
            have lower := sum.lower
            have upper := sum.upper
            apply Amount.ext
            rw [Amount.value_add, Amount.value_zero]
            omega
          simp only [Option.map_none, Option.getD_none]
          rw [zero]
          exact inductionHypothesis sum
      | some quota => exact inductionHypothesis _

namespace Layout

/-- The usages of a repaired store are the totals of its inventory. Those that tenants get from
their backends are not totals, and they stay. -/
structure Totals (graph : Graph) (before after : σ) : Prop where
  customerProjects : ∀ scope ∈ graph.instances customer,
    storedUsage? after scope "nc_project_count" =
      some (ScopeFunction.count (members graph "project" "customer" scope).length)
  customerResources : ∀ scope ∈ graph.instances customer,
    storedUsage? after scope "nc_resource_count" =
      some (ScopeFunction.count (resourcesOf graph scope).length)
  projectResources : ∀ scope ∈ graph.instances project,
    storedUsage? after scope "nc_resource_count" =
      some (ScopeFunction.count ((members graph "vm" "project" scope).length +
        (members graph "volume" "project" scope).length))
  projectStorage : ∀ scope ∈ graph.instances project,
    storedUsage? after scope "storage" =
      some (((members graph "volume" "project" scope).map fun volume =>
        (graph.attributeOf volume "size").getD 0).foldl (· + ·) 0)
  serviceTenants : ∀ scope ∈ graph.instances service,
    storedUsage? after scope "tenant_count" =
      some (ScopeFunction.count (members graph "tenant" "service" scope).length)
  serviceBackend : ∀ scope ∈ graph.instances service, ∀ name ∈ ["vcpu", "ram", "storage"],
    storedUsage? after scope name =
      some (((members graph "tenant" "service" scope).map fun tenant =>
        (storedUsage? after tenant name).getD 0).foldl (· + ·) 0)
  tenantBackend : ∀ scope ∈ graph.instances tenant, ∀ name ∈ ["vcpu", "ram", "storage"],
    storedUsage? after scope name = some ((storedUsage? before scope name).getD 0)
  tenantInstances : ∀ scope ∈ graph.instances tenant,
    storedUsage? after scope "instances" =
      some (ScopeFunction.count (members graph "vm" "tenant" scope).length)

/-- A service sums this usage over its tenants. -/
def tenantSum (name : String) : Field where
  name := name
  rule := .aggregator { childKind := tenant, path := toService, measure := .usage }

/-- A project totals the sizes of its volumes. -/
def volumeSizes : Field where
  name := "storage"
  rule := .total { targets := ["volume"], path := toProject, summedAttribute := "size" }

/-- A tenant gets this usage from its backend. -/
def backendUsage (name : String) : Field where
  name := name
  isBackend := true

/-- The registry lists the fields of customers as the layout does. -/
theorem fields_customer : registry.fields customer = customerFields := rfl

/-- The registry lists the fields of projects as the layout does. -/
theorem fields_project : registry.fields project = projectFields := rfl

/-- Services count their tenants and sum the quotas of the backends. -/
theorem fields_service :
    registry.fields service =
      counter "tenant_count" [tenant] toService :: backendQuotas.map tenantSum := rfl

/-- Tenants hold the quotas of the backends and count their instances. -/
theorem fields_tenant :
    registry.fields tenant =
      backendQuotas.map backendUsage ++ [counter "instances" ["vm"] toTenant] := rfl

section Recalculated

variable {graph : Graph} {store after : σ} {report : Report} (fits : Fits graph)
  (run : (⟨registry, graph⟩ : Engine).recalculateAll store = .ok report after) {scope : Entity}
  {kind name : String} (isInstance : scope ∈ graph.instances kind)

include fits run isInstance

/-- A counter is repaired to the number of its targets. -/
theorem counted_of_recalculateAll {targets : List String} {path : RelationPath}
    (registered : counter name targets path ∈ registry.fields kind) :
    storedUsage? after scope name =
      some (ScopeFunction.count (Field.targetsOf targets path scope graph).length) := by
  obtain ⟨present, rfl⟩ := Graph.mem_instances.1 isInstance
  have expected := expectedUsage?_counter name targets path scope ⟨registry, graph⟩ after
  exact storedUsage?_of_recalculateAll fits run present registered expected

/-- A counter of one kind along one relation counts the members. -/
theorem members_of_recalculateAll {target relation : String} {path : RelationPath}
    (registered : counter name [target] path ∈ registry.fields kind)
    (hops : path.hops = [relation]) :
    storedUsage? after scope name =
      some (ScopeFunction.count (members graph target relation scope).length) := by
  rw [counted_of_recalculateAll fits run isInstance registered, targetsOf_singleton hops]

/-- A sum of the layout is over the tenants of a service. -/
theorem summed_of_recalculateAll (registered : tenantSum name ∈ registry.fields kind) :
    storedUsage? after scope name =
      some (((members graph "tenant" "service" scope).map fun tenant =>
        (storedUsage? after tenant name).getD 0).foldl (· + ·) 0) := by
  obtain ⟨present, rfl⟩ := Graph.mem_instances.1 isInstance
  have hops : toService.hops = ["service"] := rfl
  rw [← summed_eq_foldl, ← referencing_eq_members hops]
  exact storedUsage?_of_recalculateAll fits run present registered rfl

/-- A usage that is set directly stays, and it is zero if there was none. -/
theorem direct_of_recalculateAll {field : Field} (registered : field ∈ registry.fields kind)
    (isDirect : field.rule = .direct)
    (starts : (field.initial scope graph).usage = 0) :
    storedUsage? after scope field.name =
      some ((storedUsage? store scope field.name).getD 0) := by
  obtain ⟨present, rfl⟩ := Graph.mem_instances.1 isInstance
  obtain ⟨quota, found, -⟩ := Engine.settled_of_recalculateAll _ (selectsChildren_of_fits fits) run
    scope (Engine.mem_registeredScopes present registered) field registered
    ((regular_registry.of_mem_fields registered).isConnected scope graph)
  have kept := Engine.direct_of_recalculateAll _ run registered isDirect starts
  rw [← kept, storedUsage?, found]
  rfl

omit isInstance in
/-- A recalculation that succeeds leaves the totals of the graph. -/
theorem totals_of_recalculateAll : Totals graph store after where
  customerProjects scope isInstance := by
    have registered : counter "nc_project_count" [project] toCustomer ∈ registry.fields customer := by
      simp [fields_customer, customerFields]
    exact members_of_recalculateAll fits run isInstance registered rfl
  customerResources scope isInstance := by
    rw [← targetsOf_toProjectCustomer]
    exact counted_of_recalculateAll fits run isInstance resourceCount_mem
  projectResources scope isInstance := by
    have registered : counter "nc_resource_count" resourceKinds toProject ∈
        registry.fields project := by simp [fields_project, projectFields]
    have hops : toProject.hops = ["project"] := rfl
    rw [counted_of_recalculateAll fits run isInstance registered, targetsOf_of_hop hops,
      resourceKinds]
    simp only [List.flatMap_cons, List.flatMap_nil, List.append_nil, List.length_append]
  projectStorage scope isInstance := by
    obtain ⟨present, isProject⟩ := Graph.mem_instances.1 isInstance
    have registered : volumeSizes ∈ registry.fields scope.kind := by
      simp [isProject, fields_project, projectFields, volumeSizes]
    have hops : toProject.hops = ["project"] := rfl
    rw [← targetsOf_singleton hops]
    exact storedUsage?_of_recalculateAll fits run present registered rfl
  serviceTenants scope isInstance := by
    have registered : counter "tenant_count" [tenant] toService ∈ registry.fields service := by
      simp [fields_service]
    exact members_of_recalculateAll fits run isInstance registered rfl
  serviceBackend scope isInstance name listed := by
    have registered : tenantSum name ∈ registry.fields service :=
      List.mem_cons_of_mem _ (List.mem_map_of_mem listed)
    exact summed_of_recalculateAll fits run isInstance registered
  tenantBackend scope isInstance name listed := by
    have registered : backendUsage name ∈ registry.fields tenant :=
      List.mem_append_left _ (List.mem_map_of_mem listed)
    exact direct_of_recalculateAll fits run isInstance registered rfl rfl
  tenantInstances scope isInstance := by
    have registered : counter "instances" ["vm"] toTenant ∈ registry.fields tenant := by
      simp [fields_tenant]
    exact members_of_recalculateAll fits run isInstance registered rfl

end Recalculated

end Layout

namespace Repair

/-- Any snapshot has a graph that fits the layout, since only items add to it. -/
theorem fits_graph (snapshot : Snapshot) : Layout.Fits (graph snapshot) :=
  snapshot.parentRelations_insertInto Layout.emptyGraph

/-- The last item listed for an entity is its node. -/
theorem node?_graph (snapshot : Snapshot) (entity : Entity) :
    (graph snapshot).node? entity =
      ((snapshot.items.filter fun item => item.entity = entity).getLast?).map
        InventoryItem.node := by
  have empty : Layout.emptyGraph.node? entity = none := Std.ExtTreeMap.getElem?_empty
  rw [graph, Snapshot.node?_insertInto, empty, Option.or_none]

omit [LawfulStore σ] in
/-- A repair of a readable snapshot is a recalculation over its graph. -/
theorem run_eq_ok_iff {registry : Registry} {text : String} {snapshot : Snapshot}
    (parsed : Snapshot.parse text = some snapshot) {path : String} {store after : σ}
    {report : Report} :
    run registry path (some text) store = .ok report after ↔
      (⟨registry, graph snapshot⟩ : Engine).recalculateAll store = .ok report after := by
  unfold run engine EStateM.adaptExcept
  simp only [parsed]
  cases (⟨registry, graph snapshot⟩ : Engine).recalculateAll store <;> simp

/-- A repair computes the totals of the inventory. It succeeds for every snapshot that is flat, and
whenever it succeeds, the store tells the totals of the snapshot's graph, in which the last item
listed for an entity counts. -/
theorem totals_of_run {text : String} {snapshot : Snapshot}
    (parsed : Snapshot.parse text = some snapshot) (path : String) (store : σ) :
    (∀ entity, (graph snapshot).node? entity =
      ((snapshot.items.filter fun item => item.entity = entity).getLast?).map
        InventoryItem.node) ∧
    (Layout.Flat (graph snapshot) →
      ∃ report after, run Layout.registry path (some text) store = .ok report after) ∧
    ∀ report after, run Layout.registry path (some text) store = .ok report after →
      Layout.Totals (graph snapshot) store after := by
  refine ⟨node?_graph snapshot, ?_, ?_⟩
  · intro flat
    have shallow := Layout.shallow_of_flat (fits_graph snapshot) flat
    let engine : Engine := ⟨Layout.registry, graph snapshot⟩
    obtain ⟨entries, depths⟩ := Graph.depths_isOk shallow engine.registeredScopes ∅
    obtain ⟨report, recalculated, -⟩ := engine.recalculateAll_eq_ok depths store
    exact ⟨report, _, (run_eq_ok_iff parsed).2 recalculated⟩
  · intro report after repaired
    exact Layout.totals_of_recalculateAll (fits_graph snapshot) ((run_eq_ok_iff parsed).1 repaired)

end Repair

section Sample

/-- The volume is listed twice. -/
def sampleSnapshot : Snapshot :=
  ⟨[⟨sampleCustomer, {}⟩, ⟨sampleVolume, ofProject 3⟩, ⟨sampleProject, ofCustomer⟩,
    ⟨sampleVolume, ofProject 20⟩]⟩

/-- This snapshot is read from the characters of the printed one. -/
def readSnapshot : Snapshot :=
  (((Json.Token.scan .between sampleSnapshot.toJson.printChars).bind
    (Json.ofTokens? [] .value)).bind Snapshot.ofJson?).getD {}

/-- The scanner and the parser read the text of the sample. -/
theorem parse_sampleSnapshot :
    Snapshot.parse sampleSnapshot.toJson.print = some readSnapshot := by
  have readable : (((Json.Token.scan .between sampleSnapshot.toJson.printChars).bind
      (Json.ofTokens? [] .value)).bind Snapshot.ofJson?).isSome := by decide +kernel
  obtain ⟨snapshot, found⟩ := Option.isSome_iff_exists.1 readable
  rw [Snapshot.parse, Json.parse_print, readSnapshot, found, Option.getD_some]

/-- The project's stale storage becomes the size that is listed last. -/
theorem totals_of_run_sample :
    ∃ report after, Repair.run Layout.registry "inventory.json"
        (some sampleSnapshot.toJson.print)
        (MemoryStore.empty.put sampleProject "storage" ⟨25, 99⟩) = .ok report after ∧
      storedUsage? after sampleProject "storage" = some 20 ∧
      storedUsage? after sampleCustomer "nc_resource_count" = some 1 := by
  obtain ⟨-, succeeds, totals⟩ := Repair.totals_of_run parse_sampleSnapshot "inventory.json"
    (MemoryStore.empty.put sampleProject "storage" ⟨25, 99⟩)
  have flat : Layout.Flat (Repair.graph readSnapshot) := by decide +kernel
  have isProject : sampleProject ∈ (Repair.graph readSnapshot).instances Layout.project := by
    decide +kernel
  have isCustomer : sampleCustomer ∈ (Repair.graph readSnapshot).instances Layout.customer := by
    decide +kernel
  obtain ⟨report, after, run⟩ := succeeds flat
  have repaired := totals report after run
  refine ⟨report, after, run, (repaired.projectStorage sampleProject isProject).trans ?_,
    (repaired.customerResources sampleCustomer isCustomer).trans ?_⟩
  · decide +kernel
  · decide +kernel

end Sample

end HierarchicalQuota
