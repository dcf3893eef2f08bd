import HierarchicalQuota.Proofs.Hierarchy
import HierarchicalQuota.Proofs.Sums

namespace HierarchicalQuota.Graph

variable {graph : Graph}

/-- A graph contains the entities for which it has a node. -/
theorem contains_eq (entity : Entity) : graph.contains entity = (graph.node? entity).isSome :=
  Std.ExtTreeMap.contains_eq_isSome_getElem?

/-- The instances of a kind are its entities in the graph. -/
theorem mem_instances {kind : String} {entity : Entity} :
    entity ∈ graph.instances kind ↔ graph.contains entity = true ∧ entity.kind = kind := by
  rw [instances, List.mem_filter, Std.ExtTreeMap.mem_keys, decide_eq_true_eq]
  rfl

/-- The entities that reference a scope are those whose path ends there. -/
theorem mem_referencing {kind : String} {path : RelationPath} {scope entity : Entity} :
    entity ∈ graph.referencing kind path scope ↔
      graph.contains entity = true ∧ entity.kind = kind ∧
        graph.resolve entity path = some scope := by
  rw [referencing, List.mem_filter, mem_instances, decide_eq_true_eq, and_assoc]

/-- A path with one hop is a relation. -/
theorem resolve_of_hop {path : RelationPath} {hop : String} (hops : path.hops = [hop])
    (entity : Entity) : graph.resolve entity path = graph.related entity hop := by
  rw [resolve, hops, List.foldlM_cons]
  exact bind_pure _

/-- A path with two hops is one relation after another. -/
theorem resolve_of_hops {path : RelationPath} {first second : String}
    (hops : path.hops = [first, second]) (entity : Entity) :
    graph.resolve entity path =
      (graph.related entity first).bind fun middle => graph.related middle second := by
  rw [resolve, hops, List.foldlM_cons]
  change ((graph.related entity first).bind fun middle => [second].foldlM graph.related middle) = _
  congr 1
  funext middle
  rw [List.foldlM_cons]
  exact bind_pure _

/-- A graph is closed if all relations lead to entities of the graph. -/
def Closed (graph : Graph) : Prop :=
  ∀ entity relation other, graph.related entity relation = some other →
    graph.contains other = true

/-- The quota parents in a closed graph are entities of the graph. -/
theorem Closed.of_quotaParents (closed : graph.Closed) {child parent : Entity}
    (member : parent ∈ graph.quotaParents child) : graph.contains parent = true := by
  obtain ⟨relation, -, related⟩ := List.mem_filterMap.1 member
  exact closed child relation parent related

/-- All scopes above a child in a closed graph are entities of the graph. -/
theorem Closed.of_above (closed : graph.Closed) {child scope : Entity}
    (above : graph.Above child scope) : graph.contains scope = true := by
  cases above with
  | single hop => exact closed.of_quotaParents hop
  | tail _ hop => exact closed.of_quotaParents hop

/-- The last hop of a path leads to its end. -/
theorem exists_related_of_resolve {entity scope : Entity} {path : RelationPath}
    (resolved : graph.resolve entity path = some scope) :
    ∃ other relation, graph.related other relation = some scope := by
  have walk : ∀ (hops : List String) (start : Entity), hops ≠ [] →
      hops.foldlM graph.related start = some scope →
      ∃ other relation, graph.related other relation = some scope := by
    intro hops
    induction hops with
    | nil => exact fun _ nonempty => absurd rfl nonempty
    | cons hop hops inductionHypothesis =>
        intro start _ walked
        rw [List.foldlM_cons] at walked
        obtain ⟨next, related, rest⟩ := Option.bind_eq_some_iff.1 walked
        cases hops with
        | nil =>
            obtain rfl := Option.some.inj rest
            exact ⟨start, hop, related⟩
        | cons other hops => exact inductionHypothesis next (by simp) rest
  exact walk path.hops entity path.nonempty resolved

/-- A path in a closed graph ends in the graph. -/
theorem Closed.of_resolve (closed : graph.Closed) {entity scope : Entity} {path : RelationPath}
    (resolved : graph.resolve entity path = some scope) : graph.contains scope = true := by
  obtain ⟨other, relation, related⟩ := exists_related_of_resolve resolved
  exact closed other relation scope related

/-- Walks that stay among some entities are the same in every graph that relates those alike. -/
theorem resolve_congr {other : Graph} {inside : Entity → Prop}
    (same : ∀ entity relation, inside entity →
      other.related entity relation = graph.related entity relation)
    (stays : ∀ entity relation next, inside entity →
      graph.related entity relation = some next → inside next)
    {entity : Entity} (start : inside entity) (path : RelationPath) :
    other.resolve entity path = graph.resolve entity path := by
  have walk : ∀ (hops : List String) (start : Entity), inside start →
      hops.foldlM other.related start = hops.foldlM graph.related start := by
    intro hops
    induction hops with
    | nil => exact fun _ _ => rfl
    | cons hop hops inductionHypothesis =>
        intro start isInside
        rw [List.foldlM_cons, List.foldlM_cons, same start hop isInside]
        cases related : graph.related start hop with
        | none => rfl
        | some next => exact inductionHypothesis next (stays start hop next isInside related)
  exact walk path.hops entity start

/-- An edit keeps a path of a kind if all entities of that kind, except for the edited one, lead
along it to where they led before. -/
def KeepsPath (before after : Graph) (entity : Entity) (kind : String) (path : RelationPath) :
    Prop :=
  ∀ other ∈ before.instances kind, other ≠ entity →
    after.resolve other path = before.resolve other path

section Insert

variable {entity : Entity} {node : Node}

/-- A new node is found under its entity, and all other nodes are kept. -/
theorem node?_insert (other : Entity) :
    (graph.insert entity node).node? other =
      if entity = other then some node else graph.node? other := by
  simp only [node?, insert, Std.ExtTreeMap.getElem?_insert, Std.LawfulEqOrd.compare_eq_iff_eq]

/-- An insertion adds one entity. -/
theorem contains_insert (other : Entity) :
    (graph.insert entity node).contains other = true ↔
      entity = other ∨ graph.contains other = true := by
  rw [contains_eq, contains_eq, node?_insert]
  split
  · rename_i same
    simp [same]
  · rename_i different
    simp [different]

/-- The relations of other entities are not changed by an insertion. -/
theorem related_insert (other : Entity) (relation : String) :
    (graph.insert entity node).related other relation =
      if entity = other then node.relations[relation]? else graph.related other relation := by
  rw [related, node?_insert, related]
  split <;> rfl

/-- The attributes of other entities are not changed by an insertion. -/
theorem attributeOf_insert (other : Entity) (name : String) :
    (graph.insert entity node).attributeOf other name =
      if entity = other then node.attributes[name]? else graph.attributeOf other name := by
  rw [attributeOf, node?_insert, attributeOf]
  split <;> rfl

/-- Inserting a node that refers only to itself and to existing entities keeps a graph closed. -/
theorem Closed.insert (closed : graph.Closed)
    (refers : ∀ (relation : String) (other : Entity), node.relations[relation]? = some other →
      other = entity ∨ graph.contains other = true) : (graph.insert entity node).Closed := by
  intro start relation other related
  rw [related_insert] at related
  rw [contains_insert]
  split at related
  · exact (refers relation other related).imp_left Eq.symm
  · exact .inr (closed start relation other related)

/-- An entity that is new is none of those in the graph. -/
theorem ne_of_absent (absent : graph.contains entity = false) {other : Entity}
    (present : graph.contains other = true) : entity ≠ other := by
  rintro rfl
  rw [absent] at present
  cases present

/-- Walks from existing entities of a closed graph do not pass a new one. -/
theorem resolve_insert (closed : graph.Closed) (absent : graph.contains entity = false)
    {other : Entity} (present : graph.contains other = true) (path : RelationPath) :
    (graph.insert entity node).resolve other path = graph.resolve other path := by
  refine resolve_congr (fun start relation isInside => ?_)
    (fun start relation next _ related => closed start relation next related) present path
  rw [related_insert, if_neg (ne_of_absent absent isInside)]

/-- In a closed graph no walk of an old entity comes past a new one. -/
theorem Closed.keepsPath_insert (closed : graph.Closed) (absent : graph.contains entity = false)
    (kind : String) (path : RelationPath) :
    graph.KeepsPath (graph.insert entity node) entity kind path :=
  fun _ member _ => resolve_insert closed absent (mem_instances.1 member).1 path

/-- No chain of quota parents from an existing entity leads to a new one. -/
theorem Closed.above_insert (closed : graph.Closed) (absent : graph.contains entity = false)
    {child scope : Entity} (present : graph.contains child = true)
    (above : (graph.insert entity node).Above child scope) : graph.contains scope = true := by
  have hop : ∀ start next, graph.contains start = true →
      next ∈ (graph.insert entity node).quotaParents start → graph.contains next = true := by
    intro start next isInside member
    obtain ⟨relation, -, related⟩ := List.mem_filterMap.1 member
    rw [related_insert, if_neg (ne_of_absent absent isInside)] at related
    exact closed start relation next related
  induction above with
  | single first => exact hop child _ present first
  | tail _ last inductionHypothesis => exact hop _ _ inductionHypothesis last

/-- A new entity adds itself to those that reference the scope at the end of its path. -/
theorem perm_referencing_insert (absent : graph.contains entity = false) {kind : String}
    {path : RelationPath} (kept : graph.KeepsPath (graph.insert entity node) entity kind path)
    (scope : Entity) :
    ((graph.insert entity node).referencing kind path scope).Perm
      ((if entity.kind = kind ∧ (graph.insert entity node).resolve entity path = some scope
        then [entity] else []) ++ graph.referencing kind path scope) := by
  have fresh : entity ∉ graph.referencing kind path scope := fun member =>
    ne_of_absent absent (mem_referencing.1 member).1 rfl
  apply (List.perm_ext_iff_of_nodup (nodup_referencing _ kind path scope) ?_).2
  · intro other
    rw [mem_referencing, contains_insert, List.mem_append, mem_referencing]
    by_cases same : entity = other
    · subst same
      simp [absent]
    · by_cases present : graph.contains other = true
      · by_cases sameKind : other.kind = kind
        · rw [kept other (mem_instances.2 ⟨present, sameKind⟩) (Ne.symm same)]
          split <;> simp [present, Ne.symm same]
        · split <;> simp [sameKind, Ne.symm same]
      · split <;> simp [present, same, Ne.symm same]
  · split
    · exact List.nodup_cons.2 ⟨fresh, nodup_referencing graph kind path scope⟩
    · exact nodup_referencing graph kind path scope

/-- A new entity adds its own value to sums over those that reference its scope, and only there. -/
theorem sum_referencing_insert {M : Type} [AddCommMonoid M] (absent : graph.contains entity = false)
    {kind : String} {path : RelationPath}
    (kept : graph.KeepsPath (graph.insert entity node) entity kind path) (scope : Entity)
    (value : Entity → M) :
    (((graph.insert entity node).referencing kind path scope).map value).sum =
      (if entity.kind = kind ∧ (graph.insert entity node).resolve entity path = some scope
        then value entity else 0) + ((graph.referencing kind path scope).map value).sum := by
  rw [((perm_referencing_insert absent kept scope).map value).sum_eq, List.map_append,
    List.sum_append]
  split <;> simp

end Insert

section Remove

variable {entity : Entity}

/-- A new entity that is removed again leaves the graph as it was. -/
theorem remove_insert {node : Node} (absent : graph.contains entity = false) :
    (graph.insert entity node).remove entity = graph := by
  refine Graph.ext (Std.ExtTreeMap.ext_getElem? fun other => ?_) rfl
  simp only [remove, insert, Std.ExtTreeMap.getElem?_erase, Std.ExtTreeMap.getElem?_insert,
    Std.LawfulEqOrd.compare_eq_iff_eq]
  split
  · rename_i same
    rw [contains_eq, node?, same] at absent
    exact (Option.not_isSome_iff_eq_none.1 (by simp [absent])).symm
  · rfl

/-- A graph is the one without an entity, into which the entity has been inserted. -/
theorem exists_insert_remove (present : graph.contains entity = true) :
    ∃ node, (graph.remove entity).insert entity node = graph := by
  rw [contains_eq] at present
  obtain ⟨node, found⟩ := Option.isSome_iff_exists.1 present
  refine ⟨node, Graph.ext (Std.ExtTreeMap.ext_getElem? fun other => ?_) rfl⟩
  simp only [remove, insert, Std.ExtTreeMap.getElem?_erase, Std.ExtTreeMap.getElem?_insert,
    Std.LawfulEqOrd.compare_eq_iff_eq]
  split
  · rename_i same
    rw [← found, node?, same]
  · rfl

/-- A removal takes one node away. -/
theorem node?_remove (other : Entity) :
    (graph.remove entity).node? other = if entity = other then none else graph.node? other := by
  simp only [node?, remove, Std.ExtTreeMap.getElem?_erase, Std.LawfulEqOrd.compare_eq_iff_eq]

/-- A removal takes one entity away. -/
theorem contains_remove (other : Entity) :
    (graph.remove entity).contains other = true ↔
      entity ≠ other ∧ graph.contains other = true := by
  rw [contains_eq, contains_eq, node?_remove]
  split
  · rename_i same
    simp [same]
  · rename_i different
    simp [different]

/-- An entity that was removed is gone. -/
theorem contains_remove_self (graph : Graph) (entity : Entity) :
    (graph.remove entity).contains entity = false := by
  rw [contains_eq, node?_remove, if_pos rfl]
  rfl

/-- An entity that was removed has no relations, although it may still be a target of relations. -/
theorem related_remove (other : Entity) (relation : String) :
    (graph.remove entity).related other relation =
      if entity = other then none else graph.related other relation := by
  rw [related, node?_remove, related]
  split <;> rfl

/-- An entity that was removed has no attributes. -/
theorem attributeOf_remove (other : Entity) (name : String) :
    (graph.remove entity).attributeOf other name =
      if entity = other then none else graph.attributeOf other name := by
  rw [attributeOf, node?_remove, attributeOf]
  split <;> rfl

/-- If a graph without an entity is still closed, no other walk came past that entity. -/
theorem Closed.keepsPath_remove (closed : (graph.remove entity).Closed)
    (present : graph.contains entity = true) (kind : String) (path : RelationPath) :
    graph.KeepsPath (graph.remove entity) entity kind path := by
  obtain ⟨node, whole⟩ := exists_insert_remove present
  intro other member different
  have inside := (contains_remove _).2 ⟨different.symm, (mem_instances.1 member).1⟩
  have same : ((graph.remove entity).insert entity node).resolve other path = _ :=
    resolve_insert closed (contains_remove_self graph entity) inside path
  rw [whole] at same
  exact same.symm

/-- Removing an entity that no other refers to keeps a graph closed. -/
theorem Closed.remove (closed : graph.Closed)
    (unreferenced : ∀ other relation, graph.related other relation = some entity →
      other = entity) : (graph.remove entity).Closed := by
  intro start relation other related
  rw [related_remove] at related
  rw [contains_remove]
  split at related
  · cases related
  · rename_i different
    refine ⟨?_, closed start relation other related⟩
    rintro rfl
    exact different (unreferenced start relation related).symm

/-- A removal that keeps a path is taken back by an insertion that keeps it. -/
theorem KeepsPath.of_remove {kind : String} {path : RelationPath}
    (kept : graph.KeepsPath (graph.remove entity) entity kind path) :
    (graph.remove entity).KeepsPath graph entity kind path := by
  intro other member different
  obtain ⟨inside, sameKind⟩ := mem_instances.1 member
  exact (kept other (mem_instances.2 ⟨((contains_remove _).1 inside).2, sameKind⟩) different).symm

/-- A removal adds no quota parents. -/
theorem quotaParents_remove_subset (scope : Entity) :
    (graph.remove entity).quotaParents scope ⊆ graph.quotaParents scope := by
  intro parent member
  obtain ⟨relation, listed, related⟩ := List.mem_filterMap.1 member
  apply List.mem_filterMap.2
  refine ⟨relation, listed, ?_⟩
  rw [related_remove] at related
  split at related
  · cases related
  · exact related

end Remove

section SetAttribute

variable {entity : Entity} {name : String} {value : Amount}

/-- Setting an attribute changes one node, and only if it is there. -/
theorem node?_setAttribute (other : Entity) :
    (graph.setAttribute entity name value).node? other =
      if entity = other then (graph.node? other).map fun node =>
        { node with attributes := node.attributes.insert name value }
      else graph.node? other := by
  simp only [node?, setAttribute, Std.ExtTreeMap.getElem?_modify,
    Std.LawfulEqOrd.compare_eq_iff_eq]
  split
  · rename_i same
    rw [same]
  · rfl

/-- Setting an attribute adds no entity. -/
theorem contains_setAttribute (other : Entity) :
    (graph.setAttribute entity name value).contains other = graph.contains other := by
  rw [contains_eq, contains_eq, node?_setAttribute]
  split
  · rw [Option.isSome_map]
  · rfl

/-- Relations do not depend on attributes. -/
theorem related_setAttribute (other : Entity) (relation : String) :
    (graph.setAttribute entity name value).related other relation =
      graph.related other relation := by
  rw [related, node?_setAttribute, related]
  split
  · cases graph.node? other <;> rfl
  · rfl

/-- The attribute that was set is found, and all others are kept. -/
theorem attributeOf_setAttribute (present : graph.contains entity = true) (other : Entity)
    (label : String) :
    (graph.setAttribute entity name value).attributeOf other label =
      if entity = other ∧ name = label then some value else graph.attributeOf other label := by
  rw [attributeOf, node?_setAttribute, attributeOf]
  by_cases same : entity = other
  · subst same
    rw [contains_eq] at present
    obtain ⟨node, found⟩ := Option.isSome_iff_exists.1 present
    simp [found, Std.ExtTreeMap.getElem?_insert]
  · simp [same]

/-- Paths do not depend on attributes. -/
theorem resolve_setAttribute (other : Entity) (path : RelationPath) :
    (graph.setAttribute entity name value).resolve other path = graph.resolve other path :=
  resolve_congr (fun start relation _ => related_setAttribute start relation)
    (fun _ _ _ _ _ => trivial) trivial path

/-- The same entities reference a scope after an attribute was set. -/
theorem perm_referencing_setAttribute (kind : String) (path : RelationPath) (scope : Entity) :
    ((graph.setAttribute entity name value).referencing kind path scope).Perm
      (graph.referencing kind path scope) := by
  apply (List.perm_ext_iff_of_nodup (nodup_referencing _ kind path scope)
    (nodup_referencing graph kind path scope)).2
  intro other
  rw [mem_referencing, mem_referencing, contains_setAttribute, resolve_setAttribute]

theorem quotaParents_setAttribute (scope : Entity) :
    (graph.setAttribute entity name value).quotaParents scope = graph.quotaParents scope := by
  unfold quotaParents
  apply List.filterMap_congr
  intro relation _
  exact related_setAttribute scope relation

/-- A graph stays closed when an attribute is set. -/
theorem Closed.setAttribute (closed : graph.Closed) :
    (graph.setAttribute entity name value).Closed := by
  intro start relation other related
  rw [related_setAttribute] at related
  rw [contains_setAttribute]
  exact closed start relation other related

end SetAttribute

section Decidable

/-- A statement about all entries of a table can be checked along its list. -/
theorem forall_getElem?_iff {κ ν : Type} [Ord κ] [Std.TransOrd κ] [Std.LawfulEqOrd κ]
    {table : Table κ ν} {statement : κ → ν → Prop} :
    (∀ (key : κ) (value : ν), table[key]? = some value → statement key value) ↔
      ∀ entry ∈ table.toList, statement entry.1 entry.2 := by
  constructor
  · intro each entry member
    exact each entry.1 entry.2 (Std.ExtTreeMap.mem_toList_iff_getElem?_eq_some.1 member)
  · intro each key value found
    exact each (key, value) (Std.ExtTreeMap.mem_toList_iff_getElem?_eq_some.2 found)

/-- A statement about all entries of a table is decided over the list of its entries. -/
instance {κ ν : Type} [Ord κ] [Std.TransOrd κ] [Std.LawfulEqOrd κ] (table : Table κ ν)
    (statement : κ → ν → Prop) [∀ key value, Decidable (statement key value)] :
    Decidable (∀ (key : κ) (value : ν), table[key]? = some value → statement key value) :=
  decidable_of_iff _ forall_getElem?_iff.symm

/-- Whether nothing references an entity can be seen from the relations of the nodes. -/
theorem unreferenced_iff {entity : Entity} :
    (∀ other relation, graph.related other relation = some entity → other = entity) ↔
      ∀ (other : Entity) (node : Node), graph.nodes[other]? = some node →
        ∀ (relation : String) (target : Entity), node.relations[relation]? = some target →
          target = entity → other = entity := by
  constructor
  · rintro unreferenced other node found relation target related rfl
    exact unreferenced other relation (Option.bind_eq_some_iff.2 ⟨node, found, related⟩)
  · intro each other relation related
    obtain ⟨node, found, isTarget⟩ := Option.bind_eq_some_iff.1 related
    exact each other node found relation entity isTarget rfl

instance (graph : Graph) (entity : Entity) :
    Decidable (∀ other relation, graph.related other relation = some entity → other = entity) :=
  decidable_of_iff _ unreferenced_iff.symm

end Decidable

end HierarchicalQuota.Graph
