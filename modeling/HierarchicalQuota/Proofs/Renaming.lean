import HierarchicalQuota.Proofs.Acceptance
import HierarchicalQuota.Proofs.Recalculation
import Mathlib.Data.List.Sort

namespace HierarchicalQuota

/-- A renaming gives every id of a kind another one, and it keeps different ids apart. -/
structure Renaming where
  rename : String → String → String
  injective : ∀ kind, Function.Injective (rename kind)

namespace Renaming

variable {naming : Renaming}

/-- A renaming changes ids and keeps kinds. -/
def entity (naming : Renaming) (entity : Entity) : Entity :=
  ⟨entity.kind, naming.rename entity.kind entity.id⟩

/-- A node is renamed in the entities that its relations lead to. -/
def node (naming : Renaming) (node : Node) : Node :=
  { node with relations := node.relations.map fun _ related => naming.entity related }

/-- Different entities keep different names. -/
theorem entity_injective (naming : Renaming) : Function.Injective naming.entity := by
  rintro ⟨kind, first⟩ ⟨otherKind, second⟩ same
  obtain ⟨rfl, sameId⟩ := Entity.mk.inj same
  exact Entity.ext rfl (naming.injective kind sameId)

/-- A renaming keeps the order if the instances of each kind are in the same order afterwards. -/
def KeepsOrder (naming : Renaming) (graph : Graph) : Prop :=
  ∀ first second, graph.contains first = true → graph.contains second = true →
    first.kind = second.kind →
    compare (naming.entity first) (naming.entity second) = compare first second

end Renaming

namespace Graph

variable {graph : Graph} {naming : Renaming}

/-- A renamed graph has the same nodes, attributes and relations under other names. -/
def rename (graph : Graph) (naming : Renaming) : Graph :=
  { graph with
    nodes := Std.ExtTreeMap.ofList
      (graph.nodes.toList.map fun entry => (naming.entity entry.1, naming.node entry.2)) }

/-- The renamed graph contains the renamed entities. -/
theorem contains_rename {other : Entity} :
    (graph.rename naming).contains other = true ↔
      ∃ entity, graph.contains entity = true ∧ naming.entity entity = other := by
  simp only [contains, rename, Std.ExtTreeMap.contains_ofList, List.map_map, List.contains_eq_mem,
    decide_eq_true_eq, List.mem_map, Function.comp_apply, Prod.exists,
    Std.ExtTreeMap.mem_toList_iff_getElem?_eq_some, Std.ExtTreeMap.contains_iff_mem]
  constructor
  · rintro ⟨entity, node, found, rfl⟩
    exact ⟨entity, Std.ExtTreeMap.mem_iff_isSome_getElem?.2 (Option.isSome_of_eq_some found), rfl⟩
  · rintro ⟨entity, present, rfl⟩
    obtain ⟨node, found⟩ :=
      Option.isSome_iff_exists.1 (Std.ExtTreeMap.mem_iff_isSome_getElem?.1 present)
    exact ⟨entity, node, found, rfl⟩

/-- The node of a renamed entity is its renamed node. -/
theorem node?_rename (entity : Entity) :
    (graph.rename naming).node? (naming.entity entity) =
      (graph.node? entity).map naming.node := by
  cases found : graph.node? entity with
  | some node =>
      refine Std.ExtTreeMap.getElem?_ofList_of_mem Std.ReflCmp.compare_self ?_ ?_
      · rw [List.pairwise_map]
        refine Std.ExtTreeMap.distinct_keys_toList.imp fun {first second} different same => ?_
        have sameEntity := naming.entity_injective (Std.LawfulEqOrd.eq_of_compare same)
        exact different (Std.LawfulEqOrd.compare_eq_iff_eq.2 sameEntity)
      · exact List.mem_map.2 ⟨(entity, node),
          Std.ExtTreeMap.mem_toList_iff_getElem?_eq_some.2 found, rfl⟩
  | none =>
      refine Std.ExtTreeMap.getElem?_eq_none fun member => ?_
      obtain ⟨other, present, same⟩ := contains_rename.1 member
      rw [naming.entity_injective same, contains, Std.ExtTreeMap.contains_iff_mem,
        Std.ExtTreeMap.mem_iff_isSome_getElem?] at present
      rw [node?] at found
      rw [found] at present
      cases present

/-- Relations lead from renamed entities to renamed entities. -/
theorem related_rename (entity : Entity) (relation : String) :
    (graph.rename naming).related (naming.entity entity) relation =
      (graph.related entity relation).map naming.entity := by
  rw [related, node?_rename, related]
  cases graph.node? entity with
  | none => rfl
  | some node => exact Std.ExtTreeMap.getElem?_map

/-- The quota parents of a renamed scope are the renamed quota parents. -/
theorem quotaParents_rename (scope : Entity) :
    (graph.rename naming).quotaParents (naming.entity scope) =
      (graph.quotaParents scope).map naming.entity := by
  rw [quotaParents, quotaParents, List.map_filterMap]
  exact List.filterMap_congr fun relation _ => related_rename scope relation

section Chains

/-- Chains are as long in the renamed graph. -/
theorem climbs_rename {hops : Nat} {scope : Entity} :
    (graph.rename naming).Climbs hops (naming.entity scope) ↔ graph.Climbs hops scope := by
  induction hops generalizing scope with
  | zero => exact Iff.rfl
  | succ hops inductionHypothesis =>
      rw [Climbs, Climbs, quotaParents_rename]
      constructor
      · rintro ⟨_, member, rest⟩
        obtain ⟨parent, hop, rfl⟩ := List.mem_map.1 member
        exact ⟨parent, hop, inductionHypothesis.1 rest⟩
      · rintro ⟨parent, hop, rest⟩
        exact ⟨_, List.mem_map_of_mem hop, inductionHypothesis.2 rest⟩

/-- What is above a scope is above it under the new names, too. -/
theorem Above.rename {child scope : Entity} (above : graph.Above child scope) :
    (graph.rename naming).Above (naming.entity child) (naming.entity scope) := by
  refine Relation.TransGen.lift naming.entity (fun first second hop => ?_) _ _ above
  change naming.entity second ∈ (graph.rename naming).quotaParents (naming.entity first)
  rw [quotaParents_rename]
  exact List.mem_map_of_mem hop

/-- A cycle is still a cycle under the new names. -/
theorem LeadsToCycle.rename {scope : Entity} (leads : graph.LeadsToCycle scope) :
    (graph.rename naming).LeadsToCycle (naming.entity scope) := by
  obtain ⟨looped, rfl | above, around⟩ := leads
  · exact ⟨_, .inl rfl, around.rename⟩
  · exact ⟨_, .inr above.rename, around.rename⟩

end Chains

section Search

/-- Two results agree if both are values that correspond, or if both are errors. -/
inductive Agree {α β : Type} (corresponds : α → β → Prop) :
    Except QuotaError α → Except QuotaError β → Prop
  | ok {first : α} {second : β} (same : corresponds first second) :
      Agree corresponds (.ok first) (.ok second)
  | error (first second : QuotaError) : Agree corresponds (.error first) (.error second)

variable {α β γ δ ι κ : Type}

/-- Two searches agree if they agree so far, and go on to agree from there. -/
theorem Agree.bind {corresponds : α → β → Prop} {corresponds' : γ → δ → Prop}
    {first : Except QuotaError α} {second : Except QuotaError β}
    {firstNext : α → Except QuotaError γ} {secondNext : β → Except QuotaError δ}
    (agree : Agree corresponds first second)
    (next : ∀ value other, corresponds value other →
      Agree corresponds' (firstNext value) (secondNext other)) :
    Agree corresponds' (first >>= firstNext) (second >>= secondNext) := by
  cases agree with
  | ok same => exact next _ _ same
  | error cause other => exact .error cause other

/-- Two searches through lists agree if they agree on each item. The induction is on the list. -/
theorem Agree.foldlM {corresponds : α → β → Prop} {convert : ι → κ}
    {firstStep : α → ι → Except QuotaError α} {secondStep : β → κ → Except QuotaError β}
    (step : ∀ value other item, corresponds value other →
      Agree corresponds (firstStep value item) (secondStep other (convert item)))
    (items : List ι) {value : α} {other : β} (same : corresponds value other) :
    Agree corresponds (items.foldlM firstStep value)
      ((items.map convert).foldlM secondStep other) := by
  induction items generalizing value other with
  | nil => exact .ok same
  | cons item items inductionHypothesis =>
      rw [List.map_cons, List.foldlM_cons, List.foldlM_cons]
      exact (step value other item same).bind fun _ _ => inductionHypothesis

/-- Searches that agree succeed together or fail together. -/
theorem Agree.isOk_eq {corresponds : α → β → Prop} {first : Except QuotaError α}
    {second : Except QuotaError β} (agree : Agree corresponds first second) :
    second.isOk = first.isOk := by
  cases agree <;> rfl

/-- A renamed table knows of the renamed entities what the table knows of the entities. -/
def Copies (naming : Renaming) (known copy : Table Entity Nat) : Prop :=
  ∀ entity, copy[naming.entity entity]? = known[entity]?

/-- A depth that is entered in both tables keeps one a copy of the other. -/
theorem Copies.insert {known copy : Table Entity Nat} (copies : Copies naming known copy)
    (scope : Entity) (depth : Nat) :
    Copies naming (known.insert scope depth) (copy.insert (naming.entity scope) depth) := by
  intro entity
  simp only [Std.ExtTreeMap.getElem?_insert, Std.LawfulEqOrd.compare_eq_iff_eq,
    naming.entity_injective.eq_iff, copies entity]

/-- A search and its copy have found the same depth, and what they know corresponds. -/
def CopiesSearch (naming : Renaming) (found copy : Nat × Table Entity Nat) : Prop :=
  copy.1 = found.1 ∧ Copies naming found.2 copy.2

/-- A search in the renamed graph goes as the search in the graph does. -/
theorem depth_rename (levels : Nat) (scope : Entity) {known copy : Table Entity Nat}
    (copies : Copies naming known copy) :
    Agree (CopiesSearch naming) (graph.depth levels scope known)
      ((graph.rename naming).depth levels (naming.entity scope) copy) := by
  induction levels generalizing scope known copy with
  | zero =>
      unfold Graph.depth
      rw [copies scope]
      cases known[scope]? with
      | some depth => exact .ok ⟨rfl, copies⟩
      | none => exact .error _ _
  | succ levels inductionHypothesis =>
      rw [depth_succ, depth_succ, copies scope, quotaParents_rename]
      cases known[scope]? with
      | some depth => exact .ok ⟨rfl, copies⟩
      | none =>
          have parents : Agree (CopiesSearch naming)
              ((graph.quotaParents scope).foldlM (graph.deepen levels) (0, known))
              (((graph.quotaParents scope).map naming.entity).foldlM
                ((graph.rename naming).deepen levels) (0, copy)) := by
            refine Agree.foldlM ?_ _ ⟨rfl, copies⟩
            rintro ⟨depth, table⟩ ⟨_, other⟩ parent ⟨rfl, tables⟩
            refine (inductionHypothesis parent tables).bind ?_
            rintro ⟨above, later⟩ ⟨_, laterCopy⟩ ⟨rfl, laterTables⟩
            exact .ok ⟨rfl, laterTables⟩
          refine parents.bind ?_
          rintro ⟨depth, table⟩ ⟨_, other⟩ ⟨rfl, tables⟩
          exact .ok ⟨rfl, tables.insert scope _⟩

/-- The depths of renamed scopes are searched alike, if the scopes come in the same order. -/
theorem depths_rename (scopes : List Entity) {known copy : Table Entity Nat}
    (copies : Copies naming known copy) :
    Agree (fun first second => second = first.map fun entry => (entry.1, naming.entity entry.2))
      (graph.depths scopes known)
      ((graph.rename naming).depths (scopes.map naming.entity) copy) := by
  induction scopes generalizing known copy with
  | nil => exact .ok rfl
  | cons scope scopes inductionHypothesis =>
      refine (depth_rename maxHierarchyDepth scope copies).bind ?_
      rintro ⟨depth, table⟩ ⟨_, other⟩ ⟨rfl, tables⟩
      refine (inductionHypothesis tables).bind ?_
      rintro entries _ rfl
      exact .ok rfl

/-- Where the order of the ids is kept, the instances are listed in the same order. -/
theorem instances_rename (keeps : naming.KeepsOrder graph) (kind : String) :
    (graph.rename naming).instances kind = (graph.instances kind).map naming.entity := by
  have asymmetric : Std.Asymm fun first second : Entity => compare first second = .lt :=
    ⟨fun first second before after => by
      rw [Std.OrientedCmp.gt_of_lt before] at after
      cases after⟩
  refine List.Pairwise.eq_of_mem_iff (Std.ExtTreeMap.ordered_keys.filter _) ?_ fun other => ?_
  · rw [List.pairwise_map]
    refine List.Pairwise.imp_of_mem (fun {first second} firstMember secondMember before => ?_)
      (Std.ExtTreeMap.ordered_keys.filter _)
    obtain ⟨firstKey, firstKind⟩ := List.mem_filter.1 firstMember
    obtain ⟨secondKey, secondKind⟩ := List.mem_filter.1 secondMember
    have sameKind : first.kind = second.kind :=
      (of_decide_eq_true firstKind).trans (of_decide_eq_true secondKind).symm
    rw [keeps first second (Std.ExtTreeMap.mem_keys.1 firstKey)
      (Std.ExtTreeMap.mem_keys.1 secondKey) sameKind]
    exact before
  · simp only [instances, List.mem_filter, List.mem_map, Std.ExtTreeMap.mem_keys,
      decide_eq_true_eq]
    constructor
    · rintro ⟨present, isKind⟩
      obtain ⟨entity, listed, rfl⟩ := contains_rename.1 present
      exact ⟨entity, ⟨listed, isKind⟩, rfl⟩
    · rintro ⟨entity, ⟨listed, isKind⟩, rfl⟩
      exact ⟨contains_rename.2 ⟨entity, listed, rfl⟩, isKind⟩

end Search

end Graph

namespace Engine

open HierarchicalQuota.Graph

variable {registry : Registry} {graph : Graph} {naming : Renaming}

/-- Where the names keep their order, the renamed scopes are listed in the same order. -/
theorem registeredScopes_rename (keeps : naming.KeepsOrder graph) :
    (Engine.mk registry (graph.rename naming)).registeredScopes =
      (Engine.mk registry graph).registeredScopes.map naming.entity := by
  simp only [registeredScopes, List.map_flatMap]
  exact List.flatMap_congr fun kind _ => instances_rename keeps kind

/-- The renamed scopes are the scopes of the renamed graph. -/
theorem registeredInstance_rename {other : Entity} :
    (Engine.mk registry (graph.rename naming)).RegisteredInstance other ↔
      ∃ scope, (Engine.mk registry graph).RegisteredInstance scope ∧
        naming.entity scope = other := by
  constructor
  · rintro ⟨isKind, present⟩
    obtain ⟨scope, listed, rfl⟩ := contains_rename.1 present
    exact ⟨scope, ⟨isKind, listed⟩, rfl⟩
  · rintro ⟨scope, ⟨isKind, present⟩, rfl⟩
    exact ⟨isKind, contains_rename.2 ⟨scope, present, rfl⟩⟩

/-- Where the names keep their order, the depths are found in both graphs or in neither. -/
theorem hasDepths_rename (keeps : naming.KeepsOrder graph) :
    (Engine.mk registry (graph.rename naming)).hasDepths =
      (Engine.mk registry graph).hasDepths := by
  have nothing : Copies naming ∅ ∅ := fun _ => by simp
  have agree : Agree _ (graph.depths _ ∅) ((graph.rename naming).depths _ ∅) :=
    depths_rename (Engine.mk registry graph).registeredScopes nothing
  rw [← registeredScopes_rename keeps] at agree
  exact agree.isOk_eq

/-- A recalculation succeeds on a graph and on the renamed graph, or it is refused on both, if the
order of the ids is kept, if no registered instance climbs to the depth bound, or if one of them
leads to a cycle. -/
theorem recalculateAll_rename {σ τ : Type} [QuotaStore σ] [LawfulStore σ] [QuotaStore τ]
    [LawfulStore τ] (registry : Registry) (graph : Graph) (naming : Renaming)
    (regular : naming.KeepsOrder graph ∨
      (∀ scope, (Engine.mk registry graph).RegisteredInstance scope →
        ¬ graph.Climbs maxHierarchyDepth scope) ∨
      ∃ scope, (Engine.mk registry graph).RegisteredInstance scope ∧ graph.LeadsToCycle scope)
    (store : σ) (other : τ) :
    ((Engine.mk registry graph).AcceptsHierarchy store ∧
        (Engine.mk registry (graph.rename naming)).AcceptsHierarchy other) ∨
      ((Engine.mk registry graph).RefusesHierarchy store ∧
        (Engine.mk registry (graph.rename naming)).RefusesHierarchy other) := by
  have same : (Engine.mk registry (graph.rename naming)).hasDepths =
      (Engine.mk registry graph).hasDepths := by
    rcases regular with keeps | low | ⟨scope, registered, leads⟩
    · exact hasDepths_rename keeps
    · rw [hasDepths_of_low _ low, hasDepths_of_low]
      intro renamed isInstance climbs
      obtain ⟨scope, registered, rfl⟩ := registeredInstance_rename.1 isInstance
      exact low scope registered (climbs_rename.1 climbs)
    · rw [hasDepths_of_leadsToCycle _ registered leads]
      exact hasDepths_of_leadsToCycle _
        (registeredInstance_rename.2 ⟨scope, registered, rfl⟩) leads.rename
  cases finds : (Engine.mk registry graph).hasDepths with
  | true =>
      rw [finds] at same
      exact .inl ⟨acceptsHierarchy_of_hasDepths _ finds store,
        acceptsHierarchy_of_hasDepths _ same other⟩
  | false =>
      rw [finds] at same
      exact .inr ⟨refusesHierarchy_of_hasDepths _ finds store,
        refusesHierarchy_of_hasDepths _ same other⟩

end Engine

section Sample

/-- Two ids trade places in every kind. -/
def swapIds (first second : String) : Renaming where
  rename _ := Equiv.swap first second
  injective _ := (Equiv.swap first second).injective

/-- Every entity of a chain is the parent of the one before it. -/
def chain : List Entity → Graph
  | [] => (Graph.empty.withParentRelations "team" ["parent"]).withParentRelations "link" ["parent"]
  | [top] => (chain []).insert top {}
  | child :: parent :: others =>
      (chain (parent :: others)).insert child
        { relations := Std.ExtTreeMap.empty.insert "parent" parent }

def link (position : Nat) : Entity := ⟨"link", toString position⟩

/-- The lower team is 66 hops below the top of the chain, and the higher team is 63 hops below it. -/
def deepChain (lower higher : String) : Graph :=
  chain (⟨"team", lower⟩ :: link 1 :: link 2 :: ⟨"team", higher⟩ ::
    (List.range 63).map fun position => link (position + 4))

def teamRegistry : Registry where
  registrations := [⟨"team", { name := "storage" }⟩]
  distinct := by decide

/-- The deep chain is refused where its lower team is searched first, and accepted where the higher
one is, although only the names of the two teams differ. -/
theorem refused_by_name :
    (Engine.mk teamRegistry (deepChain "a" "b")).RefusesHierarchy MemoryStore.empty ∧
      (Engine.mk teamRegistry ((deepChain "a" "b").rename (swapIds "a" "b"))).AcceptsHierarchy
        MemoryStore.empty := by
  exact ⟨Engine.refusesHierarchy_of_hasDepths _ (by decide +kernel) _,
    Engine.acceptsHierarchy_of_hasDepths _ (by decide +kernel) _⟩

/-- In a shallow graph the organization and the team may trade their names. -/
theorem recalculateAll_rename_sample :
    (Engine.AcceptsHierarchy sampleEngine sampleDrift ∧
        (Engine.mk sampleRegistry (sampleGraph.rename (swapIds "acme" "red"))).AcceptsHierarchy
          MemoryStore.empty) ∨
      (Engine.RefusesHierarchy sampleEngine sampleDrift ∧
        (Engine.mk sampleRegistry (sampleGraph.rename (swapIds "acme" "red"))).RefusesHierarchy
          MemoryStore.empty) :=
  Engine.recalculateAll_rename sampleRegistry sampleGraph (swapIds "acme" "red")
    (.inr (.inl fun scope _ => shallow_sampleGraph scope)) sampleDrift MemoryStore.empty

end Sample

end HierarchicalQuota
