import HierarchicalQuota.Proofs.Interruption
import HierarchicalQuota.Proofs.Reversal
import Mathlib.Data.Set.Card

namespace HierarchicalQuota

open HierarchicalQuota.Action (Ensures)
open LawfulStore (lookup put)

/-- The difference to an amount that is not negative can be cut off only at the upper end. -/
theorem Amount.value_sub_of_nonneg {left : Amount} (floor : 0 ≤ left.value) (right : Amount) :
    (left - right).value = min (left.value - right.value) 9223372036854775807 := by
  have upper := right.upper
  rw [value_sub]
  omega

/-- A hop is taken to the scope at one position among quota parents and to an aggregate of it. -/
structure Hop where
  position : Nat
  name : String
deriving DecidableEq

namespace Engine

variable {engine : Engine}

/-- A hop leads from a child's measure to a connected aggregate over it. -/
structure HopsTo (engine : Engine) (child : Entity) (quota : String) (measure : Measure)
    (hop : Hop) (aggregate : Aggregate) : Prop where
  parent : (engine.graph.quotaParents child)[hop.position]? = some aggregate.scope
  registered : aggregate.field ∈ engine.registry.fields aggregate.scope.kind
  named : aggregate.field.name = hop.name
  sumsQuota : aggregate.field.childQuota? = some quota
  sumsMeasure : aggregate.field.aggregator?.map (·.measure) = some measure
  connected : aggregate.field.isConnected aggregate.scope engine.graph

/-- A chain is a sequence of hops. The first leaves a measure of a quota, and every other one leaves
the usage of the aggregate that the hop before it has led to. -/
inductive Chain (engine : Engine) :
    Entity → String → Measure → List Hop → Entity → String → Prop where
  | nil {child : Entity} {quota : String} {measure : Measure} :
      Chain engine child quota measure [] child quota
  | cons {child scope : Entity} {quota name : String} {measure : Measure} {hop : Hop}
      {hops : List Hop} {aggregate : Aggregate}
      (first : engine.HopsTo child quota measure hop aggregate)
      (rest : Chain engine aggregate.scope aggregate.field.name .usage hops scope name) :
      Chain engine child quota measure (hop :: hops) scope name

/-- These are the chains of one or more hops between two quotas. -/
def chainsBetween (engine : Engine) (child : Entity) (quota : String) (measure : Measure)
    (scope : Entity) (name : String) : Set (List Hop) :=
  {hops | hops ≠ [] ∧ engine.Chain child quota measure hops scope name}

section Hops

/-- The hops from a child's measure are listed together with the aggregates that they lead to. -/
def hopsFrom (engine : Engine) (child : Entity) (quota : String) (measure : Measure) :
    List (Hop × Aggregate) :=
  (engine.graph.quotaParents child).zipIdx.flatMap fun (parent, position) =>
    ((engine.registry.aggregatorsOver parent.kind quota measure).filter fun field =>
      field.isConnected parent engine.graph).map fun field => (⟨position, field.name⟩, ⟨parent, field⟩)

/-- Hops lead to the aggregates over a measure, in their order. -/
theorem map_snd_hopsFrom (engine : Engine) (child : Entity) (quota : String) (measure : Measure) :
    (engine.hopsFrom child quota measure).map Prod.snd =
      engine.aggregatesOver child quota measure := by
  rw [hopsFrom, aggregatesOver, List.map_flatMap]
  simp only [List.map_map, Function.comp_def]
  conv_rhs => rw [← List.zipIdx_map_fst 0 (engine.graph.quotaParents child), List.flatMap_map]

/-- The listed hops are those that a relation and a field make possible. -/
theorem mem_hopsFrom {child : Entity} {quota : String} {measure : Measure} {hop : Hop}
    {aggregate : Aggregate} :
    (hop, aggregate) ∈ engine.hopsFrom child quota measure ↔
      engine.HopsTo child quota measure hop aggregate := by
  obtain ⟨scope, field⟩ := aggregate
  obtain ⟨position, name⟩ := hop
  simp only [hopsFrom, Registry.aggregatorsOver, List.mem_flatMap, List.mem_map, List.mem_filter,
    Prod.mk.injEq, Hop.mk.injEq, Aggregate.mk.injEq, decide_eq_true_eq, Bool.decide_and,
    Bool.and_eq_true, Prod.exists, List.mem_zipIdx_iff_getElem?]
  constructor
  · rintro ⟨_, _, parent, _, ⟨⟨registered, sumsQuota, sumsMeasure⟩, connected⟩, ⟨rfl, named⟩, rfl,
      rfl⟩
    exact ⟨parent, registered, named, sumsQuota, sumsMeasure, connected⟩
  · rintro ⟨parent, registered, named, sumsQuota, sumsMeasure, connected⟩
    exact ⟨scope, position, parent, field, ⟨⟨registered, sumsQuota, sumsMeasure⟩, connected⟩,
      ⟨rfl, named⟩, rfl, rfl⟩

/-- Different hops lead to the aggregates that are listed. -/
theorem nodup_hopsFrom (engine : Engine) (child : Entity) (quota : String) (measure : Measure) :
    ((engine.hopsFrom child quota measure).map Prod.fst).Nodup := by
  rw [hopsFrom, List.map_flatMap, List.nodup_flatMap]
  constructor
  · rintro ⟨parent, position⟩ -
    have names := engine.registry.nodup_names parent.kind
    rw [List.Nodup, List.pairwise_map] at names
    rw [List.map_map, List.Nodup, List.pairwise_map, Registry.aggregatorsOver]
    refine ((names.filter _).filter _).imp fun different same => different ?_
    exact congrArg Hop.name same
  · have positions : ((engine.graph.quotaParents child).zipIdx.map Prod.snd).Nodup := by
      rw [List.zipIdx_map_snd]
      exact List.nodup_range'
    rw [List.Nodup, List.pairwise_map] at positions
    refine positions.imp fun {first second} different => ?_
    -- Hops to two parents differ in their positions.
    rw [Function.onFun, List.disjoint_left]
    intro hop inFirst inSecond
    simp only [List.mem_map, exists_exists_and_eq_and] at inFirst inSecond
    obtain ⟨field, -, rfl⟩ := inFirst
    obtain ⟨other, -, same⟩ := inSecond
    exact different (congrArg Hop.position same).symm

end Hops

section Walks

/-- The chains of at most some hops are listed, one first hop after the other. -/
def walks (engine : Engine) :
    Nat → Entity → String → Measure → Entity → String → List (List Hop)
  | 0, _, _, _, _, _ => []
  | levels + 1, child, quota, measure, scope, name =>
      (engine.hopsFrom child quota measure).flatMap fun (hop, aggregate) =>
        ((if aggregate.scope = scope ∧ aggregate.field.name = name then [[]] else []) ++
          engine.walks levels aggregate.scope aggregate.field.name .usage scope name).map (hop :: ·)

/-- Walks are counted as the engine counts its chains, level by level. -/
theorem length_walks (levels : Nat) (child : Entity) (quota : String) (measure : Measure)
    (scope : Entity) (name : String) :
    (engine.walks levels child quota measure scope name).length =
      engine.chains (fun _ _ => true) levels child quota measure scope name := by
  induction levels generalizing child quota measure with
  | zero => rfl
  | succ levels inductionHypothesis =>
      rw [walks, chains, List.length_flatMap, List.filter_true, ← map_snd_hopsFrom, List.map_map]
      congr 1
      apply List.map_congr_left
      rintro ⟨hop, aggregate⟩ -
      rw [List.length_map, List.length_append, inductionHypothesis, Function.comp_apply,
        Aggregate.count]
      split <;> rfl

/-- A chain without hops stays at its quota. -/
theorem chain_nil_iff {child scope : Entity} {quota name : String} {measure : Measure} :
    engine.Chain child quota measure [] scope name ↔ child = scope ∧ quota = name := by
  constructor
  · rintro ⟨⟩
    exact ⟨rfl, rfl⟩
  · rintro ⟨rfl, rfl⟩
    exact .nil

/-- A chain goes on from the aggregate to which its first hop leads. -/
theorem chain_cons_iff {child scope : Entity} {quota name : String} {measure : Measure} {hop : Hop}
    {hops : List Hop} :
    engine.Chain child quota measure (hop :: hops) scope name ↔ ∃ aggregate,
      engine.HopsTo child quota measure hop aggregate ∧
        engine.Chain aggregate.scope aggregate.field.name .usage hops scope name := by
  constructor
  · rintro ⟨⟩
    exact ⟨_, ‹_›, ‹_›⟩
  · rintro ⟨aggregate, first, rest⟩
    exact .cons first rest

/-- The listed walks are the chains up to a number of hops. The induction is on this number. -/
theorem mem_walks {levels : Nat} {child scope : Entity} {quota name : String} {measure : Measure}
    {hops : List Hop} :
    hops ∈ engine.walks levels child quota measure scope name ↔
      hops ∈ engine.chainsBetween child quota measure scope name ∧ hops.length ≤ levels := by
  induction levels generalizing child quota measure hops with
  | zero =>
      simp only [walks, List.not_mem_nil, Nat.le_zero, List.length_eq_zero_iff, false_iff, not_and]
      exact fun chain empty => chain.1 empty
  | succ levels inductionHypothesis =>
      have longer (aggregate : Aggregate) (rest : List Hop) :
          rest ∈ (if aggregate.scope = scope ∧ aggregate.field.name = name then [[]] else []) ++
              engine.walks levels aggregate.scope aggregate.field.name .usage scope name ↔
            engine.Chain aggregate.scope aggregate.field.name .usage rest scope name ∧
              rest.length ≤ levels := by
        rw [List.mem_append, inductionHypothesis]
        cases rest with
        | nil => simp [chainsBetween, chain_nil_iff]
        | cons => simp [chainsBetween]
      rw [walks, List.mem_flatMap]
      simp only [Prod.exists, List.mem_map, longer, mem_hopsFrom]
      cases hops with
      | nil => simp [chainsBetween]
      | cons hop rest =>
          simp only [chainsBetween, Set.mem_ofPred_eq, chain_cons_iff, List.length_cons,
            Nat.add_le_add_iff_right, List.cons.injEq, ne_eq, reduceCtorEq, not_false_eq_true,
            true_and]
          constructor
          · rintro ⟨_, aggregate, first, _, ⟨chain, short⟩, rfl, rfl⟩
            exact ⟨⟨aggregate, first, chain⟩, short⟩
          · rintro ⟨⟨aggregate, first, chain⟩, short⟩
            exact ⟨hop, aggregate, first, rest, ⟨chain, short⟩, rfl, rfl⟩

/-- No walk is listed twice. -/
theorem nodup_walks (levels : Nat) (child : Entity) (quota : String) (measure : Measure)
    (scope : Entity) (name : String) :
    (engine.walks levels child quota measure scope name).Nodup := by
  induction levels generalizing child quota measure with
  | zero => exact List.nodup_nil
  | succ levels inductionHypothesis =>
      rw [walks, List.nodup_flatMap]
      constructor
      · rintro ⟨hop, aggregate⟩ -
        refine List.Nodup.map (List.cons_injective) (List.nodup_append'.2
          ⟨?_, inductionHypothesis _ _ _, ?_⟩)
        · split <;> simp
        · intro hops empty walk
          obtain ⟨⟨nonempty, -⟩, -⟩ := mem_walks.1 walk
          split at empty
          · exact nonempty (List.mem_singleton.1 empty)
          · cases empty
      · have distinct := engine.nodup_hopsFrom child quota measure
        rw [List.Nodup, List.pairwise_map] at distinct
        refine distinct.imp fun {first second} different => ?_
        rw [Function.onFun, List.disjoint_left]
        intro hops inFirst inSecond
        obtain ⟨rest, -, rfl⟩ := List.mem_map.1 inFirst
        obtain ⟨other, -, same⟩ := List.mem_map.1 inSecond
        exact different (List.cons.inj same).1.symm

end Walks

section Counting

/-- Each hop of a chain climbs to a quota parent. -/
theorem Chain.climbs {child scope : Entity} {quota name : String} {measure : Measure}
    {hops : List Hop} (chain : engine.Chain child quota measure hops scope name) :
    engine.graph.Climbs hops.length child := by
  induction chain with
  | nil => trivial
  | cons first _ inductionHypothesis =>
      exact ⟨_, List.mem_of_getElem? first.parent, inductionHypothesis⟩

variable (shallow : engine.graph.Shallow)

include shallow

/-- In a shallow hierarchy all chains are short enough to be listed. -/
theorem mem_chainsBetween_iff {child scope : Entity} {quota name : String} {measure : Measure}
    {hops : List Hop} :
    hops ∈ engine.chainsBetween child quota measure scope name ↔
      hops ∈ engine.walks maxHierarchyDepth child quota measure scope name := by
  rw [mem_walks]
  refine ⟨fun chain => ⟨chain, ?_⟩, And.left⟩
  by_contra long
  exact shallow child (chain.2.climbs.of_le (Nat.le_of_not_le long))

/-- In a shallow hierarchy there are finitely many chains between two quotas. -/
theorem finite_chainsBetween (child : Entity) (quota : String) (measure : Measure) (scope : Entity)
    (name : String) : (engine.chainsBetween child quota measure scope name).Finite := by
  apply (List.finite_toSet (engine.walks maxHierarchyDepth child quota measure scope name)).subset
  exact fun hops chain => (mem_chainsBetween_iff shallow).1 chain

/-- The paths that the engine follows are the chains. -/
theorem ncard_chainsBetween (child : Entity) (quota : String) (measure : Measure) (scope : Entity)
    (name : String) :
    (engine.chainsBetween child quota measure scope name).ncard =
      engine.paths child quota measure scope name := by
  have listed : engine.chainsBetween child quota measure scope name =
      ((engine.walks maxHierarchyDepth child quota measure scope name).toFinset : Set (List Hop)) := by
    ext hops
    rw [mem_chainsBetween_iff shallow, List.coe_toFinset, Set.mem_ofPred_eq]
  rw [listed, Set.ncard_coe_finset, List.toFinset_card_of_nodup (nodup_walks _ _ _ _ _ _),
    length_walks, paths]

end Counting

section Effect

variable {σ : Type} [QuotaStore σ] [LawfulStore σ]

/-- A usage that is set where all aggregates above are stored is written as it is, or as zero if it is
negative. Every aggregate then moves by the change along each of the chains that lead to it, and
nothing else moves, as long as no aggregate is cut off. A change beyond the greatest amount is passed
on as that amount. -/
theorem setUsage_follows_chains (engine : Engine) (scope : Entity) (name : String) (field : Field)
    (quota : Quota) (usage : Amount) (store : σ) (shallow : engine.graph.Shallow)
    (known : engine.registry.field? scope.kind name = some field)
    (connected : field.isConnected scope engine.graph = true)
    (found : lookup store scope name = some quota) (covered : engine.Covered store scope)
    (exact : RecordedStore.AllFit StoreCall.ExactShift
      (Action.history (engine.setUsage scope name usage) store)) :
    Action.outcome (engine.setUsage scope name usage) store = .ok ⟨⟩ ∧
      lookup (Action.after (engine.setUsage scope name usage) store) scope name =
        some { quota with usage := max usage 0 } ∧
      (∀ other label, (engine.chainsBetween scope name .usage other label).Finite) ∧
      Moved (put store scope name { quota with usage := max usage 0 })
        (Action.after (engine.setUsage scope name usage) store) fun other label =>
          min ((max usage 0).value - quota.usage.value) 9223372036854775807 *
            (engine.chainsBetween scope name .usage other label).ncard := by
  obtain ⟨succeeds, moved⟩ := (ensures_setUsage_covered shallow shiftsExactly_exactShift known
    connected found covered usage).of_allFit
    (RecordedStore.answersAlike.setQuotaUsage engine scope name usage) exact
  refine ⟨succeeds, ?_, finite_chainsBetween shallow scope name .usage, moved.congr ?_⟩
  · rw [moved.lookup_eq, LawfulStore.lookup_put, if_pos ⟨rfl, rfl⟩]
    rw [paths_eq_zero (not_reaches_self shallow scope name), Nat.cast_zero, mul_zero]
  · intro other label _
    rw [ncard_chainsBetween shallow,
      Amount.value_sub_of_nonneg (Amount.zero_le_value_max_zero usage)]

end Effect

end Engine

section Sample

/-- The team belongs to its organization and is sponsored by it, too. -/
def sponsoredGraph : Graph :=
  ((Graph.empty.withParentRelations "team" ["organization", "sponsor"]).insert sampleOrganization
    {}).insert sampleTeam
      { relations := (Std.ExtTreeMap.empty.insert "organization" sampleOrganization).insert "sponsor"
          sampleOrganization }

/-- The sponsored graph is used with a single sum of storage. -/
def sponsoredEngine : Engine := ⟨storageRegistry, sponsoredGraph⟩

/-- A second relation to the same parent makes the hierarchy no deeper. -/
theorem shallow_sponsoredGraph : sponsoredGraph.Shallow := by decide +kernel

/-- The organization is a parent of the team twice, so it moves by twice the change. -/
theorem setUsage_follows_chains_sample :
    (sponsoredEngine.chainsBetween sampleTeam "storage" .usage sampleOrganization
        "storage").ncard = 2 ∧
      Action.outcome (sponsoredEngine.setUsage sampleTeam "storage" 4) stockedStore = .ok ⟨⟩ ∧
      lookup (Action.after (sponsoredEngine.setUsage sampleTeam "storage" 4) stockedStore) sampleTeam
        "storage" = some ⟨10, 4⟩ ∧
      Moved (put stockedStore sampleTeam "storage" ⟨10, 4⟩)
        (Action.after (sponsoredEngine.setUsage sampleTeam "storage" 4) stockedStore)
        fun other label => min ((max 4 0 : Amount).value - 1) 9223372036854775807 *
          (sponsoredEngine.chainsBetween sampleTeam "storage" .usage other label).ncard := by
  have follows := Engine.setUsage_follows_chains sponsoredEngine sampleTeam "storage"
    { name := "storage" } ⟨10, 1⟩ 4 stockedStore shallow_sponsoredGraph rfl (by decide)
    (by decide +kernel) (Engine.covered_of_stored (by decide +kernel) sampleTeam) (by decide +kernel)
  refine ⟨?_, follows.1, follows.2.1, follows.2.2.2⟩
  rw [Engine.ncard_chainsBetween shallow_sponsoredGraph]
  decide +kernel

/-- The change of a usage can be cut off although no sum is. A negative usage that is set to the
greatest amount changes by more than is passed on. -/
theorem setUsage_not_follows_chains :
    ¬ ∀ (engine : Engine) (scope : Entity) (name : String) (field : Field) (quota : Quota)
      (usage : Amount) (store : MemoryStore), engine.graph.Shallow →
      engine.registry.field? scope.kind name = some field → field.aggregator? = none →
      field.isConnected scope engine.graph = true → store.lookup scope name = some quota →
      engine.Covered store scope →
      RecordedStore.AllFit StoreCall.ExactShift
        (Action.history (engine.setUsage scope name usage) store) →
      Moved (store.put scope name { quota with usage := max usage 0 })
        (Action.after (engine.setUsage scope name usage) store) fun other label =>
          ((max usage 0).value - quota.usage.value) *
            (engine.chainsBetween scope name .usage other label).ncard := by
  intro claimed
  let engine : Engine := ⟨storageRegistry, sampleGraph⟩
  let greatest := Amount.clamp 9223372036854775807
  let store : MemoryStore :=
    (MemoryStore.empty.put sampleOrganization "storage" ⟨.unlimited, -1⟩).put sampleTeam "storage"
      ⟨.unlimited, -1⟩
  have moved := claimed engine sampleTeam "storage" { name := "storage" } ⟨.unlimited, -1⟩ greatest
    store shallow_sampleGraph rfl rfl (by decide) (by decide +kernel)
    (Engine.covered_of_stored (by decide +kernel) sampleTeam) (by decide +kernel) sampleOrganization
    "storage"
  have one : engine.paths sampleTeam "storage" .usage sampleOrganization "storage" = 1 := by
    decide +kernel
  beta_reduce at moved
  rw [Engine.ncard_chainsBetween shallow_sampleGraph, one] at moved
  revert moved
  decide +kernel

end Sample

end HierarchicalQuota
