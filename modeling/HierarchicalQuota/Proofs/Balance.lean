import HierarchicalQuota.Proofs.Propagation
import HierarchicalQuota.Proofs.Registered
import HierarchicalQuota.Proofs.Sums
import Mathlib.Algebra.BigOperators.Ring.Finset

namespace HierarchicalQuota

open HierarchicalQuota.Action (Ensures)
open LawfulStore (lookup put drop list)

namespace Engine

variable {engine : Engine}

/-- An aggregate sums one measure of one quota over the children that its rule selects. -/
structure Sums (engine : Engine) (aggregate : Aggregate) (rule : AggregatorRule)
    (quota : String) : Prop extends engine.HasAggregate aggregate where
  isRule : aggregate.field.aggregator? = some rule
  isQuota : aggregate.field.childQuota? = some quota

/-- Every aggregate of an engine has a rule and a quota that it sums. -/
theorem HasAggregate.sums {aggregate : Aggregate} (present : engine.HasAggregate aggregate) :
    ∃ rule quota, engine.Sums aggregate rule quota := by
  obtain ⟨rule, isRule⟩ := Option.isSome_iff_exists.1 present.aggregator
  refine ⟨rule, rule.childQuota.getD aggregate.field.name, present, isRule, ?_⟩
  rw [Field.childQuota?, isRule, Option.map_some]

/-- A graph matches the aggregators if the quota parents of every child are exactly the scopes that
sum it, and each is its parent once. -/
def Matching (engine : Engine) : Prop :=
  ∀ (parent : Entity) (field : Field) (rule : AggregatorRule) (quota : String),
    field ∈ engine.registry.fields parent.kind →
    field.aggregator? = some rule → field.childQuota? = some quota →
    ∀ child : Entity, (engine.registry.field? child.kind quota).isSome →
      (engine.graph.quotaParents child).count parent =
        if child ∈ rule.children parent engine.graph then 1 else 0

/-- In a matching graph the parents of a child that sum it are the scopes whose rules select it. -/
theorem Matching.mem_quotaParents (matching : engine.Matching) {parent : Entity} {field : Field}
    {rule : AggregatorRule} {quota : String} (registered : field ∈ engine.registry.fields parent.kind)
    (isRule : field.aggregator? = some rule) (isQuota : field.childQuota? = some quota)
    {child : Entity} (known : (engine.registry.field? child.kind quota).isSome) :
    parent ∈ engine.graph.quotaParents child ↔ child ∈ rule.children parent engine.graph := by
  rw [← List.count_pos_iff, matching parent field rule quota registered isRule isQuota child known]
  by_cases selected : child ∈ rule.children parent engine.graph <;> simp [selected]

/-- A node is a child of at most one scope of a rule, the one at the end of its path. -/
theorem count_resolved {rule : AggregatorRule} {child : Entity}
    (isNode : child ∈ engine.graph.nodes.keys) (parent : Entity) :
    (if child.kind = rule.childKind then engine.graph.resolve child rule.path
      else none).toList.count parent =
        if child ∈ rule.children parent engine.graph then 1 else 0 := by
  have selected : child ∈ rule.children parent engine.graph ↔
      child.kind = rule.childKind ∧ engine.graph.resolve child rule.path = some parent := by
    rw [AggregatorRule.children, Graph.referencing, Graph.instances, List.mem_filter,
      List.mem_filter]
    simp [isNode]
  by_cases childKind : child.kind = rule.childKind
  · cases resolved : engine.graph.resolve child rule.path with
    | none => simp [selected, childKind, resolved]
    | some scope => simp [selected, childKind, resolved, List.count_singleton]
  · simp [selected, childKind]

/-- Whether a graph matches the aggregators can be read off its nodes: for each of them, the quota
parents of a summing kind are the scope of that kind at the end of the path. -/
theorem matching_iff :
    engine.Matching ↔ ∀ registration ∈ engine.registry.registrations,
      ∀ rule ∈ registration.field.aggregator?, ∀ quota ∈ registration.field.childQuota?,
      ∀ child ∈ engine.graph.nodes.keys, (engine.registry.field? child.kind quota).isSome →
      ((engine.graph.quotaParents child).filter fun scope => scope.kind = registration.kind).Perm
        ((if child.kind = rule.childKind then engine.graph.resolve child rule.path
          else none).toList.filter fun scope => scope.kind = registration.kind) := by
  constructor
  · intro matching registration listed rule isRule quota isQuota child isNode known
    apply List.perm_iff_count.2
    intro parent
    by_cases kind : parent.kind = registration.kind
    · have registered : registration.field ∈ engine.registry.fields parent.kind :=
        List.mem_map.2 ⟨registration, List.mem_filter.2 ⟨listed, by simp [kind]⟩, rfl⟩
      rw [List.count_filter (by simp [kind]), List.count_filter (by simp [kind]),
        count_resolved isNode]
      exact matching parent registration.field rule quota registered isRule isQuota child known
    · have excluded (scopes : List Entity) :
          (scopes.filter fun scope => scope.kind = registration.kind).count parent = 0 := by
        apply List.count_eq_zero_of_not_mem
        intro member
        exact kind (of_decide_eq_true (List.mem_filter.1 member).2)
      rw [excluded, excluded]
  · intro agree parent field rule quota registered isRule isQuota child known
    obtain ⟨registration, member, rfl⟩ := List.mem_map.1 registered
    obtain ⟨listed, kind⟩ := List.mem_filter.1 member
    have sameKind : registration.kind = parent.kind := of_decide_eq_true kind
    by_cases isNode : child ∈ engine.graph.nodes.keys
    · have same := agree registration listed rule isRule quota isQuota child isNode known
      have count := List.perm_iff_count.1 same parent
      rw [List.count_filter (by simp [sameKind]), List.count_filter (by simp [sameKind])] at count
      rw [count, count_resolved isNode]
    · have orphan : parent ∉ engine.graph.quotaParents child :=
        fun hop => isNode (Graph.mem_keys_of_mem_quotaParents hop)
      rw [List.count_eq_zero_of_not_mem orphan, if_neg]
      intro selected
      exact isNode (List.mem_filter.1 (List.mem_filter.1 selected).1).1

/-- This needs only the registrations and the nodes of the graph. -/
instance : Decidable engine.Matching := decidable_of_iff _ matching_iff.symm

theorem matching_sampleEngine : sampleEngine.Matching := by decide +kernel

/-- This number counts how often an aggregate stands right over a child's measure. -/
def directChains (engine : Engine) (child : Entity) (quota : String) (measure : Measure)
    (scope : Entity) (name : String) : Nat :=
  ((engine.aggregatesOver child quota measure).map (·.count scope name)).sum

/-- A parent is the scope of an aggregate over a measure exactly once, if it is the measure that
this aggregate sums. -/
theorem sum_count_aggregatorsOver {aggregate : Aggregate} {rule : AggregatorRule} {sum : String}
    (sums : engine.Sums aggregate rule sum) (parent : Entity) (quota : String)
    (measure : Measure) :
    ((((engine.registry.aggregatorsOver parent.kind quota measure).filter fun field =>
        field.isConnected parent engine.graph).map fun field => Aggregate.mk parent field).map
          (·.count aggregate.scope aggregate.field.name)).sum =
      if parent = aggregate.scope then if sum = quota ∧ rule.measure = measure then 1 else 0
      else 0 := by
  rw [List.map_map, Registry.aggregatorsOver, List.filter_filter, sum_map_filter]
  by_cases same : parent = aggregate.scope
  · subst same
    have value := sum_map_key (engine.registry.nodup_names aggregate.scope.kind) sums.registered
      fun field => if field.isConnected aggregate.scope engine.graph ∧
        field.childQuota? = some quota ∧ field.aggregator?.map (·.measure) = some measure
        then 1 else 0
    simp only [sums.connected, sums.isRule, sums.isQuota, Option.map_some, Option.some.injEq,
      true_and] at value
    rw [if_pos rfl, ← value]
    congr 1
    apply List.map_congr_left
    intro field _
    simp only [Function.comp_apply, Aggregate.count, true_and, Bool.and_eq_true, decide_eq_true_eq,
      Bool.decide_and]
    split <;> split <;> simp_all
  · rw [if_neg same]
    apply sum_map_eq_zero
    intro field _
    simp [Aggregate.count, same]

/-- In a matching graph an aggregate stands once over the measures of children that it sums. -/
theorem directChains_eq (matching : engine.Matching) {aggregate : Aggregate}
    {rule : AggregatorRule} {sum : String} (sums : engine.Sums aggregate rule sum)
    {child : Entity} {quota : String} (registered : (engine.registry.field? child.kind quota).isSome)
    (measure : Measure) :
    engine.directChains child quota measure aggregate.scope aggregate.field.name =
      if (sum = quota ∧ rule.measure = measure) ∧
        child ∈ rule.children aggregate.scope engine.graph then 1 else 0 := by
  rw [directChains, aggregatesOver, sum_map_flatMap,
    List.map_congr_left fun parent _ => sum_count_aggregatorsOver sums parent quota measure,
    sum_map_occurrences]
  by_cases summed : sum = quota ∧ rule.measure = measure
  · obtain ⟨rfl, rfl⟩ := summed
    rw [matching _ _ rule sum sums.registered sums.isRule sums.isQuota child registered]
    simp
  · simp [summed]

/-- A stored aggregate stands over another as often as that one is among its summed children. -/
theorem directChains_aggregate (matching : engine.Matching) {aggregate : Aggregate}
    {rule : AggregatorRule} {sum : String} (sums : engine.Sums aggregate rule sum)
    {below : Aggregate} (present : engine.HasAggregate below) {stored : Entity → String → Bool}
    (kept : stored below.scope below.field.name = true) :
    engine.directChains below.scope below.field.name .usage aggregate.scope aggregate.field.name =
      if rule.measure = .usage then
        ((rule.children aggregate.scope engine.graph).map fun child =>
          if stored child sum then below.count child sum else 0).sum
      else 0 := by
  rw [directChains_eq matching sums (Registry.isSome_field? present.registered)]
  by_cases measure : rule.measure = .usage
  · have each : ∀ child ∈ rule.children aggregate.scope engine.graph,
        (if stored child sum then below.count child sum else 0) =
          if child = below.scope then if sum = below.field.name then 1 else 0 else 0 := by
      intro child _
      rw [Aggregate.count]
      by_cases same : child = below.scope
      · by_cases sameName : sum = below.field.name
        · simp [same, sameName, kept]
        · simp [sameName, Ne.symm sameName]
      · simp [same, Ne.symm same]
    rw [if_pos measure, List.map_congr_left each, sum_map_occurrences,
      (rule.nodup_children _ _).count]
    by_cases member : below.scope ∈ rule.children aggregate.scope engine.graph
    · simp [measure, member]
    · simp [member]
  · simp [measure]

/-- Every chain to a stored aggregate is either direct or comes through one summed child. -/
theorem chains_eq (matching : engine.Matching) {aggregate : Aggregate} {rule : AggregatorRule}
    {sum : String} (sums : engine.Sums aggregate rule sum) {stored : Entity → String → Bool}
    (kept : stored aggregate.scope aggregate.field.name = true) (levels : Nat) (child : Entity)
    (quota : String) (measure : Measure) (low : ¬ engine.graph.Climbs levels child) :
    engine.chains stored levels child quota measure aggregate.scope aggregate.field.name =
      engine.directChains child quota measure aggregate.scope aggregate.field.name +
        if rule.measure = .usage then
          ((rule.children aggregate.scope engine.graph).map fun other =>
            if stored other sum then engine.chains stored levels child quota measure other sum
            else 0).sum
        else 0 := by
  induction levels generalizing child quota measure with
  | zero => exact absurd trivial low
  | succ levels inductionHypothesis =>
      have direct : (((engine.aggregatesOver child quota measure).filter fun below =>
          stored below.scope below.field.name).map
            (·.count aggregate.scope aggregate.field.name)).sum =
          engine.directChains child quota measure aggregate.scope aggregate.field.name := by
        rw [sum_map_filter, directChains]
        congr 1
        apply List.map_congr_left
        intro below _
        rw [Aggregate.count]
        by_cases same : below.scope = aggregate.scope ∧ below.field.name = aggregate.field.name
        · rw [same.1, same.2, kept]
          simp
        · simp [same]
      -- Each stored aggregate right above the child is one of the children of another in the end.
      have through : ∀ below ∈ (engine.aggregatesOver child quota measure).filter (fun below =>
          stored below.scope below.field.name),
          engine.chains stored levels below.scope below.field.name .usage aggregate.scope
              aggregate.field.name =
            if rule.measure = .usage then
              ((rule.children aggregate.scope engine.graph).map fun other =>
                if stored other sum then below.count other sum +
                  engine.chains stored levels below.scope below.field.name .usage other sum
                else 0).sum
            else 0 := by
        intro below member
        obtain ⟨listed, belowKept⟩ := List.mem_filter.1 member
        have parent := (mem_aggregatesOver.1 listed).1
        rw [inductionHypothesis below.scope below.field.name .usage
          fun climbs => low ⟨below.scope, parent, climbs⟩,
          directChains_aggregate matching sums (aggregateAbove_of_mem listed).toHasAggregate belowKept]
        split
        · rw [← List.sum_map_add]
          congr 1
          apply List.map_congr_left
          intro other _
          split <;> rfl
        · rfl
      rw [chains, List.sum_map_add, direct, List.map_congr_left through]
      congr 1
      split
      · rw [sum_map_comm]
        congr 1
        apply List.map_congr_left
        intro other _
        by_cases otherKept : stored other sum = true
        · simp only [otherKept, if_true]
          rfl
        · simp [otherKept]
      · simp

section Owing

variable {σ : Type} [QuotaStore σ] [LawfulStore σ]

/-- Every stored aggregate would equal the sum over its children if it were paid what it is owed. -/
def Owing (engine : Engine) (store : σ) (debt : Entity → String → Int) : Prop :=
  ∀ aggregate : Aggregate, engine.HasAggregate aggregate →
    ∀ quota, lookup store aggregate.scope aggregate.field.name = some quota →
      quota.usage.value + debt aggregate.scope aggregate.field.name =
        engine.childTotal store aggregate.scope aggregate.field

/-- A store is balanced if every stored aggregate equals the sum over its children. -/
def Balanced (engine : Engine) (store : σ) : Prop := engine.Owing store fun _ _ => 0

/-- Every stored record belongs to a registered field. -/
def Registered (engine : Engine) (store : σ) : Prop :=
  ∀ scope name, stored store scope name = true →
    (engine.registry.field? scope.kind name).isSome

/-- Only the amounts of a debt matter. -/
theorem Owing.congr {store : σ} {first second : Entity → String → Int}
    (owing : engine.Owing store first) (same : ∀ scope name, first scope name = second scope name) :
    engine.Owing store second := by
  intro aggregate present quota found
  rw [← same]
  exact owing aggregate present quota found

/-- The total of an aggregate is the sum of the readings that its rule selects. -/
theorem Sums.childTotal {aggregate : Aggregate} {rule : AggregatorRule} {sum : String}
    (sums : engine.Sums aggregate rule sum) (store : σ) :
    engine.childTotal store aggregate.scope aggregate.field =
      ((rule.children aggregate.scope engine.graph).map fun child =>
        reading store child sum rule.measure).sum := by
  rw [Engine.childTotal, sums.isRule, sums.isQuota]

/-- A change moves the usages of stored records, and no limits. -/
theorem reading_moved {before after : σ} {amount : Entity → String → Int}
    (moved : Moved before after amount) (scope : Entity) (name : String) (measure : Measure) :
    reading after scope name measure = reading before scope name measure +
      if measure = .usage then if stored before scope name then amount scope name else 0 else 0 := by
  rw [stored]
  cases found : lookup before scope name with
  | none =>
      rw [reading_of_none (moved.lookup_none found), reading_of_none found]
      simp
  | some quota =>
      obtain ⟨later, laterFound, limit, usage⟩ := moved.lookup_some found
      rw [reading_of_some laterFound, reading_of_some found]
      cases measure with
      | usage => simpa [Quota.value] using usage
      | limit => simp [Quota.value, limit]

/-- A change that has spread along all chains has paid the aggregates right above it. -/
theorem Owing.of_moved (matching : engine.Matching) {before after : σ}
    {debt : Entity → String → Int} {delta : Int} {levels : Nat} {child : Entity} {quota : String}
    {measure : Measure} (low : ¬ engine.graph.Climbs levels child)
    (owing : engine.Owing before fun scope name =>
      debt scope name + delta * engine.directChains child quota measure scope name)
    (moved : Moved before after fun scope name =>
      delta * engine.chains (stored before) levels child quota measure scope name) :
    engine.Owing after debt := by
  intro aggregate present later laterFound
  obtain ⟨rule, sum, sums⟩ := present.sums
  cases found : lookup before aggregate.scope aggregate.field.name with
  | none =>
      rw [moved.lookup_none found] at laterFound
      cases laterFound
  | some record =>
      obtain ⟨same, sameFound, -, usage⟩ := moved.lookup_some found
      obtain rfl : later = same := Option.some.inj (laterFound.symm.trans sameFound)
      have kept : stored before aggregate.scope aggregate.field.name = true := by
        rw [stored, found]
        rfl
      have owed := owing aggregate present record found
      -- The total of an aggregate moves with those of its children that have moved.
      have total : engine.childTotal after aggregate.scope aggregate.field =
          engine.childTotal before aggregate.scope aggregate.field +
            delta * (if rule.measure = .usage then
              ((rule.children aggregate.scope engine.graph).map fun other =>
                if stored before other sum then
                  engine.chains (stored before) levels child quota measure other sum
                else 0).sum else 0 : Nat) := by
        rw [sums.childTotal, sums.childTotal,
          List.map_congr_left fun other _ => reading_moved moved other sum rule.measure,
          List.sum_map_add]
        congr 1
        split
        · rw [Nat.cast_list_sum, ← List.sum_map_mul_left, List.map_map]
          congr 1
          apply List.map_congr_left
          intro other _
          simp only [Function.comp_apply]
          split <;> simp
        · simp
      rw [total, ← owed, usage, chains_eq matching sums kept levels child quota measure low]
      push_cast
      ring

/-- A change at one child counts in the totals of the scopes that select it. -/
theorem Sums.childTotal_change {aggregate : Aggregate} {rule : AggregatorRule} {sum : String}
    (sums : engine.Sums aggregate rule sum) {before after : σ} {scope : Entity} {change : Int}
    (each : ∀ child, reading after child sum rule.measure =
      reading before child sum rule.measure + if child = scope then change else 0) :
    engine.childTotal after aggregate.scope aggregate.field =
      engine.childTotal before aggregate.scope aggregate.field +
        if scope ∈ rule.children aggregate.scope engine.graph then change else 0 := by
  rw [sums.childTotal, sums.childTotal, List.map_congr_left fun child _ => each child,
    List.sum_map_add, sum_map_occurrences, (rule.nodup_children _ _).count]
  split <;> simp

/-- Writing a record changes the readings of that record alone. -/
theorem reading_put (store : σ) (scope other : Entity) (name label : String) (quota : Quota)
    (measure : Measure) :
    reading (put store scope name quota) other label measure = reading store other label measure +
      if other = scope then
        if label = name then (quota.value measure).value - reading store scope name measure else 0
      else 0 := by
  by_cases same : other = scope
  · by_cases sameName : label = name
    · subst same sameName
      rw [reading, LawfulStore.lookup_put]
      simp
    · simp [reading, LawfulStore.lookup_put, sameName, Ne.symm sameName]
  · simp [reading, LawfulStore.lookup_put, same, Ne.symm same]

/-- Writing a record makes its change owed to the aggregates right above it. -/
theorem Owing.put (matching : engine.Matching) {store : σ} {debt : Entity → String → Int}
    (owing : engine.Owing store debt) {scope : Entity} {name : String} {quota : Quota}
    (registered : (engine.registry.field? scope.kind name).isSome)
    (own : ∀ field, engine.HasAggregate ⟨scope, field⟩ → field.name = name →
      quota.usage.value + debt scope name = engine.childTotal store scope field) :
    engine.Owing (LawfulStore.put store scope name quota) fun other label => debt other label +
      (quota.usage.value - reading store scope name .usage) *
        engine.directChains scope name .usage other label +
      (quota.limit.value - reading store scope name .limit) *
        engine.directChains scope name .limit other label := by
  intro aggregate present later laterFound
  obtain ⟨rule, sum, sums⟩ := present.sums
  have total := sums.childTotal_change
    (fun child => reading_put store scope child name sum quota rule.measure)
  have owed : later.usage.value + debt aggregate.scope aggregate.field.name =
      engine.childTotal store aggregate.scope aggregate.field := by
    rw [LawfulStore.lookup_put] at laterFound
    split at laterFound
    · rename_i same
      obtain rfl := Option.some.inj laterFound
      obtain ⟨place, field⟩ := aggregate
      obtain ⟨rfl, rfl⟩ := same
      exact own field present rfl
    · exact owing aggregate present later laterFound
  beta_reduce
  rw [total, ← owed, directChains_eq matching sums registered,
    directChains_eq matching sums registered]
  by_cases member : scope ∈ rule.children aggregate.scope engine.graph
  · by_cases sameName : sum = name
    · cases measure : rule.measure <;> simp [member, sameName, Quota.value, add_assoc]
    · simp [sameName]
  · simp [member]

/-- The records of a scope that are listed under a name hold what is read there. -/
theorem sum_list_reading (store : σ) (scope : Entity) (name : String) (measure : Measure) :
    ((list store scope).map fun record =>
      if record.name = name then (record.quota.value measure).value else 0).sum =
        reading store scope name measure := by
  cases found : lookup store scope name with
  | none =>
      rw [reading_of_none found]
      apply sum_map_eq_zero
      intro record member
      have recordFound := (LawfulStore.mem_list.1 member).2
      apply if_neg
      rintro rfl
      rw [found] at recordFound
      cases recordFound
  | some quota =>
      have member : ⟨scope, name, quota⟩ ∈ list store scope :=
        LawfulStore.mem_list.2 ⟨rfl, found⟩
      rw [reading_of_some found]
      exact sum_map_key (LawfulStore.nodup_list store scope) member
        fun record => (record.quota.value measure).value

/-- Dropping a scope takes its readings away. -/
theorem reading_drop (store : σ) (scope other : Entity) (name : String) (measure : Measure) :
    reading (drop store scope) other name measure = reading store other name measure +
      if other = scope then -reading store scope name measure else 0 := by
  by_cases same : other = scope
  · subst same
    rw [reading, LawfulStore.lookup_drop]
    simp
  · simp [reading, LawfulStore.lookup_drop, same, Ne.symm same]

/-- This number is what an aggregate right above a record owes once the record is removed. -/
def withdrawal (engine : Engine) (record : Record) (scope : Entity) (name : String) : Int :=
  -record.quota.usage.value * engine.directChains record.scope record.name .usage scope name +
    -record.quota.limit.value * engine.directChains record.scope record.name .limit scope name

/-- Removing the records of a scope makes their numbers owed to the aggregates right above it. -/
theorem Owing.drop (matching : engine.Matching) {store : σ} {debt : Entity → String → Int}
    (owing : engine.Owing store debt) (registered : engine.Registered store) (scope : Entity) :
    engine.Owing (LawfulStore.drop store scope) fun other label => debt other label +
      ((list store scope).map fun record => engine.withdrawal record other label).sum := by
  intro aggregate present later laterFound
  obtain ⟨rule, sum, sums⟩ := present.sums
  have total := sums.childTotal_change
    (fun child => reading_drop store scope child sum rule.measure)
  have found : lookup store aggregate.scope aggregate.field.name = some later := by
    rw [LawfulStore.lookup_drop] at laterFound
    split at laterFound
    · cases laterFound
    · exact laterFound
  have withdrawn : ∀ record ∈ list store scope,
      engine.withdrawal record aggregate.scope aggregate.field.name =
        (if record.name = sum then (record.quota.value rule.measure).value else 0) *
          if scope ∈ rule.children aggregate.scope engine.graph then -1 else 0 := by
    intro record member
    obtain ⟨rfl, recordFound⟩ := LawfulStore.mem_list.1 member
    have known := registered record.scope record.name (by rw [stored, recordFound]; rfl)
    rw [withdrawal, directChains_eq matching sums known, directChains_eq matching sums known]
    by_cases sameName : sum = record.name
    · cases measure : rule.measure <;> simp [sameName, Quota.value]
    · simp [sameName, Ne.symm sameName]
  beta_reduce
  rw [total, ← owing aggregate present later found, List.map_congr_left withdrawn,
    List.sum_map_mul_right, sum_list_reading, add_assoc]
  congr 1
  split <;> simp

end Owing

end Engine

end HierarchicalQuota
