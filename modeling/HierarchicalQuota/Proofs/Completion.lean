import HierarchicalQuota.Proofs.Updates
import Mathlib.Algebra.Order.BigOperators.Group.List

namespace HierarchicalQuota

open HierarchicalQuota.Action (Ensures Yields)
open LawfulStore (lookup put)

variable {σ : Type} [QuotaStore σ] [LawfulStore σ]

namespace Engine

variable {engine : Engine} {fit : StoreCall → σ → Prop}

/-- An engine is additive if its aggregators sum usages, and no other usage starts below zero. -/
structure Additive (engine : Engine) : Prop where
  sumsUsage (kind : String) : ∀ field ∈ engine.registry.fields kind,
    ∀ rule ∈ field.aggregator?, rule.measure = .usage
  startsNonneg (scope : Entity) : ∀ field ∈ engine.registry.fields scope.kind,
    field.aggregator? = none → 0 ≤ (field.initial scope engine.graph).usage.value

/-- Where only usages are summed, no aggregate stands over a limit. -/
theorem Additive.aggregatesOver_limit (additive : engine.Additive) (child : Entity)
    (quota : String) : engine.aggregatesOver child quota .limit = [] := by
  apply List.eq_nil_iff_forall_not_mem.2
  intro aggregate member
  obtain ⟨-, registered, -, measures, -⟩ := mem_aggregatesOver.1 member
  obtain ⟨rule, isRule, isLimit⟩ := Option.map_eq_some_iff.1 measures
  rw [additive.sumsUsage _ aggregate.field registered rule isRule] at isLimit
  cases isLimit

section Missing

/-- A walk finds what is missing over a child's measure, and beyond this only what is missing over
records that are stored. -/
structure Finds (engine : Engine) (child : Entity) (quota : String) (measure : Measure) (store : σ)
    (missing : List Aggregate) : Prop where
  all : ∀ aggregate ∈ engine.aggregatesOver child quota measure,
    stored store aggregate.scope aggregate.field.name = true ∨ aggregate ∈ missing
  beyond : ∀ aggregate ∈ missing, aggregate ∈ engine.aggregatesOver child quota measure ∨
    ∃ below label, stored store below label = true ∧
      aggregate ∈ engine.aggregatesOver below label .usage

/-- The aggregates that move are stored, so everything beyond them is found over stored records. -/
theorem ensures_propagate_finds (exact : ShiftsExactly fit) (levels : Nat) (child : Entity)
    (quota : String) (measure : Measure) {delta : Amount} (nonzero : delta ≠ 0) (store : σ) :
    Ensures fit (engine.propagate levels child quota measure delta) store fun result after =>
      stored after = stored store ∧
        Yields (engine.Finds child quota measure store) True result := by
  induction levels generalizing child quota measure store with
  | zero =>
      unfold propagate
      rw [if_neg nonzero]
      exact Action.ensures_throw ⟨rfl, trivial⟩
  | succ levels inductionHypothesis =>
      unfold propagate
      rw [if_neg nonzero]
      refine Action.ensures_bind (fun _ => inferInstance) ((ensures_shiftAll _ _ _ (.inl exact)).mono ?_)
      rintro _ middle ⟨wave, rfl, shifted, missing, moved⟩
      -- What is found further up stands over an aggregate that has moved, and these are stored.
      have beyond : Ensures fit (Action.collect (fun entry =>
            engine.propagate levels entry.1.scope entry.1.field.name .usage entry.2)
          wave.moved.reverse) middle fun result after => stored after = stored store ∧
            Yields (fun others => ∀ aggregate ∈ others, ∃ below label,
              stored store below label = true ∧
                aggregate ∈ engine.aggregatesOver below label .usage) True result := by
        refine Action.ensures_collect_yields (fun item member later same => ?_) moved.stored_eq
        rw [shifted] at member
        obtain ⟨start, listed, rfl⟩ := List.mem_map.1 (List.mem_reverse.1 member)
        refine (inductionHypothesis start.scope start.field.name .usage later).mono ?_
        rintro (error | others) after ⟨sameStored, finds⟩
        · exact ⟨sameStored.trans same, trivial⟩
        · refine ⟨sameStored.trans same, fun aggregate found => ?_⟩
          rcases finds.beyond aggregate found with direct | ⟨below, label, present, higher⟩
          · exact ⟨start.scope, start.field.name, (List.mem_filter.1 listed).2, direct⟩
          · exact ⟨below, label, same ▸ present, higher⟩
      refine Action.ensures_bind (fun _ => inferInstance) (beyond.mono ?_)
      rintro (error | others) after ⟨sameStored, higher⟩
      · exact ⟨sameStored, trivial⟩
      refine Action.ensures_pure ⟨sameStored, fun aggregate listed => ?_, fun aggregate found => ?_⟩
      · by_cases present : stored store aggregate.scope aggregate.field.name = true
        · exact .inl present
        · refine .inr (List.mem_append_left _ ?_)
          rw [missing]
          exact List.mem_filter.2 ⟨listed, by simpa using present⟩
      · rcases List.mem_append.1 found with direct | other
        · rw [missing] at direct
          exact .inl (List.mem_filter.1 direct).1
        · exact .inr (higher aggregate other)

end Missing

section Growth

/-- A record that is to be created has something to start from: a stored record that it sums, or a
default usage above zero. -/
def Founded (engine : Engine) (store : σ) (target : Aggregate) : Prop :=
  (∃ child quota, stored store child quota = true ∧
    target ∈ engine.aggregatesOver child quota .usage) ∨
  (target.field.aggregator? = none ∧
    0 < (target.field.initial target.scope engine.graph).usage.value)

/-- An aggregate stays founded when more records are stored. -/
theorem Founded.mono {before after : σ} {target : Aggregate}
    (founded : engine.Founded before target)
    (kept : ∀ scope name, stored before scope name = true → stored after scope name = true) :
    engine.Founded after target :=
  founded.imp_left fun ⟨child, quota, present, atop⟩ => ⟨child, quota, kept _ _ present, atop⟩

/-- A store has grown, apart from some records, if usages are above zero and every aggregate over a
stored record is stored or still to be created. -/
structure GrownBeside (engine : Engine) (apart : Entity → String → Prop) (pending : List Aggregate)
    (store : σ) : Prop where
  registered : engine.Registered store
  positive (scope : Entity) (name : String) : ¬ apart scope name →
    ∀ quota, lookup store scope name = some quota → 0 < quota.usage.value
  closed (child : Entity) (quota : String) : ¬ apart child quota → stored store child quota = true →
    ∀ aggregate ∈ engine.aggregatesOver child quota .usage,
      stored store aggregate.scope aggregate.field.name = true ∨ aggregate ∈ pending
  founded : ∀ target ∈ pending, engine.Founded store target

/-- A store has grown if it has grown apart from nothing. -/
def Grown (engine : Engine) (pending : List Aggregate) (store : σ) : Prop :=
  engine.GrownBeside (fun _ _ => False) pending store

/-- A store that has grown everywhere has grown beside any records. -/
theorem Grown.beside {pending : List Aggregate} {store : σ} (grown : engine.Grown pending store)
    (apart : Entity → String → Prop) : engine.GrownBeside apart pending store where
  registered := grown.registered
  positive scope name _ := grown.positive scope name id
  closed child quota _ := grown.closed child quota id
  founded := grown.founded

/-- Writing a record sets it apart. -/
theorem GrownBeside.put {pending : List Aggregate} {store : σ} {scope : Entity} {name : String}
    (grown : engine.GrownBeside (fun other label => other = scope ∧ label = name) pending store)
    (registered : (engine.registry.field? scope.kind name).isSome) (quota : Quota) :
    engine.GrownBeside (fun other label => other = scope ∧ label = name) pending
      (put store scope name quota) := by
  have elsewhere {other : Entity} {label : String} (different : ¬ (other = scope ∧ label = name)) :
      lookup (LawfulStore.put store scope name quota) other label = lookup store other label := by
    rw [LawfulStore.lookup_put, if_neg fun same => different ⟨same.1.symm, same.2.symm⟩]
  have frame : Frame (fun other label => other = scope ∧ label = name) store
      (LawfulStore.put store scope name quota) := Frame.put store quota ⟨rfl, rfl⟩
  refine ⟨grown.registered.of_frame frame ?_, fun other label different record found => ?_,
    fun child sum different present aggregate atop => ?_,
    fun target member => (grown.founded target member).mono frame.kept⟩
  · rintro other label ⟨rfl, rfl⟩
    exact registered
  · rw [elsewhere different] at found
    exact grown.positive other label different record found
  · rw [stored, elsewhere different] at present
    exact (grown.closed child sum different present aggregate atop).imp_left (frame.kept _ _)

/-- A summed child of an aggregate is selected by the rule of the aggregate. -/
theorem mem_children_of_aggregatesOver (matching : engine.Matching) {child : Entity} {quota : String}
    {aggregate : Aggregate} (atop : aggregate ∈ engine.aggregatesOver child quota .usage)
    (registered : (engine.registry.field? child.kind quota).isSome) :
    ∃ rule, engine.Sums aggregate rule quota ∧ rule.measure = .usage ∧
      child ∈ rule.children aggregate.scope engine.graph := by
  obtain ⟨hop, isField, sums, measures, connected⟩ := mem_aggregatesOver.1 atop
  obtain ⟨rule, isRule, isUsage⟩ := Option.map_eq_some_iff.1 measures
  exact ⟨rule, ⟨(aggregateAbove_of_mem atop).toHasAggregate, isRule, sums⟩, isUsage,
    (matching.mem_quotaParents isField isRule sums registered).1 hop⟩

/-- A founded record starts above zero. -/
theorem Grown.starting_pos (matching : engine.Matching) {pending : List Aggregate} {store : σ}
    (grown : engine.Grown pending store) {target : Aggregate}
    (registered : target.field ∈ engine.registry.fields target.scope.kind)
    (founded : engine.Founded store target)
    (exact : engine.ChildrenSumExactly store target.scope target.field.name) :
    0 < (engine.starting store target.scope target.field).usage.value := by
  rcases founded with ⟨child, quota, present, atop⟩ | ⟨plain, positive⟩
  · obtain ⟨record, found⟩ := lookup_of_stored present
    obtain ⟨rule, sums, isUsage, selected⟩ :=
      mem_children_of_aggregatesOver matching atop (grown.registered child quota present)
    have known := Registry.field?_eq_some_iff.2 ⟨registered, rfl⟩
    have nonneg : ∀ other ∈ rule.children target.scope engine.graph,
        0 ≤ reading store other quota rule.measure := by
      intro other _
      rw [isUsage]
      cases otherFound : lookup store other quota with
      | none => rw [reading_of_none otherFound]
      | some record =>
          rw [reading_of_some otherFound]
          exact (grown.positive other quota id record otherFound).le
    have part : reading store child quota rule.measure ≤
        ((rule.children target.scope engine.graph).map fun other =>
          reading store other quota rule.measure).sum := by
      apply List.single_le_sum
      · intro amount member
        obtain ⟨other, listed, rfl⟩ := List.mem_map.1 member
        exact nonneg other listed
      · exact List.mem_map_of_mem selected
    rw [starting, if_pos sums.aggregator]
    dsimp only
    rw [value_childSum known exact, sums.childTotal]
    apply lt_of_lt_of_le ?_ part
    rw [isUsage, reading_of_some found]
    exact grown.positive child quota id record found
  · rw [starting_of_plain _ _ plain]
    exact positive

variable (additive : engine.Additive) (shallow : engine.graph.Shallow)

include shallow

/-- An increase that spreads from a record set apart finds everything that is missing over it. -/
theorem ensures_spread_grown (exact : ShiftsExactly fit) {scope : Entity} {name : String}
    {delta : Amount} {pending : List Aggregate} {store : σ} {quota : Quota}
    (grown : engine.GrownBeside (fun other label => other = scope ∧ label = name) pending store)
    (found : lookup store scope name = some quota) (positive : 0 < quota.usage.value)
    (rises : 0 < delta.value) :
    Ensures fit (engine.spread scope name .usage delta) store fun result after =>
      ∃ missing, result = .ok missing ∧ engine.Grown (missing ++ pending) after ∧
        Frame (engine.Reaches scope) store after ∧
        ∀ aggregate ∈ missing, engine.AggregateAbove scope aggregate := by
  have nonzero : delta ≠ 0 := by
    rintro rfl
    exact absurd rises (by decide)
  refine ((ensures_propagate engine maxHierarchyDepth scope name .usage delta store
    (shallow scope) (.inl exact)).and (ensures_propagate_finds exact maxHierarchyDepth scope name .usage nonzero
      store)).mono ?_
  rintro _ after ⟨⟨missing, rfl, moved, above⟩, -, finds⟩
  have frame : Frame (engine.Reaches scope) store after := by
    apply Frame.of_moved moved
    intro other label unreached
    rw [chains_eq_zero unreached, Nat.cast_zero, mul_zero]
  refine ⟨missing, rfl, ⟨?_, fun other label _ later laterFound => ?_,
    fun child sum _ present aggregate atop => ?_, fun target member => ?_⟩, frame,
    fun aggregate member => (above aggregate member).1⟩
  · exact grown.registered.of_frame frame fun _ _ reaches => reaches.isSome_field?
  -- Shifts only raise usages here, so all of them stay above zero.
  · cases earlier : lookup store other label with
    | none =>
        rw [moved.lookup_none earlier] at laterFound
        cases laterFound
    | some record =>
        obtain ⟨same, sameFound, -, usage⟩ := moved.lookup_some earlier
        obtain rfl := Option.some.inj (laterFound.symm.trans sameFound)
        have start : 0 < record.usage.value := by
          by_cases own : other = scope ∧ label = name
          · obtain ⟨rfl, rfl⟩ := own
            obtain rfl := Option.some.inj (found.symm.trans earlier)
            exact positive
          · exact grown.positive other label own record earlier
        have raise : 0 ≤ delta.value * engine.chains (stored store) maxHierarchyDepth scope name
            .usage other label := mul_nonneg rises.le (Nat.cast_nonneg _)
        rw [usage]
        omega
  · rw [moved.stored_eq] at present ⊢
    by_cases own : child = scope ∧ sum = name
    · obtain ⟨rfl, rfl⟩ := own
      exact (finds.all aggregate atop).imp_right (List.mem_append_left _)
    · exact (grown.closed child sum own present aggregate atop).imp_right (List.mem_append_right _)
  · rcases List.mem_append.1 member with new | old
    · rcases finds.beyond target new with direct | ⟨below, label, present, atop⟩
      · exact .inl ⟨scope, name, by rw [moved.stored_eq]; exact stored_of_lookup found, direct⟩
      · exact .inl ⟨below, label, by rwa [moved.stored_eq], atop⟩
    · exact (grown.founded target old).mono frame.kept

include additive

/-- What has still to be created can be announced: nothing sums a limit, and every founded record
starts above zero. -/
theorem announces_grown (exact : engine.FormsExactly fit) (matching : engine.Matching) :
    engine.Announces fit fun pending (store : σ) => engine.Grown pending store where
  present {target pending store} grown present := by
    refine ⟨grown.registered, grown.positive, fun child quota apart kept aggregate atop => ?_,
      fun other member => grown.founded other (List.mem_cons_of_mem _ member)⟩
    rcases grown.closed child quota apart kept aggregate atop with isStored | member
    · exact .inl isStored
    · rcases List.mem_cons.1 member with rfl | later
      · exact .inl present
      · exact .inr later
  exchange {target pending store} registered grown absent fits := by
    let created := put store target.scope target.field.name
      (engine.starting store target.scope target.field)
    have found : lookup created target.scope target.field.name =
        some (engine.starting store target.scope target.field) := by
      rw [LawfulStore.lookup_put, if_pos ⟨rfl, rfl⟩]
    have positive := grown.starting_pos matching registered
      (grown.founded target List.mem_cons_self) (exact.sums fits)
    have beside : engine.GrownBeside
        (fun other label => other = target.scope ∧ label = target.field.name) pending created := by
      have all := (grown.beside fun other label =>
        other = target.scope ∧ label = target.field.name).put (Registry.isSome_field? registered)
          (engine.starting store target.scope target.field)
      refine ⟨all.registered, all.positive, fun child quota apart kept aggregate atop => ?_,
        fun other member => all.founded other (List.mem_cons_of_mem _ member)⟩
      rcases all.closed child quota apart kept aggregate atop with isStored | member
      · exact .inl isStored
      · rcases List.mem_cons.1 member with rfl | later
        · exact .inl (stored_of_lookup found)
        · exact .inr later
    refine Action.ensures_bind (fun _ => inferInstance)
      ((ensures_spread_grown shallow exact.shifts beside found positive positive).mono ?_)
    rintro _ middle ⟨missing, rfl, grownMiddle, frame, above⟩
    refine Action.ensures_bind (fun _ => inferInstance)
      ((ensures_spread_nowhere (.inr (additive.aggregatesOver_limit _ _)) middle).mono ?_)
    rintro _ after ⟨rfl, rfl⟩
    refine Action.ensures_pure ⟨missing, by rw [List.append_nil], grownMiddle, frame, above⟩

end Growth

end Engine

end HierarchicalQuota
