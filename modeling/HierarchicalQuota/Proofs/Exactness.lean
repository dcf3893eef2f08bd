import HierarchicalQuota.Proofs.Ensures
import Mathlib.Algebra.BigOperators.Group.List.Basic
import Mathlib.Algebra.Ring.Int.Defs

namespace HierarchicalQuota

open LawfulStore (lookup list)

namespace Amount

/-- A sum is exact if it is the sum of the integers. -/
def AddsExactly (left right : Amount) : Prop := (left + right).value = left.value + right.value

/-- A difference is exact if it is not cut off at an end of the range. -/
def SubtractsExactly (left right : Amount) : Prop := (left - right).value = left.value - right.value

/-- Only the least amount has no exact opposite. -/
def NegatesExactly (amount : Amount) : Prop := (-amount).value = -amount.value

/-- This compares two integers. -/
instance (left right : Amount) : Decidable (left.AddsExactly right) :=
  inferInstanceAs (Decidable (_ = _))

/-- A difference is compared with the integers in the same way. -/
instance (left right : Amount) : Decidable (left.SubtractsExactly right) :=
  inferInstanceAs (Decidable (_ = _))

instance (amount : Amount) : Decidable amount.NegatesExactly := inferInstanceAs (Decidable (_ = _))

/-- The change of a usage that was raised exactly is what was asked for. -/
theorem AddsExactly.add_sub_cancel {amount delta : Amount} (exact : amount.AddsExactly delta) :
    amount + delta - amount = delta := by
  have lower := delta.lower
  have upper := delta.upper
  apply Amount.ext
  rw [value_sub, exact]
  omega

/-- No difference of amounts that are not negative is cut off. -/
theorem subtractsExactly_of_nonneg {left right : Amount} (leftFloor : 0 ≤ left.value)
    (rightFloor : 0 ≤ right.value) : left.SubtractsExactly right := by
  have leftRange := left.upper
  have rightRange := right.upper
  rw [SubtractsExactly, value_sub]
  omega

/-- An amount that is not negative has an exact opposite. -/
theorem value_neg_of_nonneg {amount : Amount} (floor : 0 ≤ amount.value) :
    (-amount).value = -amount.value := by
  have upper := amount.upper
  rw [value_neg]
  omega

/-- A usage above its floor is not negative. -/
theorem zero_le_value_max_zero (amount : Amount) : 0 ≤ (max amount 0).value := by
  rw [value_max, value_zero]
  omega

/-- A usage cut at its floor differs exactly from one that is not negative. -/
theorem subtractsExactly_max_zero (amount : Amount) {earlier : Amount}
    (floor : 0 ≤ earlier.value) : (max amount 0).SubtractsExactly earlier :=
  subtractsExactly_of_nonneg (zero_le_value_max_zero amount) floor

/-- Different amounts have a difference, also where it is cut off. -/
theorem sub_ne_zero {left right : Amount} (different : left ≠ right) :
    left - right ≠ 0 := by
  intro zero
  have value := congrArg value zero
  rw [value_sub, value_zero] at value
  apply different
  apply Amount.ext
  omega

/-- Only zero has the opposite zero, also where opposites are cut off. -/
theorem eq_zero_of_neg {amount : Amount} (zero : -amount = 0) : amount = 0 := by
  have negated := congrArg value zero
  rw [value_neg, value_zero] at negated
  apply Amount.ext
  rw [value_zero]
  omega

end Amount

variable {σ : Type} [QuotaStore σ] [LawfulStore σ]

/-- A call is exact if its own sum is, and every difference that the engine passes on after it. -/
def StoreCall.Exact (call : StoreCall) (store : σ) : Prop :=
  match call with
  | .setLimit scope name limit =>
      ∀ quota ∈ lookup store scope name, limit.SubtractsExactly quota.limit
  | .setUsage scope name usage =>
      ∀ quota ∈ lookup store scope name, usage.SubtractsExactly quota.usage
  | .addUsage scope name delta _ =>
      ∀ quota ∈ lookup store scope name, quota.usage.AddsExactly delta ∧
        (max (quota.usage + delta) 0).SubtractsExactly quota.usage
  | .shiftUsage scope name delta =>
      ∀ quota ∈ lookup store scope name, quota.usage.AddsExactly delta
  | .deleteScope scope =>
      ∀ record ∈ list store scope,
        record.quota.usage.NegatesExactly ∧ record.quota.limit.NegatesExactly
  | .get .. | .getOrCreate .. | .listScope .. => True

/-- The exactness of a call is decided by a read of the record that it names. -/
instance : (call : StoreCall) → (store : σ) → Decidable (call.Exact store)
  | .setLimit scope name limit, store =>
      inferInstanceAs (Decidable (∀ quota ∈ lookup store scope name,
        limit.SubtractsExactly quota.limit))
  | .setUsage scope name usage, store =>
      inferInstanceAs (Decidable (∀ quota ∈ lookup store scope name,
        usage.SubtractsExactly quota.usage))
  | .addUsage scope name delta _, store =>
      inferInstanceAs (Decidable (∀ quota ∈ lookup store scope name,
        quota.usage.AddsExactly delta ∧
          (max (quota.usage + delta) 0).SubtractsExactly quota.usage))
  | .shiftUsage scope name delta, store =>
      inferInstanceAs (Decidable (∀ quota ∈ lookup store scope name,
        quota.usage.AddsExactly delta))
  | .deleteScope scope, store =>
      inferInstanceAs (Decidable (∀ record ∈ list store scope,
        record.quota.usage.NegatesExactly ∧ record.quota.limit.NegatesExactly))
  | .get .., _ | .getOrCreate .., _ | .listScope .., _ => isTrue trivial

/-- This number is what a stored record holds in one measure, and no record holds nothing. -/
def reading (store : σ) (scope : Entity) (name : String) (measure : Measure) : Int :=
  (lookup store scope name).elim 0 fun quota => (quota.value measure).value

/-- A stored child is read with the measure that is asked for. -/
theorem reading_of_some {store : σ} {scope : Entity} {name : String} {quota : Quota}
    (found : lookup store scope name = some quota) (measure : Measure) :
    reading store scope name measure = (quota.value measure).value := by
  rw [reading, found, Option.elim_some]

/-- A child without a record counts as zero. -/
theorem reading_of_none {store : σ} {scope : Entity} {name : String}
    (absent : lookup store scope name = none) (measure : Measure) :
    reading store scope name measure = 0 := by
  rw [reading, absent, Option.elim_none]

/-- The sum over some children adds up what is stored for them. -/
def summed (store : σ) (quota : String) (measure : Measure) : List Entity → Amount → Amount
  | [], sum => sum
  | child :: children, sum =>
      match lookup store child quota with
      | some record => summed store quota measure children (sum + record.value measure)
      | none => summed store quota measure children sum

/-- A running sum depends only on the records of the children. -/
theorem summed_congr {before after : σ} {quota : String} {measure : Measure}
    {children : List Entity}
    (same : ∀ child ∈ children, lookup after child quota = lookup before child quota)
    (sum : Amount) :
    summed after quota measure children sum = summed before quota measure children sum := by
  induction children generalizing sum with
  | nil => rfl
  | cons child children inductionHypothesis =>
      have others := inductionHypothesis fun other member => same other (List.mem_cons_of_mem _ member)
      unfold summed
      rw [same child List.mem_cons_self]
      cases lookup before child quota <;> exact others _

/-- Children that all read as zero have the sum zero. -/
theorem summed_eq_zero {store : σ} {quota : String} {measure : Measure} {children : List Entity}
    (zero : ∀ child ∈ children, reading store child quota measure = 0) :
    summed store quota measure children 0 = 0 := by
  induction children with
  | nil => rfl
  | cons child children inductionHypothesis =>
      obtain ⟨first, others⟩ := List.forall_mem_cons.1 zero
      unfold summed
      cases found : lookup store child quota with
      | none => exact inductionHypothesis others
      | some record =>
          rw [reading_of_some found] at first
          have nothing : record.value measure = 0 := Amount.ext first
          dsimp only
          rw [nothing]
          exact inductionHypothesis others

/-- A sum over children is exact if every one of its additions is. -/
def SumsExactly (store : σ) (quota : String) (measure : Measure) : List Entity → Amount → Prop
  | [], _ => True
  | child :: children, sum =>
      match lookup store child quota with
      | some record =>
          sum.AddsExactly (record.value measure) ∧
            SumsExactly store quota measure children (sum + record.value measure)
      | none => SumsExactly store quota measure children sum

/-- The exactness of a running sum is decided one child after the other. -/
instance decidableSumsExactly (store : σ) (quota : String) (measure : Measure) :
    (children : List Entity) → (sum : Amount) →
      Decidable (SumsExactly store quota measure children sum)
  | [], _ => isTrue trivial
  | child :: children, sum =>
      match found : lookup store child quota with
      | some record =>
          have := decidableSumsExactly store quota measure children (sum + record.value measure)
          decidable_of_iff (sum.AddsExactly (record.value measure) ∧
              SumsExactly store quota measure children (sum + record.value measure))
            (by simp only [SumsExactly, found])
      | none =>
          have := decidableSumsExactly store quota measure children sum
          decidable_of_iff (SumsExactly store quota measure children sum)
            (by simp only [SumsExactly, found])

/-- An exact sum is the sum of the readings. -/
theorem SumsExactly.value_summed {store : σ} {quota : String} {measure : Measure}
    {children : List Entity} {sum : Amount}
    (exact : SumsExactly store quota measure children sum) :
    (summed store quota measure children sum).value =
      sum.value + (children.map fun child => reading store child quota measure).sum := by
  induction children generalizing sum with
  | nil => simp [summed]
  | cons child children inductionHypothesis =>
      rw [List.map_cons, List.sum_cons]
      unfold summed
      unfold SumsExactly at exact
      cases found : lookup store child quota with
      | some record =>
          simp only [found] at exact ⊢
          rw [inductionHypothesis exact.2, exact.1, reading_of_some found]
          omega
      | none =>
          simp only [found] at exact ⊢
          rw [inductionHypothesis exact, reading_of_none found]
          omega

namespace Engine

/-- The usage that the children of an aggregate sum up to. -/
def childSum (engine : Engine) (store : σ) (scope : Entity) (field : Field) : Amount :=
  match field.aggregator?, field.childQuota? with
  | some rule, some quota => summed store quota rule.measure (rule.children scope engine.graph) 0
  | _, _ => 0

/-- The sum of an aggregate depends only on the records that it sums. -/
theorem childSum_congr {engine : Engine} {before after : σ} {scope : Entity} {field : Field}
    (same : ∀ rule ∈ field.aggregator?, ∀ quota ∈ field.childQuota?,
      ∀ child ∈ rule.children scope engine.graph,
        lookup after child quota = lookup before child quota) :
    engine.childSum after scope field = engine.childSum before scope field := by
  unfold childSum
  cases aggregator : field.aggregator? with
  | none => rfl
  | some rule =>
      cases isQuota : field.childQuota? with
      | none => rfl
      | some quota => exact summed_congr (same rule aggregator quota isQuota) 0

/-- The same sum over the integers, where nothing is cut off. -/
def childTotal (engine : Engine) (store : σ) (scope : Entity) (field : Field) : Int :=
  match field.aggregator?, field.childQuota? with
  | some rule, some quota =>
      ((rule.children scope engine.graph).map fun child =>
        reading store child quota rule.measure).sum
  | _, _ => 0

/-- The sum over the children of a field is exact for every field of the name. -/
def ChildrenSumExactly (engine : Engine) (store : σ) (scope : Entity) (name : String) : Prop :=
  ∀ field ∈ engine.registry.field? scope.kind name, ∀ rule ∈ field.aggregator?,
    ∀ quota ∈ field.childQuota?,
      SumsExactly store quota rule.measure (rule.children scope engine.graph) 0

/-- A call is exact for an engine if the sum is exact, too, from which it lets a record start. -/
def Exact (engine : Engine) (call : StoreCall) (store : σ) : Prop :=
  call.Exact store ∧
    match call with
    | .getOrCreate scope name _ => engine.ChildrenSumExactly store scope name
    | _ => True

instance (engine : Engine) (store : σ) (scope : Entity) (name : String) :
    Decidable (engine.ChildrenSumExactly store scope name) :=
  inferInstanceAs (Decidable (∀ field ∈ engine.registry.field? scope.kind name,
    ∀ rule ∈ field.aggregator?, ∀ quota ∈ field.childQuota?,
      SumsExactly store quota rule.measure (rule.children scope engine.graph) 0))

/-- The exactness of a call of the engine is decided on the store before the call. -/
instance (engine : Engine) : (call : StoreCall) → (store : σ) → Decidable (engine.Exact call store)
  | .getOrCreate scope name initial, store =>
      inferInstanceAs (Decidable ((StoreCall.getOrCreate scope name initial).Exact store ∧
        engine.ChildrenSumExactly store scope name))
  | .setLimit scope name limit, store =>
      inferInstanceAs (Decidable ((StoreCall.setLimit scope name limit).Exact store ∧ True))
  | .setUsage scope name usage, store =>
      inferInstanceAs (Decidable ((StoreCall.setUsage scope name usage).Exact store ∧ True))
  | .addUsage scope name delta validate, store =>
      inferInstanceAs (Decidable ((StoreCall.addUsage scope name delta validate).Exact store ∧
        True))
  | .shiftUsage scope name delta, store =>
      inferInstanceAs (Decidable ((StoreCall.shiftUsage scope name delta).Exact store ∧ True))
  | .deleteScope scope, store =>
      inferInstanceAs (Decidable ((StoreCall.deleteScope scope).Exact store ∧ True))
  | .get .., _ | .listScope .., _ => isTrue ⟨trivial, trivial⟩

/-- A sum that is exact at every step is the sum of the integers. -/
theorem value_childSum {engine : Engine} {store : σ} {scope : Entity} {field : Field}
    (registered : engine.registry.field? scope.kind field.name = some field)
    (exact : engine.ChildrenSumExactly store scope field.name) :
    (engine.childSum store scope field).value = engine.childTotal store scope field := by
  unfold childSum childTotal
  cases rule : field.aggregator? with
  | none => rfl
  | some rule' =>
      cases quota : field.childQuota? with
      | none => rfl
      | some quota' =>
          have sum := (exact field registered rule' rule quota' quota).value_summed
          rwa [Amount.value_zero, Int.zero_add] at sum

/-- A sum over children only reads the store. -/
theorem ensures_sumOver {fit : StoreCall → σ → Prop} (quota : String) (measure : Measure)
    (children : List Entity) (sum : Amount) (store : σ) :
    Action.Ensures fit (sumOver quota measure children sum) store fun result after =>
      result = .ok (summed store quota measure children sum) ∧ after = store := by
  induction children generalizing sum with
  | nil => exact Action.ensures_pure ⟨rfl, rfl⟩
  | cons child children inductionHypothesis =>
      unfold sumOver summed
      apply Action.ensures_bind
      · intro found
        cases found <;> infer_instance
      · apply Action.ensures_access
        apply Action.ensures_get
        cases lookup store child quota with
        | none => exact inductionHypothesis sum
        | some record => exact inductionHypothesis _

/-- The engine reads the sum of the children and changes nothing. -/
theorem ensures_sumChildren {fit : StoreCall → σ → Prop} (engine : Engine) (scope : Entity)
    (field : Field) (store : σ) :
    Action.Ensures fit (engine.sumChildren scope field) store fun result after =>
      result = .ok (engine.childSum store scope field) ∧ after = store := by
  unfold sumChildren childSum
  cases field.aggregator? with
  | none => exact Action.ensures_pure ⟨rfl, rfl⟩
  | some rule =>
      cases field.childQuota? with
      | none => exact Action.ensures_pure ⟨rfl, rfl⟩
      | some quota => exact ensures_sumOver quota rule.measure _ 0 store

end Engine

end HierarchicalQuota
