import HierarchicalQuota.Proofs.Spreading

namespace HierarchicalQuota

open LawfulStore (lookup put)

namespace Quota

/-- A quota is within its limit if its usage is neither negative nor above a finite limit. -/
def WithinLimit (quota : Quota) : Prop :=
  0 ≤ quota.usage ∧ (quota.limit = .unlimited ∨ quota.usage ≤ quota.limit)

/-- This compares the usage with zero and with the limit. -/
instance (quota : Quota) : Decidable quota.WithinLimit :=
  inferInstanceAs (Decidable (_ ∧ (_ ∨ _)))

/-- Amounts, the latest first, can be retraced from a quota if taking them off one by one never
leaves its limit. -/
def Retraces : List Amount → Quota → Prop
  | [], quota => quota.WithinLimit
  | amount :: amounts, quota => quota.WithinLimit ∧ ∃ usage : Amount,
      quota.usage.value = usage.value + amount.value ∧ Retraces amounts { quota with usage }

variable {quota : Quota} {amounts : List Amount} {amount delta : Amount}

/-- A log that can be retraced begins at a usage within its limit. -/
theorem Retraces.withinLimit (retraces : quota.Retraces amounts) : quota.WithinLimit := by
  cases amounts with
  | nil => exact retraces
  | cons amount amounts => exact retraces.1

/-- A zero can be retraced at any time, and retracing it changes nothing. -/
theorem retraces_zero_cons : quota.Retraces (0 :: amounts) ↔ quota.Retraces amounts := by
  constructor
  · rintro ⟨-, usage, sum, retraces⟩
    rw [Amount.value_zero, add_zero] at sum
    rwa [← Amount.ext sum] at retraces
  · intro retraces
    exact ⟨retraces.withinLimit, quota.usage, by rw [Amount.value_zero, add_zero], retraces⟩

/-- A change that is accepted keeps a quota within its limit. One that is not validated must not be
positive for that. -/
theorem WithinLimit.change (within : quota.WithinLimit) {validate : Bool}
    (bounded : validate = true ∨ delta ≤ 0)
    (accepted : ¬ (validate = true ∧ 0 < delta ∧ quota.limit ≠ .unlimited ∧
      quota.limit < max (quota.usage + delta) 0)) :
    WithinLimit { quota with usage := max (quota.usage + delta) 0 } := by
  obtain ⟨floor, ceiling⟩ := within
  refine ⟨Amount.zero_le_value_max_zero _, or_iff_not_imp_left.2 fun limited => ?_⟩
  have below := ceiling.resolve_left limited
  by_contra above
  have exceeded : quota.limit.value < (max (quota.usage + delta) 0).value := not_le.1 above
  have sum := exceeded
  rw [Amount.le_iff] at floor below
  rw [Amount.value_zero] at floor
  rw [Amount.value_max, Amount.value_add, Amount.value_zero] at sum
  have positive : 0 < delta.value := by omega
  have validated : validate = true := bounded.resolve_right (not_le.2 positive)
  exact accepted ⟨validated, positive, limited, exceeded⟩

/-- A change that the limit admits, or that lowers the usage, can be retraced with the others. -/
theorem Retraces.change (retraces : quota.Retraces amounts) {validate : Bool}
    (bounded : validate = true ∨ delta ≤ 0)
    (accepted : ¬ (validate = true ∧ 0 < delta ∧ quota.limit ≠ .unlimited ∧
      quota.limit < max (quota.usage + delta) 0)) :
    Retraces ((max (quota.usage + delta) 0 - quota.usage) :: amounts)
      { quota with usage := max (quota.usage + delta) 0 } := by
  have within := retraces.withinLimit
  have difference := Amount.subtractsExactly_max_zero (quota.usage + delta) within.1
  refine ⟨within.change bounded accepted, quota.usage, ?_, retraces⟩
  dsimp only
  rw [show (max (quota.usage + delta) 0 - quota.usage).value = _ from difference]
  omega

/-- The negative of the latest amount takes exactly this amount off. -/
theorem Retraces.value_takeBack (retraces : quota.Retraces (amount :: amounts)) :
    (max (quota.usage + -amount) 0).value = quota.usage.value - amount.value := by
  obtain ⟨within, usage, sum, earlier⟩ := retraces
  have floor : 0 ≤ usage.value := earlier.withinLimit.1
  have now : 0 ≤ quota.usage.value := within.1
  have range := usage.upper
  have nowRange := quota.usage.upper
  rw [Amount.value_max, Amount.value_add, Amount.value_neg, Amount.value_zero]
  omega

/-- The negative of the latest amount leads back to the usage before it. -/
theorem Retraces.takeBack (retraces : quota.Retraces (amount :: amounts)) :
    Retraces amounts { quota with usage := max (quota.usage + -amount) 0 } := by
  have lower := retraces.value_takeBack
  obtain ⟨within, usage, sum, earlier⟩ := retraces
  have same : max (quota.usage + -amount) 0 = usage := by
    apply Amount.ext
    omega
  rwa [same]

end Quota

variable {σ : Type} [QuotaStore σ] [LawfulStore σ]

/-- All stored quotas of fields that are not summed are within their limits. -/
def Registry.Limits (registry : Registry) (store : σ) : Prop :=
  ∀ scope, ∀ field ∈ registry.fields scope.kind, field.aggregator? = none →
    ∀ quota, lookup store scope field.name = some quota → quota.WithinLimit

namespace Engine

section Logged

/-- Quotas start within their limits if the initial quota of every field that is not summed does. -/
def StartsWithinLimits (engine : Engine) : Prop :=
  ∀ scope, ∀ field ∈ engine.registry.fields scope.kind, field.aggregator? = none →
    (field.initial scope engine.graph).WithinLimit

/-- The standing of a field is its stored quota, or the initial one where none is stored. -/
def standing (engine : Engine) (store : σ) (scope : Entity) (field : Field) : Quota :=
  (lookup store scope field.name).getD (field.initial scope engine.graph)

/-- These amounts were added to one quota, the latest first. -/
def amounts (changes : List Change) (scope : Entity) (name : String) : List Amount :=
  (changes.filter fun change => change.scope = scope ∧ change.name = name).map (·.amount)

/-- Changes are logged if those that are not zero have changed available quotas, and if the changes
of each quota that is not summed can be retraced from its standing. -/
structure Logged (engine : Engine) (changes : List Change) (store : σ) : Prop where
  available : ∀ change ∈ changes, change.amount ≠ 0 → engine.Available change.scope change.name
  retraces : ∀ scope, ∀ field ∈ engine.registry.fields scope.kind, field.aggregator? = none →
    (engine.standing store scope field).Retraces (amounts changes scope field.name)

variable {engine : Engine}

/-- A change of a quota comes first among its amounts. -/
theorem amounts_cons_self (scope : Entity) (name : String) (amount : Amount)
    (changes : List Change) :
    amounts (⟨scope, name, amount⟩ :: changes) scope name = amount :: amounts changes scope name := by
  simp [amounts]

/-- A change of another quota is not among the amounts. -/
theorem amounts_cons_of_ne {change : Change} {scope : Entity} {name : String}
    (different : ¬ (change.scope = scope ∧ change.name = name)) (changes : List Change) :
    amounts (change :: changes) scope name = amounts changes scope name := by
  simp [amounts, different]

/-- A written record stands as it was written, and all others stand as before. -/
theorem standing_put (store : σ) (place : Entity) (label : String) (quota : Quota) (scope : Entity)
    (field : Field) :
    engine.standing (put store place label quota) scope field =
      if place = scope ∧ label = field.name then quota else engine.standing store scope field := by
  rw [standing, LawfulStore.lookup_put]
  split <;> rfl

/-- A stored record stands as it is stored. -/
theorem standing_of_lookup {store : σ} {scope : Entity} {field : Field} {quota : Quota}
    (found : lookup store scope field.name = some quota) :
    engine.standing store scope field = quota := by
  rw [standing, found, Option.getD_some]

variable {changes : List Change} {store : σ}

/-- Where all limits are kept, the empty log can be retraced. -/
theorem logged_nil_of_limits (starts : engine.StartsWithinLimits)
    (limits : engine.registry.Limits store) : engine.Logged [] store where
  available change member := by cases member
  retraces scope field registered plain := by
    change (engine.standing store scope field).WithinLimit
    cases found : lookup store scope field.name with
    | none =>
        rw [standing, found, Option.getD_none]
        exact starts scope field registered plain
    | some quota =>
        rw [standing_of_lookup found]
        exact limits scope field registered plain quota found

/-- Where a log can be retraced, all limits are kept. -/
theorem Logged.limits (logged : engine.Logged changes store) : engine.registry.Limits store := by
  intro scope field registered plain quota found
  have retraces := logged.retraces scope field registered plain
  rw [standing_of_lookup found] at retraces
  exact retraces.withinLimit

/-- A log can be forgotten. -/
theorem Logged.forget (logged : engine.Logged changes store) : engine.Logged [] store where
  available change member := by cases member
  retraces scope field registered plain :=
    (logged.retraces scope field registered plain).withinLimit

/-- A log does not depend on the standing of fields that are summed. -/
theorem Logged.put_aggregator (logged : engine.Logged changes store) {scope : Entity}
    {field : Field} (registered : field ∈ engine.registry.fields scope.kind)
    (aggregator : field.aggregator?.isSome) (quota : Quota) :
    engine.Logged changes (put store scope field.name quota) where
  available := logged.available
  retraces other label otherRegistered plain := by
    rw [standing_put, if_neg]
    · exact logged.retraces other label otherRegistered plain
    · rintro ⟨rfl, sameName⟩
      obtain rfl := Registry.eq_of_name_eq registered otherRegistered sameName
      rw [plain] at aggregator
      cases aggregator

/-- A new record takes the standing that its field had without one. -/
theorem Logged.put_starting (logged : engine.Logged changes store) {scope : Entity}
    {field : Field} (registered : field ∈ engine.registry.fields scope.kind)
    (absent : lookup store scope field.name = none) :
    engine.Logged changes (put store scope field.name (engine.starting store scope field)) := by
  cases rule : field.aggregator? with
  | some aggregator => exact logged.put_aggregator registered (by rw [rule]; rfl) _
  | none =>
      refine ⟨logged.available, fun other label otherRegistered plain => ?_⟩
      rw [standing_put]
      split
      · rename_i same
        obtain ⟨rfl, sameName⟩ := same
        obtain rfl := Registry.eq_of_name_eq registered otherRegistered sameName
        have unchanged : engine.standing store scope field = engine.starting store scope field := by
          rw [standing, absent, Option.getD_none, starting_of_plain store scope plain]
        rw [← unchanged]
        exact logged.retraces scope field registered plain
      · exact logged.retraces other label otherRegistered plain

/-- An accepted change of a stored quota is added to the log. -/
theorem Logged.change (logged : engine.Logged changes store) {scope : Entity} {name : String}
    (available : engine.Available scope name) {quota : Quota}
    (found : lookup store scope name = some quota) {delta : Amount} {validate : Bool}
    (bounded : validate = true ∨ delta ≤ 0)
    (accepted : ¬ (validate = true ∧ 0 < delta ∧ quota.limit ≠ .unlimited ∧
      quota.limit < max (quota.usage + delta) 0)) :
    engine.Logged (⟨scope, name, max (quota.usage + delta) 0 - quota.usage⟩ :: changes)
      (put store scope name { quota with usage := max (quota.usage + delta) 0 }) where
  available change member nonzero := by
    rcases List.mem_cons.1 member with rfl | earlier
    · exact available
    · exact logged.available change earlier nonzero
  retraces other field registered plain := by
    have earlier := logged.retraces other field registered plain
    rw [standing_put]
    split
    · rename_i same
      obtain ⟨rfl, rfl⟩ := same
      rw [standing_of_lookup found] at earlier
      rw [amounts_cons_self]
      exact earlier.change bounded accepted
    · rename_i different
      rwa [amounts_cons_of_ne different]

/-- Taking back the latest change of a stored quota removes it from the log. -/
theorem Logged.takeBack {change : Change} (logged : engine.Logged (change :: changes) store)
    {quota : Quota} (found : lookup store change.scope change.name = some quota) :
    engine.Logged changes (put store change.scope change.name
      { quota with usage := max (quota.usage + -change.amount) 0 }) where
  available other member := logged.available other (List.mem_cons_of_mem _ member)
  retraces other field registered plain := by
    have latest := logged.retraces other field registered plain
    rw [standing_put]
    split
    · rename_i same
      obtain ⟨scope, name, amount⟩ := change
      obtain ⟨rfl, rfl⟩ := same
      rw [standing_of_lookup found, amounts_cons_self] at latest
      exact latest.takeBack
    · rename_i different
      rwa [amounts_cons_of_ne different] at latest

/-- A change by zero can be added to the log and removed from it. -/
theorem logged_zero_cons {change : Change} (zero : change.amount = 0) :
    engine.Logged (change :: changes) store ↔ engine.Logged changes store := by
  have same : ∀ scope name (quota : Quota), quota.Retraces (amounts (change :: changes) scope name) ↔
      quota.Retraces (amounts changes scope name) := by
    intro scope name quota
    by_cases own : change.scope = scope ∧ change.name = name
    · obtain ⟨rfl, rfl⟩ := own
      obtain ⟨scope, name, amount⟩ := change
      obtain rfl : amount = 0 := zero
      rw [amounts_cons_self, Quota.retraces_zero_cons]
    · rw [amounts_cons_of_ne own]
  constructor
  · intro logged
    exact ⟨fun other member => logged.available other (List.mem_cons_of_mem _ member),
      fun scope field registered plain =>
        (same _ _ _).1 (logged.retraces scope field registered plain)⟩
  · intro logged
    refine ⟨fun other member nonzero => ?_, fun scope field registered plain =>
      (same _ _ _).2 (logged.retraces scope field registered plain)⟩
    rcases List.mem_cons.1 member with rfl | earlier
    · exact absurd zero nonzero
    · exact logged.available other earlier nonzero

end Logged

end Engine

end HierarchicalQuota
