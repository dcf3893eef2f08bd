import HierarchicalQuota.Proofs.Validation

namespace HierarchicalQuota

open LawfulStore (lookup put)

/-- A change fits a quota if the exact sum is within the limit, or if the limit is the greatest
amount. -/
def Quota.Fits (quota : Quota) (delta : Amount) : Prop :=
  quota.usage.value + delta.value ≤ quota.limit.value ∨ quota.limit.value = 9223372036854775807

instance (quota : Quota) (delta : Amount) : Decidable (quota.Fits delta) :=
  inferInstanceAs (Decidable (_ ∨ _))

/-- A limit that is not negative is finite. -/
theorem Quota.isUnlimited_of_nonneg {quota : Quota} (limitFloor : 0 ≤ quota.limit) :
    quota.isUnlimited = false := by
  apply decide_eq_false
  intro unlimited
  rw [unlimited] at limitFloor
  exact absurd limitFloor (by decide)

/-- A sum that was cut off exceeds every limit but the greatest amount, as the exact one does. -/
theorem Quota.wouldExceed_iff {quota : Quota} {delta : Amount} (limitFloor : 0 ≤ quota.limit)
    (rises : 0 < delta) : quota.wouldExceed delta = true ↔ ¬ quota.Fits delta := by
  have lower := quota.usage.lower
  have upper := quota.limit.upper
  simp only [wouldExceed, isUnlimited_of_nonneg limitFloor, rises, Fits, decide_eq_true_eq,
    Bool.false_eq_true, not_false_eq_true, true_and]
  rw [Amount.lt_iff, Amount.value_zero] at rises
  rw [Amount.lt_iff, Amount.value_add]
  omega

/-- An increase of a usage that is not negative is applied if it fits, and is cut off only at the
greatest amount. -/
theorem Quota.addUsage_eq_ite {quota : Quota} {delta : Amount} (usageFloor : 0 ≤ quota.usage)
    (limitFloor : 0 ≤ quota.limit) (rises : 0 < delta) :
    quota.addUsage delta true =
      if quota.Fits delta then .applied quota.usage (quota.usage + delta) quota.limit
      else .rejected quota.usage quota.limit := by
  have same : max (quota.usage + delta) 0 = quota.usage + delta := by
    apply Amount.ext
    rw [Amount.le_iff, Amount.value_zero] at usageFloor
    rw [Amount.lt_iff, Amount.value_zero] at rises
    rw [Amount.value_max, Amount.value_add, Amount.value_zero]
    omega
  rw [Quota.addUsage_of_nonneg usageFloor, same]
  simp only [Quota.wouldExceed_iff limitFloor rises, ite_not]

variable {σ : Type} [QuotaStore σ] [LawfulStore σ]

namespace Engine

/-- The check of an increase fails for a quota that is not registered. -/
theorem validateChange_of_unregistered {engine : Engine} {scope : Entity} {name : String}
    {delta : Amount} (unregistered : engine.registry.field? scope.kind name = none)
    (rises : 0 < delta) (store : σ) :
    engine.validateChange scope [(name, delta)] store =
      .error (.unknownQuota scope.kind name) store := by
  have limit : engine.limit scope name store = .error (.unknownQuota scope.kind name) store := by
    rw [Engine.limit, read_eq, unregistered]
  unfold validateChange Action.collect violation?
  dsimp only
  rw [if_pos rises]
  exact Action.bind_of_eq_error (Action.bind_of_eq_error (Action.bind_of_eq_error limit))

/-- The check of an increase of a registered quota fails if the change does not fit. -/
theorem validateChange_of_registered {engine : Engine} {scope : Entity} {name : String}
    {quota : Quota} {delta : Amount} {store : σ}
    (registered : (engine.registry.field? scope.kind name).isSome)
    (found : lookup store scope name = some quota) (usageFloor : 0 ≤ quota.usage)
    (limitFloor : 0 ≤ quota.limit) (rises : 0 < delta) :
    engine.validateChange scope [(name, delta)] store =
      if quota.Fits delta then .ok () store
      else .error (.quotasExceeded [⟨scope, name, quota.limit, quota.usage + delta⟩]) store := by
  rw [validateChange_of_checkable (by simpa using ⟨registered, quota, found, usageFloor⟩),
    List.filterMap_cons, breach?_of_lookup found]
  simp only [Quota.wouldExceed_iff limitFloor rises]
  by_cases fits : quota.Fits delta
  · simp [fits]
  · simp [fits]

/-- The three decisions about an increase agree. The store applies it if and only if it fits, and
then the new usage is the exact sum, or the greatest amount if that is less. A change that does not
fit leaves the record as it was. The quota would be exceeded exactly by such a change, and the check
of a registered quota fails exactly for it. -/
theorem addUsage_decides (engine : Engine) (scope : Entity) (name : String) (quota : Quota)
    (delta : Amount) (store : σ) (found : lookup store scope name = some quota)
    (usageFloor : 0 ≤ quota.usage) (limitFloor : 0 ≤ quota.limit) (rises : 0 < delta) :
    (quota.Fits delta → ∃ usage : Amount,
        usage.value = min (quota.usage.value + delta.value) 9223372036854775807 ∧
        QuotaStore.addUsage scope name delta true store =
          .ok (.applied quota.usage usage quota.limit)
            (put store scope name { quota with usage })) ∧
      (¬ quota.Fits delta → QuotaStore.addUsage scope name delta true store =
        .ok (.rejected quota.usage quota.limit) store) ∧
      (quota.wouldExceed delta = true ↔ ¬ quota.Fits delta) ∧
      engine.validateChange scope [(name, delta)] store =
        match engine.registry.field? scope.kind name with
        | none => .error (.unknownQuota scope.kind name) store
        | some _ =>
            if quota.Fits delta then .ok () store
            else
              .error (.quotasExceeded [⟨scope, name, quota.limit, quota.usage + delta⟩]) store := by
  have run := LawfulStore.addUsage_eq store scope name delta true
  rw [found] at run
  dsimp only at run
  rw [Quota.addUsage_eq_ite usageFloor limitFloor rises] at run
  have exceeds := Quota.wouldExceed_iff limitFloor rises
  refine ⟨fun fits => ?_, fun unfit => ?_, exceeds, ?_⟩
  · refine ⟨quota.usage + delta, ?_, ?_⟩
    · rw [Amount.le_iff, Amount.value_zero] at usageFloor
      rw [Amount.lt_iff, Amount.value_zero] at rises
      rw [Amount.value_add]
      omega
    · rw [run, if_pos fits]
      rfl
  · rw [run, if_neg unfit]
    rw [Quota.update, LawfulStore.put_of_lookup found]
  · cases known : engine.registry.field? scope.kind name with
    | none => exact validateChange_of_unregistered known rises store
    | some field =>
        exact validateChange_of_registered (Option.isSome_of_eq_some known) found usageFloor
          limitFloor rises

end Engine

section Sample

/-- The team has used 4 of 10, so 7 more do not fit. -/
theorem addUsage_decides_sample :
    QuotaStore.addUsage sampleTeam "storage" 7 true busyStore = .ok (.rejected 4 10) busyStore ∧
      sampleEngine.validateChange sampleTeam [("storage", 7)] busyStore =
        .error (.quotasExceeded [⟨sampleTeam, "storage", 10, 11⟩]) busyStore := by
  obtain ⟨-, rejects, -, fails⟩ := sampleEngine.addUsage_decides sampleTeam "storage" ⟨10, 4⟩ 7
    busyStore (by decide +kernel) (by decide) (by decide) (by decide)
  have unfit : ¬ (⟨10, 4⟩ : Quota).Fits 7 := by decide
  refine ⟨rejects unfit, fails.trans ?_⟩
  rw [if_neg unfit]
  rfl

/-- The exact sum is above the greatest amount, but the sum that was cut off is not. -/
theorem addUsage_not_exact :
    ¬ ∀ (scope : Entity) (name : String) (quota : Quota) (delta : Amount) (store : MemoryStore),
      lookup store scope name = some quota → 0 ≤ quota.usage → 0 ≤ quota.limit → 0 < delta →
      ((∃ old new limit after, QuotaStore.addUsage scope name delta true store =
          .ok (.applied old new limit) after) ↔
        quota.usage.value + delta.value ≤ quota.limit.value) := by
  intro claimed
  let greatest := Amount.clamp 9223372036854775807
  have exact := (claimed sampleTeam "storage" ⟨greatest, 1⟩ greatest
    (MemoryStore.empty.put sampleTeam "storage" ⟨greatest, 1⟩) (by decide +kernel) (by decide)
    (by decide) (by decide)).1 ⟨1, greatest, greatest, _, rfl⟩
  revert exact
  decide

end Sample

end HierarchicalQuota
