/-
This file defines quotas: a limit, a usage, and the questions one asks of the two.
-/

import HierarchicalQuota.Amount
import HierarchicalQuota.Entity

namespace HierarchicalQuota

/-- A measure is one of the two numbers of a quota. -/
inductive Measure where
  | usage
  | limit
deriving DecidableEq, Inhabited

/-- A quota holds the limit of a resource and how much of it is in use. -/
@[ext] structure Quota where
  limit : Amount
  usage : Amount
deriving DecidableEq, Inhabited

namespace Quota

def value (quota : Quota) : Measure → Amount
  | .usage => quota.usage
  | .limit => quota.limit

def isUnlimited (quota : Quota) : Bool := quota.limit = .unlimited

/-- A positive change exceeds the quota if it takes the usage above a finite limit. -/
def wouldExceed (quota : Quota) (delta : Amount) : Bool :=
  0 < delta ∧ ¬ quota.isUnlimited ∧ quota.limit < quota.usage + delta

def isExceeded (quota : Quota) : Bool := ¬ quota.isUnlimited ∧ quota.limit < quota.usage

/-- The rest of a finite limit is never negative. The difference is not cut off: one that is not an
amount wraps around, and a build that checks for overflows stops there instead. -/
def remaining (quota : Quota) : Option Amount :=
  if quota.isUnlimited then none
  else some (max (.wrap (quota.limit.value - quota.usage.value)) 0)

/-- Where no difference wraps around, the rest is exact. -/
theorem value_remaining {quota : Quota} {rest : Amount} (finite : quota.remaining = some rest)
    (lower : -9223372036854775808 ≤ quota.limit.value - quota.usage.value)
    (upper : quota.limit.value - quota.usage.value ≤ 9223372036854775807) :
    rest.value = max (quota.limit.value - quota.usage.value) 0 := by
  unfold remaining at finite
  split at finite
  · cases finite
  · obtain rfl := Option.some.inj finite
    rw [Amount.value_max, Amount.value_wrap lower upper, Amount.value_zero]

/-- A difference just below all amounts wraps around to the greatest one. -/
example : (⟨-9223372036854775807, 2⟩ : Quota).remaining = some 9223372036854775807 := by decide

/-- The percentage is zero where the limit is zero or absent. -/
def usagePercentage (quota : Quota) : Float :=
  if quota.isUnlimited ∨ quota.limit = 0 then 0
  else quota.usage.toFloat / quota.limit.toFloat * 100

end Quota

/-- The outcome of a change to a usage tells the numbers that decided it. -/
inductive UsageUpdate where
  | applied (old new limit : Amount)
  | rejected (usage limit : Amount)
deriving DecidableEq, Inhabited

namespace Quota

/-- A change by a caller stops at zero, and a validated one stays within a finite limit. -/
def addUsage (quota : Quota) (delta : Amount) (validate : Bool) : UsageUpdate :=
  let usage := max (quota.usage + delta) 0
  if validate ∧ 0 < delta ∧ quota.limit ≠ .unlimited ∧ quota.limit < usage then
    .rejected quota.usage quota.limit
  else
    .applied quota.usage usage quota.limit

/-- A change to an aggregate is neither stopped at zero nor compared with the limit. -/
def shiftUsage (quota : Quota) (delta : Amount) : UsageUpdate :=
  .applied quota.usage (quota.usage + delta) quota.limit

/-- An applied change replaces the usage, and a rejected one leaves the quota as it was. -/
def update (quota : Quota) : UsageUpdate → Quota
  | .applied _ usage _ => { quota with usage }
  | .rejected _ _ => quota

end Quota

/-- A record is a quota together with the scope that owns it and its name there. -/
@[ext] structure Record where
  scope : Entity
  name : String
  quota : Quota
deriving DecidableEq, Inhabited

end HierarchicalQuota
