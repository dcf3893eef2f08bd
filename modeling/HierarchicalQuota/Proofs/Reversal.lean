import HierarchicalQuota.Proofs.Rules
import HierarchicalQuota.Proofs.Rollback
import HierarchicalQuota.Proofs.Spreading

namespace HierarchicalQuota

open HierarchicalQuota.Action (Ensures)
open LawfulStore (lookup)

namespace Amount

/-- The negative of a change leads back exactly, because neither end of the change is negative. -/
theorem value_takenBack {before after change : Amount} (beforeFloor : 0 ≤ before.value)
    (afterFloor : 0 ≤ after.value) (sum : after.value = before.value + change.value) :
    (if -change = 0 then 0 else max (after + -change) 0 - after).value = -change.value := by
  have beforeRange := before.upper
  have afterRange := after.upper
  split
  · rename_i zero
    rw [eq_zero_of_neg zero]
    rfl
  · rw [subtractsExactly_max_zero _ afterFloor, value_max, value_add, value_neg, value_zero]
    omega

end Amount

variable {σ : Type} [QuotaStore σ] [LawfulStore σ]

/-- A store that has moved by nothing is the same. -/
theorem Moved.eq_of_still {before after : σ} {amount : Entity → String → Int}
    (moved : Moved before after amount) (still : ∀ scope name, amount scope name = 0) :
    after = before :=
  LawfulStore.ext_lookup fun scope name => moved.lookup_eq (still scope name)

/-- A call is an exact shift if the sum of an aggregate and its change is not cut off. Nothing is
asked of the calls that are no shifts. -/
def StoreCall.ExactShift (call : StoreCall) (store : σ) : Prop :=
  match call with
  | .shiftUsage scope name delta =>
      ∀ quota ∈ lookup store scope name, quota.usage.AddsExactly delta
  | .get .. | .getOrCreate .. | .setLimit .. | .setUsage .. | .addUsage .. | .listScope ..
  | .deleteScope .. => True

/-- Only shifts have anything to decide. -/
instance : (call : StoreCall) → (store : σ) → Decidable (call.ExactShift store)
  | .shiftUsage scope name delta, store =>
      inferInstanceAs (Decidable (∀ quota ∈ lookup store scope name,
        quota.usage.AddsExactly delta))
  | .get .., _ | .getOrCreate .., _ | .setLimit .., _ | .setUsage .., _ | .addUsage .., _
  | .listScope .., _ | .deleteScope .., _ => isTrue trivial

/-- A shift that is exact adds exactly. -/
theorem shiftsExactly_exactShift : ShiftsExactly (StoreCall.ExactShift : StoreCall → σ → Prop) :=
  fun _ _ _ _ quota exact found => exact quota found

namespace Engine

variable {engine : Engine}

/-- A batch is prepared for if every available quota that it names is stored, not summed and not
negative, and if all aggregates above its scopes are stored. -/
structure PreparedFor (engine : Engine) (scopes : List Entity) (deltas : List (String × Amount))
    (store : σ) : Prop where
  named : ∀ scope ∈ scopes, ∀ delta ∈ deltas, engine.Available scope delta.1 →
    engine.Plain scope delta.1 ∧ ∃ quota ∈ lookup store scope delta.1, 0 ≤ quota.usage.value
  covered : ∀ scope ∈ scopes, engine.Covered store scope

/-- A change was applied if it moved an adjustable usage together with the aggregates above, or if it
was zero and moved nothing. -/
inductive Applied (engine : Engine) (targets : Entity → String → Prop) (change : Change)
    (before after : σ) : Prop where
  | still (zero : change.amount = 0) (same : after = before)
  | moved (target : targets change.scope change.name)
      (moves : Moved before after fun scope name =>
        change.amount.value * engine.impact change.scope change.name scope name)

/-- Changes lead from one store to another if they were applied one after the other, the latest
first in the list. All usages could be adjusted all the time. -/
def Leads (engine : Engine) (targets : Entity → String → Prop) (start : σ) :
    List Change → σ → Prop
  | [], store => store = start ∧ engine.AllAdjustable none targets store
  | change :: earlier, store => engine.AllAdjustable none targets store ∧
      ∃ before, engine.Leads targets start earlier before ∧ engine.Applied targets change before store

/-- All targets can be adjusted on a store to which the changes lead. -/
theorem Leads.allAdjustable {targets : Entity → String → Prop} {start : σ}
    {changes : List Change} {store : σ} (leads : engine.Leads targets start changes store) :
    engine.AllAdjustable none targets store := by
  cases changes with
  | nil => exact leads.2
  | cons change earlier => exact leads.1

section Reversal

variable (shallow : engine.graph.Shallow) {targets : Entity → String → Prop}

include shallow

/-- A change of an adjustable usage is applied, or it is refused and changes nothing. -/
theorem ensures_applyDelta_applied {store : σ}
    (adjustable : engine.AllAdjustable none targets store) {scope : Entity} {name : String}
    (target : targets scope name) (delta : Amount) (validate : Bool) :
    Ensures StoreCall.ExactShift (engine.applyDelta scope name delta validate) store
      fun result after =>
        match result with
        | .ok amount => engine.AllAdjustable none targets after ∧
            engine.Applied targets ⟨scope, name, amount⟩ store after
        | .error _ => after = store := by
  have own := adjustable scope name target
  obtain ⟨field, known, connected⟩ := own.connected
  obtain ⟨quota, found, enough⟩ := own.present
  have floor := enough (by simp)
  have difference := Amount.subtractsExactly_max_zero (quota.usage + delta) floor
  refine (ensures_applyDelta_stored shallow known connected found own.covered delta validate
    (.inl shiftsExactly_exactShift) fun _ => difference).mono ?_
  rintro (error | amount) after applies
  · exact applies.1
  obtain ⟨value, -, moves⟩ := applies
  refine ⟨adjustable.of_moved shallow (fun _ other otherFound => ?_) moves, .moved target moves⟩
  obtain rfl := Option.some.inj (found.symm.trans otherFound)
  rw [value]
  split
  · rw [Amount.value_zero, add_zero]
    exact floor
  · rw [difference, add_sub_cancel]
    exact Amount.zero_le_value_max_zero _

/-- Taking back a change that was applied restores the store before it. -/
theorem ensures_applyDelta_restores {before store : σ} {change : Change}
    (adjustableBefore : engine.AllAdjustable none targets before)
    (adjustable : engine.AllAdjustable none targets store)
    (applied : engine.Applied targets change before store) :
    Ensures StoreCall.ExactShift
      (engine.applyDelta change.scope change.name (-change.amount) false) store
      fun _ after => after = before := by
  cases applied with
  | still zero same =>
      subst same
      unfold applyDelta
      rw [if_pos (by rw [zero]; rfl)]
      exact Action.ensures_pure rfl
  | moved target moves =>
      have own := adjustable _ _ target
      obtain ⟨field, known, connected⟩ := own.connected
      obtain ⟨now, nowFound, enough⟩ := own.present
      obtain ⟨earlier, earlierFound, earlierEnough⟩ := (adjustableBefore _ _ target).present
      have nowFloor := enough (by simp)
      have earlierFloor := earlierEnough (by simp)
      have sum : now.usage.value = earlier.usage.value + change.amount.value := by
        obtain ⟨later, laterFound, -, usage⟩ := moves.lookup_some earlierFound
        obtain rfl := Option.some.inj (nowFound.symm.trans laterFound)
        rwa [impact_self shallow, mul_one] at usage
      refine (ensures_applyDelta_stored shallow known connected nowFound own.covered _ false
        (.inl shiftsExactly_exactShift) fun _ =>
          Amount.subtractsExactly_max_zero _ nowFloor).mono ?_
      rintro (error | amount) after applies
      · obtain ⟨-, validated, -⟩ := applies
        cases validated
      · obtain ⟨value, -, back⟩ := applies
        apply (moves.trans back).eq_of_still
        intro scope name
        rw [value, Amount.value_takenBack earlierFloor nowFloor sum]
        ring

/-- Whether a batch names available quotas or not, what it applies can be taken back. -/
theorem logs_leads {requests : List (Except QuotaError Change)} (validate : Bool)
    (targeted : ∀ request, .ok request ∈ requests → engine.Available request.scope request.name →
      targets request.scope request.name) (start : σ) :
    engine.Logs StoreCall.ExactShift validate requests (fun _ => True)
      (engine.Leads targets start) where
  apply {request changes store} member leads := by
    by_cases available : engine.Available request.scope request.name
    · refine (ensures_applyDelta_applied shallow leads.allAdjustable
        (targeted request member available) request.amount validate).mono ?_
      rintro (error | amount) after applies
      · obtain rfl := applies
        exact ⟨leads, trivial⟩
      · exact ⟨applies.1, store, leads, applies.2⟩
    · refine (ensures_applyDelta_unavailable available request.amount validate).mono ?_
      rintro (error | amount) after ⟨rfl, zero⟩
      · exact ⟨leads, trivial⟩
      · exact ⟨leads.allAdjustable, after, leads, .still (zero amount rfl) rfl⟩
  takeBack {change changes store} leads := by
    obtain ⟨adjustable, before, earlier, applied⟩ := leads
    refine (ensures_applyDelta_restores shallow earlier.allAdjustable adjustable applied).mono ?_
    rintro _ after rfl
    exact earlier

/-- A batch of changes that fails leaves the store exactly as it was, as long as no aggregate above
its scopes is cut off. The named usages themselves may be cut off at both ends, because a change is
taken back as it was stored and not as it was asked for. -/
theorem applyChanges_allOrNothing (scopes : List Entity) (deltas : List (String × Amount))
    (multiplier : Amount) (validate : Bool) (store : σ)
    (prepared : engine.PreparedFor scopes deltas store)
    (exact : RecordedStore.AllFit StoreCall.ExactShift
      (Action.history (engine.applyChanges scopes deltas multiplier validate) store))
    (error : QuotaError)
    (failed : Action.outcome (engine.applyChanges scopes deltas multiplier validate) store =
      .error error) :
    Action.after (engine.applyChanges scopes deltas multiplier validate) store = store := by
  let named (scope : Entity) (name : String) : Prop :=
    (scope ∈ scopes ∧ ∃ delta ∈ deltas, delta.1 = name) ∧ engine.Available scope name
  have adjustable : engine.AllAdjustable none named store := by
    rintro scope _ ⟨⟨scopeMember, delta, deltaMember, rfl⟩, available⟩
    obtain ⟨plain, quota, found, floor⟩ :=
      prepared.named scope scopeMember delta deltaMember available
    exact ⟨available, plain, ⟨quota, found, fun _ => floor⟩, prepared.covered scope scopeMember,
      by simp⟩
  have targeted : ∀ request, (.ok request : Except QuotaError Change) ∈
      (requests scopes deltas multiplier).map .ok → engine.Available request.scope request.name →
      named request.scope request.name := by
    intro request member available
    obtain ⟨scopeMember, delta, deltaMember, sameName, -⟩ := mem_requests member
    exact ⟨⟨scopeMember, delta, deltaMember, sameName⟩, available⟩
  have ensures := ensures_applyAll_logged (logs_leads shallow validate targeted store) []
    ⟨rfl, adjustable⟩
  have kept := ensures.of_allFit
    (RecordedStore.answersAlike.applyChanges engine scopes deltas multiplier validate) exact
  rw [failed] at kept
  exact kept.1.1

end Reversal

end Engine

section Sample

/-- The seats of the team and all aggregates above it are stored. -/
def seatedStore : MemoryStore :=
  ((MemoryStore.empty.put sampleOrganization "storage" ⟨.unlimited, 10⟩).put sampleOrganization
    "seats" ⟨.unlimited, 4⟩).put sampleTeam "seats" ⟨10, 4⟩

/-- The first of these changes is cut off at zero, the second names no quota, and the last one
exceeds the limit of the team. -/
def seatDeltas : List (String × Amount) := [("seats", -9), ("chairs", 0), ("seats", 3), ("seats", 8)]

/-- Only the organization is above the team, and both of its sums are stored. -/
theorem covered_seatedStore : sampleEngine.Covered seatedStore sampleTeam := by
  have above : sampleGraph.quotaParents sampleTeam = [sampleOrganization] := by decide +kernel
  have root : sampleGraph.quotaParents sampleOrganization = [] := by decide +kernel
  apply Engine.covered_of_parents
  intro parent member
  obtain rfl := List.mem_singleton.1 (above ▸ member)
  refine ⟨Engine.covered_of_parents fun parent member => (by cases root ▸ member), ?_⟩
  intro field registered _ _
  have fields : sampleRegistry.fields sampleOrganization.kind =
      [sampleSum "storage" .limit, sampleSum "seats" .usage] := rfl
  rcases List.mem_cons.1 (fields ▸ registered) with rfl | other
  · decide +kernel
  · obtain rfl := List.mem_singleton.1 other
    decide +kernel

/-- The seats of the team are stored, and the chairs are no quota of it. -/
theorem preparedFor_seatedStore : sampleEngine.PreparedFor [sampleTeam] seatDeltas seatedStore where
  named scope scopeMember delta deltaMember available := by
    obtain rfl := List.mem_singleton.1 scopeMember
    have names : ∀ delta ∈ seatDeltas, delta.1 = "seats" ∨ delta.1 = "chairs" := by decide
    rcases names delta deltaMember with name | name
    · rw [name]
      exact ⟨by decide, ⟨10, 4⟩, by decide +kernel, by decide⟩
    · rw [name] at available
      obtain ⟨field, known, -⟩ := available
      cases known
  covered scope member := by
    obtain rfl := List.mem_singleton.1 member
    exact covered_seatedStore

/-- Every change is taken back as it was stored, also the one that was cut off. -/
theorem applyChanges_allOrNothing_sample :
    Action.outcome (sampleEngine.applyChanges [sampleTeam] seatDeltas 1 true) seatedStore =
        .error (.limitExceeded ⟨sampleTeam, "seats", 10, 11⟩) ∧
      Action.after (sampleEngine.applyChanges [sampleTeam] seatDeltas 1 true) seatedStore =
        seatedStore := by
  have refused : Action.outcome (sampleEngine.applyChanges [sampleTeam] seatDeltas 1 true)
      seatedStore = .error (.limitExceeded ⟨sampleTeam, "seats", 10, 11⟩) := by decide +kernel
  exact ⟨refused, Engine.applyChanges_allOrNothing shallow_sampleGraph [sampleTeam] seatDeltas 1
    true seatedStore preparedFor_seatedStore (by decide +kernel) _ refused⟩

end Sample

end HierarchicalQuota
