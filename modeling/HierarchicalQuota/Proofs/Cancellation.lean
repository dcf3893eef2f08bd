import HierarchicalQuota.Proofs.Reversal
import HierarchicalQuota.Proofs.RoundTrip
import HierarchicalQuota.Proofs.Validation

namespace HierarchicalQuota

open HierarchicalQuota.Action (Ensures)
open LawfulStore (lookup put)

namespace Amount

/-- A product is exact if it is the product of the integers. -/
def MultipliesExactly (left right : Amount) : Prop :=
  (left * right).value = left.value * right.value

/-- This compares two integers. -/
instance (left right : Amount) : Decidable (left.MultipliesExactly right) :=
  inferInstanceAs (Decidable (_ = _))

/-- An exact product that is not negative changes its sign with the multiplier. The least multiplier
has no opposite, but it has no such product except zero. -/
theorem mul_neg_of_nonneg {delta multiplier : Amount} (exact : delta.MultipliesExactly multiplier)
    (rises : 0 ≤ (delta * multiplier).value) : delta * -multiplier = -(delta * multiplier) := by
  have upper := (delta * multiplier).upper
  have lower := multiplier.lower
  have range := multiplier.upper
  apply Amount.ext
  rw [MultipliesExactly] at exact
  rw [value_neg_of_nonneg rises, exact]
  rw [exact] at rises upper
  by_cases least : multiplier.value = -9223372036854775808
  · rw [least] at rises upper ⊢
    have zero : delta.value = 0 := by omega
    rw [value_mul, zero]
    simp
  · have opposite : (-multiplier).value = -multiplier.value := by
      rw [value_neg]
      omega
    rw [value_mul, opposite, mul_neg]
    omega

/-- A sum is stored as it is if it is neither cut off nor negative. -/
theorem AddsExactly.max_zero {usage delta : Amount} (exact : usage.AddsExactly delta)
    (floor : 0 ≤ usage.value + delta.value) : max (usage + delta) 0 = usage + delta := by
  apply Amount.ext
  rw [value_max, exact, value_zero]
  omega

end Amount

variable {σ : Type} [QuotaStore σ] [LawfulStore σ]

namespace Engine

variable {engine : Engine} {fit : StoreCall → σ → Prop}

/-- A record is ready for changes if it is available and not negative, and if all aggregates above
it are stored. -/
structure Ready (engine : Engine) (store : σ) (scope : Entity) (name : String) : Prop where
  available : engine.Available scope name
  present : ∃ quota, lookup store scope name = some quota ∧ 0 ≤ quota.usage.value
  covered : engine.Covered store scope

/-- A record stays ready while other changes move it, unless they take it below zero. -/
theorem Ready.of_moved {before after : σ} {amount : Entity → String → Int} {scope : Entity}
    {name : String} (ready : engine.Ready before scope name) (moved : Moved before after amount)
    (floor : ∀ quota, lookup before scope name = some quota →
      0 ≤ quota.usage.value + amount scope name) : engine.Ready after scope name := by
  obtain ⟨quota, found, -⟩ := ready.present
  obtain ⟨later, laterFound, -, usage⟩ := moved.lookup_some found
  have covered : engine.Covered after scope :=
    ready.covered.mono fun other label present => by rwa [moved.stored_eq]
  refine ⟨ready.available, ⟨later, laterFound, ?_⟩, covered⟩
  rw [usage]
  exact floor quota found

/-- A store is passable for some changes of its usages if fitting calls add exactly, or if every
usage stays in range with its change. -/
def Passable (fit : StoreCall → σ → Prop) (store : σ) (change : Entity → String → Int) : Prop :=
  (∀ call store, fit call store → call.AddsExactly store) ∨
    ∀ scope name quota, lookup store scope name = some quota →
      ∃ final : Amount, final.value = quota.usage.value + change scope name

/-- Without a fresh scope every request has its whole effect on the sheet. -/
theorem effect_none (request : Change) (scope : Entity) (name : String) :
    engine.effect none request scope name =
      request.amount.value * engine.impact request.scope request.name scope name := rfl

section Batch

variable (shallow : engine.graph.Shallow)

include shallow

/-- A change whose sum is exact and not negative is made in full at all levels. -/
theorem ensures_applyDelta_full {scope : Entity} {name : String} {quota : Quota} {delta : Amount}
    {validate : Bool} {store : σ} (ready : engine.Ready store scope name)
    (found : lookup store scope name = some quota)
    (floor : 0 ≤ quota.usage.value + delta.value)
    (adds : fit (.addUsage scope name delta validate) store → quota.usage.AddsExactly delta)
    (shiftable : Shiftable fit (put store scope name
      { quota with usage := max (quota.usage + delta) 0 })
      (max (quota.usage + delta) 0 - quota.usage) (engine.paths scope name .usage)) :
    Ensures fit (engine.applyDelta scope name delta validate) store fun result after =>
      match result with
      | .ok _ => Moved store after (engine.effect none ⟨scope, name, delta⟩)
      | .error _ => validate = true := by
  obtain ⟨field, known, connected⟩ := ready.available
  obtain ⟨same, sameFound, usageFloor⟩ := ready.present
  obtain rfl := Option.some.inj (found.symm.trans sameFound)
  have difference := Amount.subtractsExactly_max_zero (quota.usage + delta) usageFloor
  refine (ensures_applyDelta_stored shallow known connected found ready.covered delta validate
    shiftable fun _ => difference).mono ?_
  intro result after applies
  cases result with
  | error error => exact applies.2.1
  | ok amount =>
      obtain ⟨value, fits, moved⟩ := applies
      apply moved.congr
      intro other label _
      rw [effect_none]
      by_cases zero : delta = 0
      · rw [value, if_pos zero, zero]
      · have exact := adds (fits zero)
        rw [value, if_neg zero, exact.max_zero floor, exact.add_sub_cancel]

/-- A change that neither leaves the range nor falls below zero is made in full at all levels. -/
theorem ensures_applyDelta_moves {request : Change} {store : σ}
    (ready : engine.Ready store request.scope request.name)
    (passable : Passable fit store (engine.effect none request))
    (floor : ∀ quota, lookup store request.scope request.name = some quota →
      0 ≤ quota.usage.value + request.amount.value) (validate : Bool) :
    Ensures fit (engine.applyDelta request.scope request.name request.amount validate) store
      fun result after =>
        match result with
        | .ok _ => Moved store after (engine.effect none request)
        | .error _ => validate = true := by
  obtain ⟨scope, name, delta⟩ := request
  obtain ⟨quota, found, -⟩ := ready.present
  have enough : 0 ≤ quota.usage.value + delta.value := floor quota found
  rcases passable with exact | room
  · exact ensures_applyDelta_full shallow ready found enough
      (fun fits => exact _ _ fits quota found)
      (.inl fun store _ _ _ other fits otherFound => exact _ store fits other otherFound)
  have sum : quota.usage.AddsExactly delta := by
    obtain ⟨final, reaches⟩ := room scope name quota found
    have same : final.value = quota.usage.value + delta.value := by
      rw [reaches, effect_none, impact_self shallow, mul_one]
    have lower := final.lower
    have upper := final.upper
    rw [Amount.AddsExactly, Amount.value_add]
    omega
  refine ensures_applyDelta_full shallow ready found enough (fun _ => sum) (.inr ?_)
  rw [sum.max_zero enough, sum.add_sub_cancel]
  intro other label later laterFound
  -- The record itself has moved already, and the aggregates have all of the way before them.
  obtain ⟨start, startFound, usage⟩ := (Moved.of_put found _).lookup_before laterFound
  obtain ⟨final, reaches⟩ := room other label start startFound
  refine ⟨final, ?_⟩
  rw [reaches, usage, effect_none, impact, show (quota.usage + delta).value = _ from sum]
  split <;> ring

end Batch

/-- A change moves everything above it in its own direction. -/
theorem impact_nonneg (child : Entity) (quota : String) (scope : Entity) (name : String) :
    0 ≤ engine.impact child quota scope name := by
  unfold impact
  split <;> omega

/-- Increases never lower a usage. -/
theorem effects_nonneg {requests : List Change}
    (rising : ∀ request ∈ requests, 0 ≤ request.amount.value) (scope : Entity) (name : String) :
    0 ≤ engine.effects none (requests.map .ok) scope name := by
  induction requests with
  | nil => exact le_rfl
  | cons request rest inductionHypothesis =>
      obtain ⟨first, others⟩ := List.forall_mem_cons.1 rising
      have own := mul_nonneg first (engine.impact_nonneg request.scope request.name scope name)
      rw [List.map_cons, effects_cons_ok, effect_none]
      exact add_nonneg own (inductionHypothesis others)

/-- Decreases never raise a usage. -/
theorem effects_nonpos {requests : List Change}
    (falling : ∀ request ∈ requests, request.amount.value ≤ 0) (scope : Entity) (name : String) :
    engine.effects none (requests.map .ok) scope name ≤ 0 := by
  induction requests with
  | nil => exact le_rfl
  | cons request rest inductionHypothesis =>
      obtain ⟨first, others⟩ := List.forall_mem_cons.1 falling
      have own := mul_nonpos_of_nonpos_of_nonneg first
        (engine.impact_nonneg request.scope request.name scope name)
      rw [List.map_cons, effects_cons_ok, effect_none]
      exact add_nonpos own (inductionHypothesis others)

/-- The requests of a batch are directed if they all rise or all fall, and if they leave every usage
in range and no named one below zero. On the way no usage leaves the range between where it starts
and where it ends, so nothing is cut off. -/
structure Directed (engine : Engine) (fit : StoreCall → σ → Prop) (requests : List Change)
    (store : σ) : Prop where
  direction : (∀ request ∈ requests, 0 ≤ request.amount.value) ∨
    ∀ request ∈ requests, request.amount.value ≤ 0
  ready : ∀ request ∈ requests, engine.Ready store request.scope request.name
  floor : ∀ request ∈ requests, ∀ quota, lookup store request.scope request.name = some quota →
    0 ≤ quota.usage.value + engine.effects none (requests.map .ok) request.scope request.name
  passable : Passable fit store (engine.effects none (requests.map .ok))

namespace Directed

variable {request : Change} {rest : List Change} {store after : σ}

/-- The first request goes a part of the way and leaves the rest of it to the others. -/
theorem between (directed : engine.Directed fit (request :: rest) store) (scope : Entity)
    (name : String) :
    let first := engine.effect none request scope name
    let all := engine.effects none ((request :: rest).map .ok) scope name
    (0 ≤ first ∧ first ≤ all) ∨ (all ≤ first ∧ first ≤ 0) := by
  intro first all
  have sum : all = first + engine.effects none (rest.map .ok) scope name := effects_cons_ok ..
  have impact := engine.impact_nonneg request.scope request.name scope name
  rcases directed.direction with rising | falling
  · obtain ⟨own, others⟩ := List.forall_mem_cons.1 rising
    have remaining := engine.effects_nonneg others scope name
    have start : 0 ≤ first := mul_nonneg own impact
    omega
  · obtain ⟨own, others⟩ := List.forall_mem_cons.1 falling
    have remaining := engine.effects_nonpos others scope name
    have start : first ≤ 0 := mul_nonpos_of_nonpos_of_nonneg own impact
    omega

/-- What the first request leaves is not below zero, because both ends of the way are not. -/
theorem floor_first (directed : engine.Directed fit (request :: rest) store) {other : Change}
    (member : other ∈ request :: rest) {quota : Quota}
    (found : lookup store other.scope other.name = some quota) :
    0 ≤ quota.usage.value + engine.effect none request other.scope other.name := by
  obtain ⟨same, sameFound, start⟩ := (directed.ready other member).present
  obtain rfl := Option.some.inj (found.symm.trans sameFound)
  have finish := directed.floor other member quota found
  have way := directed.between other.scope other.name
  omega

/-- The first of several directed changes goes a part of the way of them all. -/
theorem passable_first (directed : engine.Directed fit (request :: rest) store) :
    Passable fit store (engine.effect none request) := by
  refine directed.passable.imp id fun room scope name quota found => ?_
  obtain ⟨final, reaches⟩ := room scope name quota found
  have way := directed.between scope name
  have startRange := And.intro quota.usage.lower quota.usage.upper
  have finalRange := And.intro final.lower final.upper
  exact ⟨⟨_, by omega, by omega⟩, rfl⟩

/-- The others go the rest of the way. -/
theorem others (directed : engine.Directed fit (request :: rest) store)
    (moved : Moved store after (engine.effect none request)) : engine.Directed fit rest after where
  direction := directed.direction.imp (fun rising => (List.forall_mem_cons.1 rising).2)
    fun falling => (List.forall_mem_cons.1 falling).2
  ready other member := by
    have listed := List.mem_cons_of_mem request member
    exact (directed.ready other listed).of_moved moved fun _ => directed.floor_first listed
  floor other member later laterFound := by
    obtain ⟨quota, found, usage⟩ := moved.lookup_before laterFound
    have finish := directed.floor other (List.mem_cons_of_mem _ member) quota found
    rw [List.map_cons, effects_cons_ok] at finish
    omega
  passable := by
    refine directed.passable.imp id fun room scope name later laterFound => ?_
    obtain ⟨quota, found, usage⟩ := moved.lookup_before laterFound
    obtain ⟨final, reaches⟩ := room scope name quota found
    refine ⟨final, ?_⟩
    rw [reaches, usage, List.map_cons, effects_cons_ok, add_assoc]

end Directed

section Batch

variable (shallow : engine.graph.Shallow)

include shallow

/-- A directed batch makes all its changes in full. Only a check of limits can refuse one of
them. -/
theorem ensures_applyAll_directed {requests : List Change} {store : σ}
    (directed : engine.Directed fit requests store) (validate : Bool) (applied : List Change) :
    Ensures fit (engine.applyAll validate (requests.map .ok) applied) store fun result after =>
      match result with
      | .ok _ => Moved store after (engine.effects none (requests.map .ok))
      | .error _ => validate = true := by
  induction requests generalizing applied store with
  | nil => exact Action.ensures_pure (Moved.refl store)
  | cons request rest inductionHypothesis =>
      apply ensures_applyAll_of_steps
      have floor : ∀ quota, lookup store request.scope request.name = some quota →
          0 ≤ quota.usage.value + request.amount.value := by
        intro quota found
        have way := directed.floor_first List.mem_cons_self found
        rwa [effect_none, impact_self shallow, mul_one] at way
      refine (ensures_applyDelta_moves shallow (directed.ready request List.mem_cons_self)
        directed.passable_first floor validate).mono ?_
      intro first middle moved
      cases first with
      | error error => exact (ensures_compensate_ok applied).mono fun _ _ _ => moved
      | ok amount =>
          refine (inductionHypothesis (directed.others moved) _).mono ?_
          intro result after made
          cases result with
          | error error => exact made
          | ok done => exact moved.trans made

end Batch

/-- The opposite multiplier asks for the opposite changes, in the same order. -/
theorem requests_neg {scopes : List Entity} {deltas : List (String × Amount)} {multiplier : Amount}
    (opposite : ∀ delta ∈ deltas, delta.2 * -multiplier = -(delta.2 * multiplier)) :
    requests scopes deltas (-multiplier) =
      (requests scopes deltas multiplier).map Change.opposite := by
  unfold requests
  rw [List.map_flatMap]
  apply List.flatMap_congr
  intro delta member
  rw [List.map_map]
  apply List.map_congr_left
  intro scope _
  rw [opposite delta member]
  rfl

/-- The opposite changes have the opposite effects. -/
theorem effects_map_opposite {changes : List Change}
    (rising : ∀ change ∈ changes, 0 ≤ change.amount.value) (scope : Entity) (name : String) :
    engine.effects none ((changes.map Change.opposite).map .ok) scope name =
      -engine.effects none (changes.map .ok) scope name := by
  have same : (changes.map Change.opposite).map .ok =
      (changes.map .ok).map (Except.map Change.opposite : Except QuotaError Change → _) := by
    rw [List.map_map, List.map_map]
    rfl
  rw [same, effects_opposite]
  intro change member
  obtain ⟨other, listed, isOther⟩ := List.mem_map.1 member
  obtain rfl := Except.ok.inj isOther
  exact rising other listed

/-- Requests that rise are directed upwards as long as nothing is cut off. -/
theorem directed_of_rising {changes : List Change} {store : σ}
    (rising : ∀ change ∈ changes, 0 ≤ change.amount.value)
    (ready : ∀ change ∈ changes, engine.Ready store change.scope change.name) :
    engine.Directed StoreCall.AddsExactly changes store where
  direction := .inl rising
  ready := ready
  floor change member quota found := by
    obtain ⟨same, sameFound, start⟩ := (ready change member).present
    obtain rfl := Option.some.inj (found.symm.trans sameFound)
    exact add_nonneg start (effects_nonneg rising change.scope change.name)
  passable := .inl fun _ _ exact => exact

/-- After requests that rise, their opposites are directed back to where these began. -/
theorem directed_opposite {changes : List Change} {before store : σ}
    (rising : ∀ change ∈ changes, 0 ≤ change.amount.value)
    (ready : ∀ change ∈ changes, engine.Ready before change.scope change.name)
    (moved : Moved before store (engine.effects none (changes.map .ok))) :
    engine.Directed fit (changes.map Change.opposite) store where
  direction := by
    refine .inr fun opposite member => ?_
    obtain ⟨change, listed, rfl⟩ := List.mem_map.1 member
    have floor := rising change listed
    change (-change.amount).value ≤ 0
    rw [Amount.value_neg_of_nonneg floor]
    omega
  ready opposite member := by
    obtain ⟨change, listed, rfl⟩ := List.mem_map.1 member
    refine (ready change listed).of_moved moved fun quota found => ?_
    exact (directed_of_rising rising ready).floor change listed quota found
  floor opposite member later laterFound := by
    obtain ⟨change, listed, rfl⟩ := List.mem_map.1 member
    obtain ⟨quota, found, start⟩ := (ready change listed).present
    obtain ⟨same, sameFound, usage⟩ := moved.lookup_before laterFound
    obtain rfl := Option.some.inj (found.symm.trans sameFound)
    rwa [effects_map_opposite rising, usage, add_neg_cancel_right]
  passable := by
    refine .inr fun scope name later laterFound => ?_
    obtain ⟨quota, -, usage⟩ := moved.lookup_before laterFound
    refine ⟨quota.usage, ?_⟩
    rw [effects_map_opposite rising, usage, add_neg_cancel_right]

/-- Where a list of rising changes succeeds, the list of their opposites succeeds after it and leads
back to the start. -/
theorem applyAll_cancels (shallow : engine.graph.Shallow) {changes : List Change} {store : σ}
    (rising : ∀ change ∈ changes, 0 ≤ change.amount.value)
    (ready : ∀ change ∈ changes, engine.Ready store change.scope change.name) (validate : Bool)
    (exact : RecordedStore.AllFit StoreCall.AddsExactly
      (Action.history (engine.applyAll validate (changes.map .ok) []) store))
    (succeeds : Action.outcome (engine.applyAll validate (changes.map .ok) []) store = .ok ⟨⟩) :
    engine.applyAll false ((changes.map Change.opposite).map .ok) []
      (Action.after (engine.applyAll validate (changes.map .ok) []) store) = .ok ⟨⟩ store := by
  have raised := (ensures_applyAll_directed shallow (directed_of_rising rising ready) validate
    []).of_allFit (RecordedStore.answersAlike.applyAll engine validate _ []) exact
  rw [succeeds] at raised
  -- From here on nothing is asked of the calls, because there is room for every change.
  have directed : engine.Directed (fun _ _ => True) (changes.map Change.opposite) _ :=
    directed_opposite rising ready raised
  have lowered := (ensures_applyAll_directed shallow directed false []).of_allFit
    (RecordedStore.answersAlike.applyAll engine false _ []) fun _ _ => trivial
  cases result : Action.outcome (engine.applyAll false ((changes.map Change.opposite).map .ok) [])
      (Action.after (engine.applyAll validate (changes.map .ok) []) store) with
  | error error =>
      rw [result] at lowered
      cases lowered
  | ok done =>
      rw [result] at lowered
      refine Action.eq_ok_iff.2 ⟨result, (raised.trans lowered).eq_of_still ?_⟩
      intro scope name
      rw [effects_map_opposite rising, add_neg_cancel]

/-- Raising usages and lowering them again leaves no trace, also where a named quota sums another
one. The named quotas are stored and not negative, and all aggregates above their scopes are stored.
If the first batch succeeds and nothing in it is cut off, then the opposite batch succeeds, too, and
restores the store. -/
theorem applyChanges_cancels (shallow : engine.graph.Shallow) (scopes : List Entity)
    (deltas : List (String × Amount)) (multiplier : Amount) (validate : Bool) (store : σ)
    (atHand : ∀ scope ∈ scopes, engine.AtHand store scope deltas)
    (covered : ∀ scope ∈ scopes, engine.Covered store scope)
    (rising : ∀ delta ∈ deltas, delta.2.MultipliesExactly multiplier ∧
      0 ≤ delta.2.value * multiplier.value)
    (exact : RecordedStore.AllFit StoreCall.AddsExactly
      (Action.history (engine.applyChanges scopes deltas multiplier validate) store))
    (succeeds : Action.outcome (engine.applyChanges scopes deltas multiplier validate) store =
      .ok ⟨⟩) :
    engine.applyChanges scopes deltas (-multiplier) false
      (Action.after (engine.applyChanges scopes deltas multiplier validate) store) =
        .ok ⟨⟩ store := by
  have asked : ∀ change ∈ requests scopes deltas multiplier, change.scope ∈ scopes ∧
      ∃ delta ∈ deltas, delta.1 = change.name ∧ delta.2 * multiplier = change.amount :=
    fun change member => mem_requests (List.mem_map_of_mem member)
  have products : ∀ delta ∈ deltas, 0 ≤ (delta.2 * multiplier).value := by
    intro delta member
    obtain ⟨product, floor⟩ := rising delta member
    rwa [show (delta.2 * multiplier).value = _ from product]
  have rises : ∀ change ∈ requests scopes deltas multiplier, 0 ≤ change.amount.value := by
    intro change member
    obtain ⟨-, delta, listed, -, isAmount⟩ := asked change member
    rw [← isAmount]
    exact products delta listed
  have ready : ∀ change ∈ requests scopes deltas multiplier,
      engine.Ready store change.scope change.name := by
    intro change member
    obtain ⟨scopeMember, delta, listed, isName, -⟩ := asked change member
    obtain ⟨available, quota, found, floor⟩ := atHand change.scope scopeMember delta listed
    rw [isName] at available found
    exact ⟨available, ⟨quota, found, floor⟩, covered change.scope scopeMember⟩
  have back : requests scopes deltas (-multiplier) =
      (requests scopes deltas multiplier).map Change.opposite :=
    requests_neg fun delta member =>
      Amount.mul_neg_of_nonneg (rising delta member).1 (products delta member)
  unfold applyChanges at exact succeeds ⊢
  rw [back]
  exact applyAll_cancels shallow rises ready validate exact succeeds

end Engine

section Sample

/-- All that the sample batch changes is stored. -/
theorem atHand_seatedStore {scope : Entity} (member : scope ∈ [sampleTeam, sampleOrganization]) :
    sampleEngine.AtHand seatedStore scope [("seats", 2), ("seats", 1)] := by
  have named : ∀ delta ∈ [("seats", (2 : Amount)), ("seats", 1)], delta.1 = "seats" := by decide
  intro delta deltaMember
  rw [named delta deltaMember]
  rcases List.mem_cons.1 member with rfl | other
  · exact ⟨⟨sampleCounter, rfl, rfl⟩, ⟨10, 4⟩, by decide +kernel, by decide⟩
  · obtain rfl := List.mem_singleton.1 other
    exact ⟨⟨sampleSum "seats" .usage, rfl, rfl⟩, ⟨.unlimited, 4⟩, by decide +kernel, by decide⟩

/-- The seats of the organization are named themselves, and they sum the seats of the team. -/
theorem applyChanges_cancels_sample :
    (Action.after (sampleEngine.applyChanges [sampleTeam, sampleOrganization]
        [("seats", 2), ("seats", 1)] 1 true) seatedStore).lookup sampleOrganization "seats" =
        some ⟨.unlimited, 10⟩ ∧
      sampleEngine.applyChanges [sampleTeam, sampleOrganization] [("seats", 2), ("seats", 1)] (-1)
        false (Action.after (sampleEngine.applyChanges [sampleTeam, sampleOrganization]
          [("seats", 2), ("seats", 1)] 1 true) seatedStore) = .ok ⟨⟩ seatedStore := by
  constructor
  · decide +kernel
  · exact Engine.applyChanges_cancels shallow_sampleGraph [sampleTeam, sampleOrganization]
      [("seats", 2), ("seats", 1)] 1 true seatedStore (fun _ => atHand_seatedStore)
      (fun scope _ => Engine.covered_of_stored (by decide +kernel) scope) (by decide)
      (by decide +kernel) (by decide +kernel)

end Sample

end HierarchicalQuota
