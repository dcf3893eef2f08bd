import HierarchicalQuota.Proofs.Tally

namespace HierarchicalQuota

open HierarchicalQuota.Action (Ensures)
open LawfulStore (lookup put drop list)

variable {σ : Type} [QuotaStore σ] [LawfulStore σ]

/-- The opposite change takes back what a change asks for. -/
def Change.opposite (change : Change) : Change := { change with amount := -change.amount }

namespace Engine

variable {engine : Engine}

/-- These are the requests that an event of an entity makes of its targets. -/
def targetRequests (engine : Engine) (entity : Entity) (change : TargetChange) :
    List (Except QuotaError Change) :=
  (engine.registry.targeting entity.kind).filterMap (engine.targetRequest? entity change)

/-- A deletion asks each target for the opposite of what a creation asks for. -/
theorem targetRequest?_deleted (entity : Entity) (registration : Registration) :
    engine.targetRequest? entity .deleted registration =
      (engine.targetRequest? entity .created registration).map (Except.map Change.opposite) := by
  unfold targetRequest?
  dsimp only [TargetChange.delta]
  by_cases weightless : registration.field.weight entity engine.graph = 0
  · rw [if_pos weightless, weightless]
    rfl
  rw [if_neg weightless, if_neg fun zero => weightless (Amount.eq_zero_of_neg zero)]
  cases registration.field.targets? with
  | none => rfl
  | some target =>
      cases resolved : engine.graph.resolve entity target.2 with
      | none => simp [resolved]
      | some scope =>
          simp only [Option.bind_eq_bind, Option.bind_some, resolved]
          split
          · rfl
          · split <;> rfl

/-- A deletion asks for the opposite of what the creation has asked for. -/
theorem targetRequests_deleted (entity : Entity) :
    engine.targetRequests entity .deleted =
      (engine.targetRequests entity .created).map (Except.map Change.opposite) := by
  unfold targetRequests
  rw [List.map_filterMap]
  exact List.filterMap_congr fun registration _ => targetRequest?_deleted entity registration

/-- The opposite of an increase has the opposite effect. -/
theorem effect_opposite {fresh : Option Entity} {change : Change}
    (rises : 0 ≤ change.amount.value) (scope : Entity) (name : String) :
    engine.effect fresh change.opposite scope name = -engine.effect fresh change scope name := by
  unfold effect Change.opposite
  dsimp only
  split
  · rfl
  · rw [Amount.value_neg_of_nonneg rises, neg_mul]

/-- The opposite requests have the opposite effects. -/
theorem effects_opposite {fresh : Option Entity} {requests : List (Except QuotaError Change)}
    (rising : ∀ change, .ok change ∈ requests → 0 ≤ change.amount.value) (scope : Entity)
    (name : String) :
    engine.effects fresh (requests.map (Except.map Change.opposite)) scope name =
      -engine.effects fresh requests scope name := by
  induction requests with
  | nil => rfl
  | cons request requests inductionHypothesis =>
      have rest := inductionHypothesis fun change member => rising change (List.mem_cons_of_mem _ member)
      cases request with
      | error error =>
          change 0 + engine.effects fresh (requests.map _) scope name =
            -(0 + engine.effects fresh requests scope name)
          rw [rest, zero_add, zero_add]
      | ok change =>
          rw [List.map_cons, Except.map, effects_cons_ok, effects_cons_ok, rest,
            effect_opposite (rising change List.mem_cons_self)]
          ring

/-- An entity weighs nothing less than zero for every field that targets it. -/
def Weighs (engine : Engine) (entity : Entity) : Prop :=
  ∀ registration ∈ engine.registry.targeting entity.kind,
    0 ≤ (registration.field.weight entity engine.graph).value

/-- An entity whose weights are not negative asks for increases only. -/
theorem Weighs.rising {entity : Entity} (weighs : engine.Weighs entity) (change : Change)
    (member : .ok change ∈ engine.targetRequests entity .created) : 0 ≤ change.amount.value := by
  obtain ⟨registration, listed, asks⟩ := List.mem_filterMap.1 member
  rw [(parts_of_targetRequest? asks).2.2]
  exact weighs registration listed

/-- The targets have counted an entity if all that it asks for has been added. -/
structure Counts (engine : Engine) (fresh : Option Entity) (entity : Entity) (before after : σ) :
    Prop where
  valid : ∀ error, .error error ∉ engine.targetRequests entity .created
  could : engine.AllAdjustable fresh (engine.Targets entity) before
  can : engine.AllAdjustable fresh (engine.Targets entity) after
  sameStored : stored after = stored before
  shifted : engine.remainder fresh after = (engine.remainder fresh before).shift
    (engine.effects fresh (engine.targetRequests entity .created))

/-- Only a scope has records of its own that can be set apart. -/
def freshScope (engine : Engine) (entity : Entity) : Option Entity :=
  if engine.registry.isScopeKind entity.kind then some entity else none

/-- An entity has entered a store if its records were set apart, in case it has any, and its targets
have counted it then. -/
structure Entered (engine : Engine) (entity : Entity) (before after : σ) : Prop where
  covered : engine.Covered after entity
  counted : ∃ middle : σ,
    engine.remainder (engine.freshScope entity) middle = engine.remainder none before ∧
      engine.Counts (engine.freshScope entity) entity middle after

variable (shallow : engine.graph.Shallow)

include shallow

/-- A creation that succeeds has moved the sheet by all that it has asked for. -/
theorem ensures_applyTargetChange_counts {fresh : Option Entity} {entity : Entity}
    (weighs : engine.Weighs entity) {store : σ}
    (adjustable : engine.AllAdjustable fresh (engine.Targets entity) store) :
    Ensures StoreCall.Exact (engine.applyTargetChange entity .created) store fun result after =>
      result = .ok ⟨⟩ → engine.Counts fresh entity store after := by
  refine (ensures_applyAll_shifts shallow (fun request member => targets_of_mem member)
    (.inl weighs.rising) adjustable fun scope name targets elsewhere => ?_).mono ?_
  · obtain ⟨quota, found, positive⟩ := (adjustable scope name targets).present
    have start := positive elsewhere
    rw [reading_eq found]
    exact add_nonneg start (pending_nonneg fun change member _ _ => weighs.rising change member)
  · rintro (error | done) after shifts
    · rintro ⟨⟩
    · obtain ⟨valid, can, sameStored, shifted⟩ := shifts
      exact fun _ => ⟨valid, adjustable, can, sameStored, shifted⟩

/-- What an entity has been counted for can be taken back completely, and nothing refuses this. -/
theorem ensures_applyTargetChange_uncounts {fresh : Option Entity} {entity : Entity}
    (weighs : engine.Weighs entity) {before store : σ}
    (counts : engine.Counts fresh entity before store) :
    Ensures StoreCall.Exact (engine.applyTargetChange entity .deleted) store fun result after =>
      result = .ok ⟨⟩ ∧ stored after = stored store ∧
        engine.remainder fresh after = engine.remainder fresh before := by
  have falling : ∀ change, .ok change ∈ engine.targetRequests entity .deleted →
      change.amount.value ≤ 0 := by
    intro change member
    rw [targetRequests_deleted, List.mem_map] at member
    obtain ⟨request, listed, same⟩ := member
    cases request with
    | error error => cases same
    | ok original =>
        obtain rfl := Except.ok.inj same
        have rises := weighs.rising original listed
        change (-original.amount).value ≤ 0
        rw [Amount.value_neg_of_nonneg rises]
        omega
  have takenBack (scope : Entity) (name : String) :
      engine.effects fresh (engine.targetRequests entity .deleted) scope name =
        -engine.effects fresh (engine.targetRequests entity .created) scope name := by
    rw [targetRequests_deleted, effects_opposite weighs.rising]
  refine (ensures_applyAll_shifts shallow (fun request member => targets_of_mem member)
    (.inr falling) counts.can fun scope name targets elsewhere => ?_).mono ?_
  · -- The usage is at least what was added to it, because it was not negative before.
    have target := counts.could scope name targets
    obtain ⟨quota, found, positive⟩ := target.present
    have start := positive elsewhere
    have raised := reading_shifted counts.shifted elsewhere target.plain (stored_of_lookup found)
    change 0 ≤ _ + pending (engine.targetRequests entity .deleted) scope name
    rw [← target.plain.effects elsewhere, takenBack, raised, reading_eq found]
    omega
  · rintro (error | done) after shifts
    · rcases shifts with ⟨bad, member⟩ | ⟨change, member, rises⟩
      · change _ ∈ engine.targetRequests entity .deleted at member
        rw [targetRequests_deleted, List.mem_map] at member
        obtain ⟨request, listed, same⟩ := member
        cases request with
        | error error => exact absurd listed (counts.valid error)
        | ok original => cases same
      · have fall := falling change member
        rw [Amount.lt_iff, Amount.value_zero] at rises
        omega
    · obtain ⟨-, -, sameStored, shifted⟩ := shifts
      refine ⟨rfl, sameStored, ?_⟩
      change _ = (engine.remainder fresh store).shift
        (engine.effects fresh (engine.targetRequests entity .deleted)) at shifted
      rw [shifted, counts.shifted]
      apply Sheet.shift_shift
      intro scope name
      rw [takenBack, add_neg_cancel]

/-- A creation that succeeds enters its entity. -/
theorem ensures_entityCreated_enters {entity : Entity} (weighs : engine.Weighs entity) {store : σ}
    (prepared : engine.Prepared (.created entity) store) :
    Ensures StoreCall.Exact (engine.entityCreated entity) store fun result after =>
      result = .ok ⟨⟩ → engine.Entered entity store after := by
  by_cases isScope : engine.registry.isScopeKind entity.kind = true
  · have isFresh : engine.freshScope entity = some entity := if_pos isScope
    refine ensures_entityCreated_of_steps isScope ((ensures_initializeFields_covered shallow
      (engine.registry.fields entity.kind) (fun _ member => member) prepared.covered).mono ?_)
    rintro _ middle ⟨⟨count, rfl⟩, initializes, initialized⟩
    refine (ensures_applyTargetChange_counts shallow weighs
      (adjustable_of_initialized shallow prepared initializes initialized)).mono ?_
    rintro (error | done) later counts
    · exact fun _ _ => nofun
    · intro _
      have counted := counts rfl
      have unborn : ∀ name, lookup store entity name = none := prepared.unborn rfl
      refine ⟨prepared.covered.mono fun other label present => ?_, middle, ?_, isFresh ▸ counted⟩
      · rw [counted.sameStored]
        exact initializes.kept other label present
      · rw [isFresh, initializes.same, remainder_of_unborn unborn]
  · have isFresh : engine.freshScope entity = none := if_neg isScope
    refine ensures_entityCreated_of_not_isScope isScope ((ensures_applyTargetChange_counts shallow
      weighs (adjustable_of_unscoped prepared isScope)).mono ?_)
    intro result after counts succeeded
    have counted := counts succeeded
    refine ⟨prepared.covered.mono fun other label present => ?_, store, by rw [isFresh],
      isFresh ▸ counted⟩
    rwa [counted.sameStored]

/-- An entity that has entered can leave, and the store is what it was before. -/
theorem ensures_entityDeleted_leaves {entity : Entity} (weighs : engine.Weighs entity)
    {before store : σ} (entered : engine.Entered entity before store) :
    Ensures StoreCall.Exact (engine.entityDeleted entity) store fun result after =>
      result = .ok ⟨⟩ ∧ after = before := by
  obtain ⟨middle, setApart, counted⟩ := entered.counted
  unfold entityDeleted
  refine Action.ensures_bind (fun _ => inferInstance)
    ((ensures_applyTargetChange_uncounts shallow weighs counted).mono ?_)
  rintro _ later ⟨rfl, sameStored, restored⟩
  rw [setApart] at restored
  dsimp only
  by_cases isScope : engine.registry.isScopeKind entity.kind = true
  · have isFresh : engine.freshScope entity = some entity := if_pos isScope
    rw [if_pos isScope]
    have covered : engine.Covered later entity :=
      entered.covered.mono fun other label present => by rwa [sameStored]
    refine (ensures_childDeleted_covered shallow covered).mono ?_
    rintro _ after ⟨rfl, moved⟩
    have removed : engine.remainder none after = engine.remainder none before := by
      rw [remainder_of_withdrawn moved, ← isFresh, restored]
    exact ⟨rfl, eq_of_remainder removed⟩
  · have isFresh : engine.freshScope entity = none := if_neg isScope
    rw [if_neg isScope]
    exact Action.ensures_pure ⟨rfl, eq_of_remainder (isFresh ▸ restored)⟩

/-- Creating an entity and deleting it again leaves no trace. If a prepared creation succeeds and the
entity weighs nothing less than zero, the deletion succeeds as well, and the store is exactly the one
before the creation, as long as no number is cut off. -/
theorem entityDeleted_entityCreated (entity : Entity) (store : σ)
    (prepared : engine.Prepared (.created entity) store) (weighs : engine.Weighs entity)
    (createsExactly : RecordedStore.AllFit StoreCall.Exact
      (Action.history (engine.entityCreated entity) store))
    (created : Action.outcome (engine.entityCreated entity) store = .ok ⟨⟩)
    (deletesExactly : RecordedStore.AllFit StoreCall.Exact
      (Action.history (engine.entityDeleted entity)
        (Action.after (engine.entityCreated entity) store))) :
    Action.outcome (engine.entityDeleted entity)
        (Action.after (engine.entityCreated entity) store) = .ok ⟨⟩ ∧
      Action.after (engine.entityDeleted entity)
        (Action.after (engine.entityCreated entity) store) = store := by
  have entered := (ensures_entityCreated_enters shallow weighs prepared).of_allFit
    (RecordedStore.answersAlike.entityCreated engine entity) createsExactly created
  exact (ensures_entityDeleted_leaves shallow weighs entered).of_allFit
    (RecordedStore.answersAlike.entityDeleted engine entity) deletesExactly

end Engine

section Sample

/-- An organization counts its teams and sums their limits of storage and their usages of seats. -/
def openRegistry (limit : Amount) : Registry where
  registrations :=
    [⟨"organization", sampleSum "storage" .limit⟩, ⟨"organization", sampleSum "seats" .usage⟩,
      ⟨"organization", { teamCounter with defaultLimit := .constant 5 }⟩,
      ⟨"team", { name := "storage", defaultLimit := .constant limit }⟩,
      ⟨"team", { name := "seats", defaultUsage := .constant 2 }⟩]
  distinct := by
    change [("organization", "storage"), ("organization", "seats"), ("organization", "teams"),
      ("team", "storage"), ("team", "seats")].Nodup
    decide

/-- The open registry is used with the sample graph. -/
def openEngine (limit : Amount) : Engine := ⟨openRegistry limit, sampleGraph⟩

/-- The sums of this store have drifted away from the teams that exist. -/
def driftedStore : MemoryStore :=
  ((MemoryStore.empty.put sampleOrganization "storage" ⟨.unlimited, 0⟩).put sampleOrganization
    "seats" ⟨.unlimited, 7⟩).put sampleOrganization "teams" ⟨5, 3⟩

/-- All sums of the organization are stored. -/
theorem covered_driftedStore (limit : Amount) (scope : Entity) :
    (openEngine limit).Covered driftedStore scope := by
  apply Engine.covered_of_stored
  have parents : ∀ child ∈ sampleGraph.nodes.keys, ∀ parent ∈ sampleGraph.quotaParents child,
      parent = sampleOrganization := by decide +kernel
  intro child isNode parent hop field registered sums _
  obtain rfl := parents child isNode parent hop
  have fields : (openRegistry limit).fields sampleOrganization.kind =
      [sampleSum "storage" .limit, sampleSum "seats" .usage,
        { teamCounter with defaultLimit := .constant 5 }] := rfl
  have present : ∀ name ∈ ["storage", "seats", "teams"],
      stored driftedStore sampleOrganization name = true := by decide +kernel
  apply present
  have names : [sampleSum "storage" .limit, sampleSum "seats" .usage,
      { teamCounter with defaultLimit := .constant 5 }].map Field.name =
        ["storage", "seats", "teams"] := rfl
  rw [← names, ← fields]
  exact List.mem_map_of_mem registered

/-- The store is prepared for the creation of the team, which has no records yet. -/
theorem prepared_driftedStore (limit : Amount) :
    (openEngine limit).Prepared (.created sampleTeam) driftedStore where
  unborn _ name := by
    change MemoryStore.lookup _ _ _ = _
    have elsewhere : sampleOrganization ≠ sampleTeam := by decide
    simp [driftedStore, MemoryStore.lookup_put, elsewhere, EntityEvent.entity]
  covered := covered_driftedStore limit sampleTeam
  targets scope name targets elsewhere := by
    obtain ⟨registration, member, kinds, path, rule, resolved, -, -, rfl⟩ := targets
    have targeting : (openRegistry limit).targeting sampleTeam.kind =
        [⟨"organization", { teamCounter with defaultLimit := .constant 5 }⟩] := rfl
    obtain rfl := List.mem_singleton.1 (targeting ▸ member)
    obtain ⟨rfl, rfl⟩ := Prod.mk.inj (Option.some.inj rule)
    have owner : sampleGraph.resolve sampleTeam sampleToOrganization =
        some sampleOrganization := by decide +kernel
    obtain rfl := Option.some.inj (owner.symm.trans resolved)
    exact ⟨⟨⟨5, 3⟩, by decide +kernel, by decide⟩, covered_driftedStore limit sampleOrganization⟩

/-- The team counts as one. -/
theorem weighs_openEngine (limit : Amount) : (openEngine limit).Weighs sampleTeam := by
  intro registration member
  have targeting : (openRegistry limit).targeting sampleTeam.kind =
      [⟨"organization", { teamCounter with defaultLimit := .constant 5 }⟩] := rfl
  obtain rfl := List.mem_singleton.1 (targeting ▸ member)
  change 0 ≤ (1 : Amount).value
  decide

/-- The team reaches the sums and the counter of its organization, and is taken from all of them. -/
theorem entityDeleted_entityCreated_sample :
    Action.after ((openEngine 10).entityCreated sampleTeam) driftedStore ≠ driftedStore ∧
      Action.after ((openEngine 10).entityDeleted sampleTeam)
        (Action.after ((openEngine 10).entityCreated sampleTeam) driftedStore) = driftedStore := by
  have created : Action.outcome ((openEngine 10).entityCreated sampleTeam) driftedStore = .ok ⟨⟩ := by
    decide +kernel
  constructor
  · intro same
    have counted : (Action.after ((openEngine 10).entityCreated sampleTeam) driftedStore).lookup
        sampleOrganization "teams" = some ⟨5, 4⟩ := by decide +kernel
    rw [same] at counted
    revert counted
    decide +kernel
  · exact (Engine.entityDeleted_entityCreated shallow_sampleGraph sampleTeam driftedStore
      (prepared_driftedStore 10) (weighs_openEngine 10) (by decide +kernel) created
      (by decide +kernel)).2

/-- Exact sums alone are not enough. The least amount has no negative, so a limit of that amount leaves
a trace in the sum over it. -/
theorem entityDeleted_not_entityCreated :
    ¬ ∀ (engine : Engine) (entity : Entity) (store : MemoryStore), engine.graph.Shallow →
      engine.Prepared (.created entity) store → engine.Weighs entity →
      RecordedStore.AllFit StoreCall.AddsExactly
        (Action.history (engine.entityCreated entity) store) →
      Action.outcome (engine.entityCreated entity) store = .ok ⟨⟩ →
      RecordedStore.AllFit StoreCall.AddsExactly (Action.history (engine.entityDeleted entity)
        (Action.after (engine.entityCreated entity) store)) →
      Action.after (engine.entityDeleted entity)
        (Action.after (engine.entityCreated entity) store) = store := by
  intro claimed
  let least := Amount.clamp (-9223372036854775808)
  have restored := claimed (openEngine least) sampleTeam driftedStore shallow_sampleGraph
    (prepared_driftedStore least) (weighs_openEngine least) (by decide +kernel) (by decide +kernel)
    (by decide +kernel)
  have trace : (Action.after ((openEngine least).entityDeleted sampleTeam)
      (Action.after ((openEngine least).entityCreated sampleTeam) driftedStore)).lookup
        sampleOrganization "storage" = some ⟨.unlimited, -1⟩ := by decide +kernel
  rw [restored] at trace
  revert trace
  decide +kernel

end Sample

end HierarchicalQuota
