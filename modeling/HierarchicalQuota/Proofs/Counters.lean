import HierarchicalQuota.Proofs.Initialization
import HierarchicalQuota.Proofs.Tally

namespace HierarchicalQuota

open HierarchicalQuota.Action (Ensures)
open LawfulStore (lookup put drop)

variable {σ : Type} [QuotaStore σ] [LawfulStore σ]

/-- A usage reads as a number, zero where it has no record, and it has one where that is needed. -/
structure ReadsAs (scope : Entity) (name : String) (needed : Prop) (number : Int) (store : σ) :
    Prop where
  present : needed → stored store scope name = true
  number : reading store scope name .usage = number

section ReadsAs

variable {scope place : Entity} {name label : String} {needed : Prop} {number : Int} {store : σ}

/-- A number that is read is not greater than the greatest amount. -/
theorem ReadsAs.le (reads : ReadsAs scope name needed number store) :
    number ≤ 9223372036854775807 := by
  rw [← reads.number]
  cases found : lookup store scope name with
  | none =>
      rw [reading_of_none found]
      decide
  | some quota =>
      rw [reading_eq found]
      exact quota.usage.upper

/-- Only the record itself matters to what is read. -/
theorem ReadsAs.of_lookup {after : σ} (reads : ReadsAs scope name needed number store)
    (same : lookup after scope name = lookup store scope name) :
    ReadsAs scope name needed number after where
  present isNeeded := by
    rw [stored, same]
    exact reads.present isNeeded
  number := by
    rw [reading, same]
    exact reads.number

/-- A write of another record does not change what is read. -/
theorem ReadsAs.put_other (reads : ReadsAs scope name needed number store)
    (other : ¬ (place = scope ∧ label = name)) (quota : Quota) :
    ReadsAs scope name needed number (put store place label quota) :=
  reads.of_lookup (by rw [LawfulStore.lookup_put, if_neg other])

/-- A usage is read as it was written. -/
theorem reads_put_self (store : σ) (scope : Entity) (name : String) (quota : Quota) :
    ReadsAs scope name needed quota.usage.value (put store scope name quota) := by
  have written : lookup (put store scope name quota) scope name = some quota := by
    rw [LawfulStore.lookup_put, if_pos ⟨rfl, rfl⟩]
  exact ⟨fun _ => stored_of_lookup written, reading_eq written⟩

end ReadsAs

namespace Engine

variable {engine : Engine} {fit : StoreCall → σ → Prop} {scope : Entity} {field : Field}
  {needed : Prop} {number : Int} {store : σ}
  (registered : field ∈ engine.registry.fields scope.kind) (targets : field.targets?.isSome)

include registered targets

/-- What spreads upwards moves aggregates, and a counter is none. -/
theorem spreads_reads :
    engine.Spreads fit (fun _ _ => True) (ReadsAs scope field.name needed number : σ → Prop) := by
  have other : ∀ {aggregate}, engine.Meets (fun _ _ => True) aggregate →
      ¬ (aggregate.scope = scope ∧ aggregate.field.name = field.name) := by
    intro aggregate meets same
    have plain := plain_of_targets registered targets
    rw [← same.1] at plain
    exact plain.ne_name aggregate.field meets.hasAggregate same.2
  constructor
  · exact fun meets reads _ _ => ⟨reads.put_other (other meets) _, fun _ => trivial⟩
  · exact fun meets reads _ _ => ⟨reads.put_other (other meets) _, trivial⟩

variable (regular : field.Regular)

include regular

/-- A new record reads as zero if it is that of the counter. -/
theorem reads_put_starting {place : Entity} {other : Field}
    (otherRegistered : other ∈ engine.registry.fields place.kind)
    (absent : lookup store place other.name = none)
    (reads : ReadsAs scope field.name needed number store) :
    ReadsAs scope field.name needed number
      (put store place other.name (engine.starting store place other)) := by
  by_cases own : place = scope ∧ other.name = field.name
  · obtain ⟨rfl, sameName⟩ := own
    obtain rfl := Registry.eq_of_name_eq otherRegistered registered sameName
    have idle : (engine.starting store place other).usage.value = number := by
      rw [← reads.number, reading_of_none absent,
        starting_of_plain store place (aggregator?_of_targets targets), Field.initial,
        regular.idle targets, Amount.value_zero]
    rw [← idle]
    exact reads_put_self store place other.name _
  · exact reads.put_other own _

/-- The creation of any record leaves the counter as it reads. -/
theorem ensures_getOrCreate_reads {place : Entity} {name : String}
    (reads : ReadsAs scope field.name needed number store) :
    Ensures fit (engine.getOrCreate place name) store fun _ after =>
      ReadsAs scope field.name needed number after := by
  by_cases available : engine.Available place name
  · obtain ⟨other, known, connected⟩ := available
    obtain ⟨otherRegistered, rfl⟩ := Registry.field?_eq_some_iff.1 known
    refine (ensures_getOrCreate_kept (spreads_reads registered targets) otherRegistered connected
      (fun _ _ => reads) fun absent _ => ⟨?_, trivial⟩).mono fun _ _ kept => kept.1
    exact reads_put_starting registered targets regular otherRegistered absent reads
  · refine (ensures_getOrCreate_unavailable available).mono ?_
    intro result after ⟨same, _⟩
    exact same ▸ reads

/-- An applied change adds its amount to the counter that it is for, as long as this stays within the
range of amounts that are not negative. -/
theorem ensures_applyDelta_reads {place : Entity} {name : String} {delta : Amount}
    (inRange : place = scope → name = field.name →
      0 ≤ number + delta.value ∧ number + delta.value ≤ 9223372036854775807)
    (reads : ReadsAs scope field.name needed number store) :
    Ensures fit (engine.applyDelta place name delta true) store fun result after =>
      ∀ amount, result = .ok amount → ReadsAs scope field.name needed
        (number + if place = scope ∧ name = field.name then delta.value else 0) after := by
  apply ensures_applyDelta_of_steps
  · intro zero _ _
    rw [zero, Amount.value_zero, ite_self, add_zero]
    exact reads
  intro _
  refine (ensures_getOrCreate_reads registered targets regular reads).mono ?_
  intro result middle readsMiddle
  cases result with
  | error error => exact fun _ => nofun
  | ok quota =>
      refine Action.ensures_addUsage (fun stored found _ _ => ?_) (fun _ _ _ _ _ => nofun)
        fun _ _ => nofun
      have written : ReadsAs scope field.name needed
          (number + if place = scope ∧ name = field.name then delta.value else 0)
          (put middle place name { stored with usage := max (stored.usage + delta) 0 }) := by
        by_cases own : place = scope ∧ name = field.name
        · obtain ⟨rfl, rfl⟩ := own
          have range := inRange rfl rfl
          have now : stored.usage.value = number := (reading_eq found).symm.trans readsMiddle.number
          have sum : (max (stored.usage + delta) 0).value = number + delta.value := by
            rw [Amount.value_max, Amount.value_add, Amount.value_zero]
            omega
          rw [if_pos ⟨rfl, rfl⟩, ← sum]
          exact reads_put_self middle place field.name
            { stored with usage := max (stored.usage + delta) 0 }
        · rw [if_neg own, add_zero]
          exact readsMiddle.put_other own _
      refine (ensures_childChanged_kept (spreads_reads registered targets) .usage
        (fun _ => trivial) written).mono ?_
      intro result after kept amount _
      exact kept.1

/-- A batch that is applied as a whole adds all that is pending for the counter, if its requests for
the counter are all increases or all decreases. -/
theorem ensures_applyAll_reads {requests : List (Except QuotaError Change)}
    (oneSign : (∀ change, .ok change ∈ requests → change.scope = scope →
        change.name = field.name → 0 ≤ change.amount.value) ∨
      ∀ change, .ok change ∈ requests → change.scope = scope →
        change.name = field.name → change.amount.value ≤ 0)
    (floor : 0 ≤ number)
    (inRange : 0 ≤ number + pending requests scope field.name ∧
      number + pending requests scope field.name ≤ 9223372036854775807)
    (applied : List Change) (reads : ReadsAs scope field.name needed number store) :
    Ensures fit (engine.applyAll true requests applied) store fun result after =>
      result = .ok ⟨⟩ →
        ReadsAs scope field.name needed (number + pending requests scope field.name) after := by
  induction requests generalizing number applied store with
  | nil =>
      apply Action.ensures_pure
      intro _
      rw [pending_nil, add_zero]
      exact reads
  | cons request requests inductionHypothesis =>
      have failed {error : QuotaError} {middle : σ} :
          Ensures fit (engine.compensate applied) middle fun _ after =>
            (.error error : Except QuotaError Unit) = .ok ⟨⟩ → ReadsAs scope field.name needed
              (number + pending (request :: requests) scope field.name) after :=
        (ensures_compensate_ok applied).mono fun _ _ _ => nofun
      apply ensures_applyAll_of_steps
      cases request with
      | error error => exact failed
      | ok change =>
          have ceiling := reads.le
          obtain ⟨part, isPart⟩ : ∃ part, part = if change.scope = scope ∧
              change.name = field.name then change.amount.value else 0 := ⟨_, rfl⟩
          rw [pending_cons_ok, ← isPart] at inRange
          -- The number lies between those before and after the whole batch.
          have sameSign : (0 ≤ part ∧ 0 ≤ pending requests scope field.name) ∨
              (part ≤ 0 ∧ pending requests scope field.name ≤ 0) := by
            rw [isPart]
            rcases oneSign with rising | falling
            · left
              constructor
              · split
                · rename_i own
                  exact rising change List.mem_cons_self own.1 own.2
                · exact le_rfl
              · exact pending_nonneg fun other member => rising other (List.mem_cons_of_mem _ member)
            · right
              constructor
              · split
                · rename_i own
                  exact falling change List.mem_cons_self own.1 own.2
                · exact le_rfl
              · exact pending_nonpos fun other member => falling other (List.mem_cons_of_mem _ member)
          have inside : 0 ≤ number + part ∧ number + part ≤ 9223372036854775807 := by omega
          refine (ensures_applyDelta_reads registered targets regular (fun isScope isName => ?_)
            reads).mono ?_
          · rwa [isPart, if_pos ⟨isScope, isName⟩] at inside
          rw [← isPart]
          intro result middle applies
          cases result with
          | error error => exact failed
          | ok amount =>
              refine (inductionHypothesis
                (oneSign.imp
                  (fun rising other member => rising other (List.mem_cons_of_mem _ member))
                  fun falling other member => falling other (List.mem_cons_of_mem _ member))
                inside.1 (by omega) _ (applies amount rfl)).mono ?_
              intro result after rest isDone
              rw [pending_cons_ok, ← isPart, ← add_assoc]
              exact rest isDone

omit targets regular in
/-- All requests of an event for one counter have the amount that its field asks for. -/
theorem amount_of_mem {entity : Entity} {change : TargetChange} {request : Change}
    (member : .ok request ∈ (engine.registry.targeting entity.kind).filterMap
      (engine.targetRequest? entity change))
    (isScope : request.scope = scope) (isName : request.name = field.name) :
    request.amount = change.delta field entity engine.graph := by
  obtain ⟨registration, listed, asks⟩ := List.mem_filterMap.1 member
  obtain ⟨sameKind, sameName, amount⟩ := parts_of_targetRequest? asks
  have own : registration.field ∈ engine.registry.fields scope.kind := by
    refine List.mem_map.2 ⟨registration, List.mem_filter.2
      ⟨Registry.mem_registrations_of_targeting listed, decide_eq_true ?_⟩, rfl⟩
    rw [← sameKind, isScope]
  rw [amount, Registry.eq_of_name_eq own registered (sameName.symm.trans isName)]

end Engine

namespace Engine

variable {engine : Engine} {fit : StoreCall → σ → Prop} {scope : Entity} {field : Field}
  {needed : Prop} {number : Int} {store : σ} {entity : Entity}
  (allRegular : engine.registry.Regular) (registered : field ∈ engine.registry.fields scope.kind)
  (targets : field.targets?.isSome) (floor : 0 ≤ number)

include allRegular registered targets floor

/-- An accepted event adds to a counter what its entity contributes. What changes at other scopes,
cut off or not, never reaches a counter. -/
theorem ensures_applyTargetChange_reads {change : TargetChange}
    (inRange : 0 ≤ number + field.contribution scope engine.graph entity
        (change.delta field entity engine.graph).value ∧
      number + field.contribution scope engine.graph entity
        (change.delta field entity engine.graph).value ≤ 9223372036854775807)
    (reads : ReadsAs scope field.name needed number store) :
    Ensures fit (engine.applyTargetChange entity change) store fun result after =>
      result = .ok ⟨⟩ → ReadsAs scope field.name needed
        (number + field.contribution scope engine.graph entity
          (change.delta field entity engine.graph).value) after := by
  rw [← pending_targeting allRegular entity change registered] at inRange ⊢
  refine ensures_applyAll_reads registered targets (allRegular.of_mem_fields registered) ?_ floor
    inRange [] reads
  rcases le_total 0 (change.delta field entity engine.graph).value with rises | falls
  · left
    intro request member isScope isName
    rwa [amount_of_mem registered member isScope isName]
  · right
    intro request member isScope isName
    rwa [amount_of_mem registered member isScope isName]

/-- An accepted creation adds what the new entity contributes, and a new scope has its counter. -/
theorem ensures_entityCreated_reads
    (inRange : 0 ≤ number + field.contribution scope engine.graph entity
        (field.weight entity engine.graph).value ∧
      number + field.contribution scope engine.graph entity
        (field.weight entity engine.graph).value ≤ 9223372036854775807)
    (reads : ReadsAs scope field.name needed number store) :
    Ensures fit (engine.entityCreated entity) store fun result after =>
      result = .ok ⟨⟩ → ReadsAs scope field.name (scope = entity ∨ needed)
        (number + field.contribution scope engine.graph entity
          (field.weight entity engine.graph).value) after := by
  have regular := allRegular.of_mem_fields registered
  by_cases isScope : engine.registry.isScopeKind entity.kind = true
  · have initialized : Ensures fit (engine.initializeScope entity) store fun result after =>
        ∀ count, result = .ok count →
          ReadsAs scope field.name (scope = entity ∨ needed) number after := by
      have spreads : engine.Spreads fit (fun _ _ => True)
          (ReadsAs scope field.name needed number : σ → Prop) := spreads_reads registered targets
      have kept := ensures_initializeFields_kept spreads entity (engine.registry.fields entity.kind)
        (fun other member middle readsMiddle absent _ => ⟨reads_put_starting registered targets
          regular member absent readsMiddle, trivial⟩) reads
      refine (kept.and (ensures_initializeFields_stored _ store)).mono ?_
      intro result after ⟨⟨readsAfter, _⟩, _, present⟩ count isCount
      refine ⟨?_, readsAfter.number⟩
      rintro (rfl | isNeeded)
      · exact present count isCount field registered (regular.isConnected scope engine.graph)
      · exact readsAfter.present isNeeded
    refine ensures_entityCreated_of_steps isScope (initialized.mono ?_)
    intro result middle counts
    cases result with
    | error error => exact nofun
    | ok count =>
        refine (ensures_applyTargetChange_reads allRegular registered targets floor inRange
          (counts count rfl)).mono ?_
        intro result later adds
        cases result with
        | error error => exact fun _ _ => nofun
        | ok done => exact adds
  · refine ensures_entityCreated_of_not_isScope isScope ((ensures_applyTargetChange_reads allRegular
      registered targets floor inRange reads).mono ?_)
    intro result after adds isDone
    have readsAfter := adds isDone
    refine ⟨?_, readsAfter.number⟩
    rintro (rfl | isNeeded)
    · exact absurd (Registry.isScopeKind_of_mem_fields registered) isScope
    · exact readsAfter.present isNeeded

/-- An accepted deletion takes away what the entity contributed, and the counter of a deleted scope
reads as zero. -/
theorem ensures_entityDeleted_reads (heavy : 0 ≤ (field.weight entity engine.graph).value)
    (enough : field.contribution scope engine.graph entity
      (field.weight entity engine.graph).value ≤ number)
    (reads : ReadsAs scope field.name needed number store) :
    Ensures fit (engine.entityDeleted entity) store fun result after =>
      result = .ok ⟨⟩ → ReadsAs scope field.name (needed ∧ scope ≠ entity)
        (if scope = entity then 0 else number - field.contribution scope engine.graph entity
          (field.weight entity engine.graph).value) after := by
  have taken : field.contribution scope engine.graph entity
      (TargetChange.deleted.delta field entity engine.graph).value =
        -field.contribution scope engine.graph entity (field.weight entity engine.graph).value := by
    rw [← Field.contribution_neg, ← Amount.value_neg_of_nonneg heavy]
    rfl
  have positive := Field.contribution_nonneg field scope engine.graph entity heavy
  have ceiling := reads.le
  refine Action.ensures_bind (fun _ => inferInstance)
    ((ensures_applyTargetChange_reads allRegular registered targets floor
      (by rw [taken]; omega) reads).mono ?_)
  intro result middle adds
  cases result with
  | error error => exact nofun
  | ok done =>
      have lowered := adds rfl
      rw [taken, ← sub_eq_add_neg] at lowered
      dsimp only
      -- The entity may be the scope of the counter, whose record is then removed.
      by_cases own : scope = entity
      · subst own
        rw [if_pos (Registry.isScopeKind_of_mem_fields registered), if_pos rfl]
        have spreads : engine.Spreads fit (fun _ _ => True)
            (ReadsAs scope field.name (needed ∧ scope ≠ scope) 0 : σ → Prop) :=
          spreads_reads registered targets
        refine (ensures_childDeleted_kept spreads (fun _ => trivial) fun _ => ?_).mono
          fun _ _ kept _ => kept.1
        exact ⟨fun absurdity => absurd rfl absurdity.2, reading_of_none
          (by rw [LawfulStore.lookup_drop, if_pos rfl]) .usage⟩
      · rw [if_neg own]
        have weaker : ReadsAs scope field.name (needed ∧ scope ≠ entity) (number -
            field.contribution scope engine.graph entity (field.weight entity engine.graph).value)
            middle := ⟨fun isNeeded => lowered.present isNeeded.1, lowered.number⟩
        split
        · have spreads : engine.Spreads fit (fun _ _ => True) (ReadsAs scope field.name
              (needed ∧ scope ≠ entity) (number - field.contribution scope engine.graph entity
                (field.weight entity engine.graph).value) : σ → Prop) :=
            spreads_reads registered targets
          refine (ensures_childDeleted_kept spreads (fun _ => trivial) fun _ => ?_).mono
            fun _ _ kept _ => kept.1
          exact weaker.of_lookup (by rw [LawfulStore.lookup_drop, if_neg (Ne.symm own)])
        · exact Action.ensures_pure fun _ => weaker

/-- A changed attribute that the field does not track leaves its usage alone. -/
theorem ensures_attributeChanged_reads {name : String}
    (untracked : field.trackedAttribute? ≠ some name) (old new : Amount) (reads : ReadsAs scope field.name needed number store) :
    Ensures fit (engine.attributeChanged entity name old new) store fun result after =>
      result = .ok ⟨⟩ → ReadsAs scope field.name needed number after := by
  have ceiling := reads.le
  have idle : field.contribution scope engine.graph entity
      ((TargetChange.attributeChanged name (new - old)).delta field entity engine.graph).value =
        0 := by
    rw [TargetChange.delta, if_neg untracked]
    exact field.contribution_zero scope engine.graph entity
  unfold attributeChanged
  split
  · exact Action.ensures_pure fun _ => reads
  · have counted : Ensures fit (engine.applyTargetChange entity
        (.attributeChanged name (new - old))) store _ :=
      ensures_applyTargetChange_reads allRegular registered targets floor
        (by rw [idle]; omega) reads
    rw [idle, add_zero] at counted
    exact counted

end Engine

end HierarchicalQuota
