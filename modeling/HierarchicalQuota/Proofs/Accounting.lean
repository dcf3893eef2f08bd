import HierarchicalQuota.Proofs.Operations
import HierarchicalQuota.Proofs.Spreading

namespace HierarchicalQuota

open HierarchicalQuota.Action (Ensures Yields)
open LawfulStore (lookup put)

variable {σ : Type} [QuotaStore σ] [LawfulStore σ]

namespace Engine

variable {engine : Engine} {fit : StoreCall → σ → Prop}

section Notice

/-- A measure is noticed if every aggregate over it is stored or has been found missing. -/
def Noticed (engine : Engine) (store : σ) (missing : List Aggregate) (child : Entity)
    (quota : String) (measure : Measure) : Prop :=
  ∀ aggregate ∈ engine.aggregatesOver child quota measure,
    stored store aggregate.scope aggregate.field.name = true ∨ aggregate ∈ missing

/-- What is noticed stays noticed when more records are stored and more are found missing. -/
theorem Noticed.mono {before after : σ} {missing more : List Aggregate} {child : Entity}
    {quota : String} {measure : Measure} (noticed : engine.Noticed before missing child quota measure)
    (kept : ∀ scope name, stored before scope name = true → stored after scope name = true)
    (found : missing ⊆ more) : engine.Noticed after more child quota measure :=
  fun aggregate listed =>
    (noticed aggregate listed).imp (kept _ _) fun member => found member

/-- A walk takes notice of its changes if it loses no record and every measure that it has changed is
noticed. -/
structure TakesNotice (engine : Engine) (before after : σ) (missing : List Aggregate) : Prop where
  kept : ∀ scope name, stored before scope name = true → stored after scope name = true
  noticed (child : Entity) (quota : String) (measure : Measure) :
    reading after child quota measure ≠ reading before child quota measure →
    engine.Noticed after missing child quota measure

/-- Where nothing is done, nothing has to be noticed. -/
theorem TakesNotice.refl (store : σ) (missing : List Aggregate) :
    engine.TakesNotice store store missing :=
  ⟨fun _ _ present => present, fun _ _ _ changed => absurd rfl changed⟩

/-- Two walks one after the other take notice of what either of them has changed. -/
theorem TakesNotice.trans {before middle after : σ} {missing others : List Aggregate}
    (first : engine.TakesNotice before middle missing)
    (second : engine.TakesNotice middle after others) :
    engine.TakesNotice before after (missing ++ others) := by
  refine ⟨fun scope name present => second.kept scope name (first.kept scope name present), ?_⟩
  intro child quota measure changed
  by_cases later : reading after child quota measure = reading middle child quota measure
  · rw [later] at changed
    exact (first.noticed child quota measure changed).mono second.kept
      (List.subset_append_left _ _)
  · exact (second.noticed child quota measure later).mono (fun _ _ present => present)
      (List.subset_append_right _ _)

/-- A list of aggregates is shifted. Those without a record are reported, and the only measures that
change are the usages of aggregates that have moved. -/
theorem ensures_shiftAll_notices (delta : Amount) (aggregates : List Aggregate) (store : σ) :
    Ensures fit (shiftAll delta aggregates) store fun result after => ∃ wave, result = .ok wave ∧
      stored after = stored store ∧
      (∀ aggregate ∈ aggregates, stored store aggregate.scope aggregate.field.name = true ∨
        aggregate ∈ wave.missing) ∧
      ∀ child quota measure,
        reading after child quota measure ≠ reading store child quota measure →
        measure = .usage ∧ ∃ entry ∈ wave.moved, entry.2 ≠ 0 ∧ entry.1.scope = child ∧
          entry.1.field.name = quota := by
  induction aggregates generalizing store with
  | nil => exact Action.ensures_pure ⟨_, rfl, rfl, by simp, fun _ _ _ changed => absurd rfl changed⟩
  | cons aggregate rest inductionHypothesis =>
      unfold shiftAll
      refine Action.ensures_bind (fun result => ?_) (Action.ensures_attempt
        (Action.ensures_shiftUsage (fun quota found _ => ?_) fun absent => ?_))
      · rcases result with (_ | _ | _ | _) | (_ | _) <;> infer_instance
      · refine Action.ensures_bind (fun _ => inferInstance) ((inductionHypothesis _).mono ?_)
        rintro _ after ⟨wave, rfl, sameStored, missing, moved⟩
        have present : stored store aggregate.scope aggregate.field.name = true :=
          stored_of_lookup found
        have still : stored (put store aggregate.scope aggregate.field.name
            { quota with usage := quota.usage + delta }) = stored store :=
          (Moved.of_put found (quota.usage + delta)).stored_eq
        refine Action.ensures_pure ⟨_, rfl, sameStored.trans still, ?_, ?_⟩
        · rw [still] at missing
          exact List.forall_mem_cons.2 ⟨.inl present, missing⟩
        intro child label measure changed
        by_cases later : reading after child label measure = reading (put store aggregate.scope
            aggregate.field.name { quota with usage := quota.usage + delta }) child label measure
        · rw [later, reading, LawfulStore.lookup_put] at changed
          split at changed
          · rename_i same
            rw [← same.1, ← same.2, reading_of_some found] at changed
            cases measure with
            | usage =>
                refine ⟨rfl, _, List.mem_cons_self, ?_, same.1, same.2⟩
                exact Amount.sub_ne_zero fun equal => changed (by simp [Quota.value, equal])
            | limit => exact absurd rfl changed
          · exact absurd rfl changed
        · obtain ⟨isUsage, entry, member, shifted⟩ := moved child label measure later
          exact ⟨isUsage, entry, List.mem_cons_of_mem _ member, shifted⟩
      · refine Action.ensures_bind (fun _ => inferInstance) ((inductionHypothesis store).mono ?_)
        rintro _ after ⟨wave, rfl, sameStored, missing, moved⟩
        refine Action.ensures_pure ⟨_, rfl, sameStored, ?_, moved⟩
        exact List.forall_mem_cons.2 ⟨.inr List.mem_cons_self,
          fun other member => (missing other member).imp_right (List.mem_cons_of_mem _)⟩

/-- What a change has spread to is noticed, and so is the measure that it has spread from. -/
def Notices (engine : Engine) (child : Entity) (quota : String) (measure : Measure) (delta : Amount)
    (before : σ) (result : Except QuotaError (List Aggregate)) (after : σ) : Prop :=
  stored after = stored before ∧ Yields (fun missing => engine.TakesNotice before after missing ∧
    (delta ≠ 0 → engine.Noticed after missing child quota measure)) True result

/-- Every aggregate that has moved passes its own change on, and each of these changes is noticed. -/
theorem ensures_collect_notices {levels : Nat}
    (each : ∀ (child : Entity) (quota : String) (measure : Measure) (delta : Amount) (store : σ),
      Ensures fit (engine.propagate levels child quota measure delta) store
        (engine.Notices child quota measure delta store))
    (entries : List (Aggregate × Amount)) (store : σ) :
    Ensures fit (Action.collect (fun entry =>
        engine.propagate levels entry.1.scope entry.1.field.name .usage entry.2) entries) store
      fun result after => stored after = stored store ∧
        Yields (fun missing => engine.TakesNotice store after missing ∧
          ∀ entry ∈ entries, entry.2 ≠ 0 →
            engine.Noticed after missing entry.1.scope entry.1.field.name .usage) True result := by
  induction entries generalizing store with
  | nil => exact Action.ensures_pure ⟨rfl, .refl store [], by simp⟩
  | cons entry entries inductionHypothesis =>
      unfold Action.collect
      refine Action.ensures_bind (fun _ => inferInstance) ((each _ _ _ _ store).mono ?_)
      rintro (error | first) middle ⟨sameMiddle, notices⟩
      · exact ⟨sameMiddle, trivial⟩
      refine Action.ensures_bind (fun _ => inferInstance) ((inductionHypothesis middle).mono ?_)
      rintro (error | others) after ⟨sameAfter, noticesOthers⟩
      · exact ⟨sameAfter.trans sameMiddle, trivial⟩
      obtain ⟨takesFirst, noticedFirst⟩ := notices
      obtain ⟨takesOthers, noticedOthers⟩ := noticesOthers
      refine Action.ensures_pure ⟨sameAfter.trans sameMiddle, takesFirst.trans takesOthers,
        List.forall_mem_cons.2 ⟨fun nonzero => ?_, fun other member nonzero => ?_⟩⟩
      · exact (noticedFirst nonzero).mono takesOthers.kept (List.subset_append_left _ _)
      · exact (noticedOthers other member nonzero).mono (fun _ _ present => present)
          (List.subset_append_right _ _)

/-- A change is noticed level by level, and the induction is on the levels that are left. -/
theorem ensures_propagate_notices (levels : Nat) (child : Entity) (quota : String)
    (measure : Measure) (delta : Amount) (store : σ) :
    Ensures fit (engine.propagate levels child quota measure delta) store
      (engine.Notices child quota measure delta store) := by
  induction levels generalizing child quota measure delta store with
  | zero =>
      unfold propagate
      split
      · rename_i zero
        exact Action.ensures_pure ⟨rfl, .refl store [], fun nonzero => absurd zero nonzero⟩
      · exact Action.ensures_throw ⟨rfl, trivial⟩
  | succ levels inductionHypothesis =>
      unfold propagate
      split
      · rename_i zero
        exact Action.ensures_pure ⟨rfl, .refl store [], fun nonzero => absurd zero nonzero⟩
      refine Action.ensures_bind (fun _ => inferInstance)
        ((ensures_shiftAll_notices delta _ store).mono ?_)
      rintro _ middle ⟨wave, rfl, sameMiddle, missing, moved⟩
      refine Action.ensures_bind (fun _ => inferInstance)
        ((ensures_collect_notices inductionHypothesis wave.moved.reverse middle).mono ?_)
      rintro (error | others) after ⟨sameAfter, notices⟩
      · exact ⟨sameAfter.trans sameMiddle, trivial⟩
      obtain ⟨takes, passedOn⟩ := notices
      have same : stored after = stored store := sameAfter.trans sameMiddle
      refine Action.ensures_pure ⟨same, ⟨fun scope name present => same ▸ present, ?_⟩,
        fun _ aggregate listed => ?_⟩
      · intro other label sort changed
        by_cases later : reading after other label sort = reading middle other label sort
        · rw [later] at changed
          obtain ⟨rfl, entry, member, nonzero, rfl, rfl⟩ := moved other label sort changed
          exact (passedOn entry (List.mem_reverse.2 member) nonzero).mono
            (fun _ _ present => present) (List.subset_append_right _ _)
        · exact (takes.noticed other label sort later).mono (fun _ _ present => present)
            (List.subset_append_right _ _)
      · rw [same]
        exact (missing aggregate listed).imp_right (List.mem_append_left _)

end Notice

section Accounted

/-- All amounts are accounted for if every measure that is not zero is noticed, apart from aggregates
that are still to be created, and if all records are of registered fields. -/
structure Accounted (engine : Engine) (pending : List Aggregate) (store : σ) : Prop where
  registered : engine.Registered store
  noticed (child : Entity) (quota : String) (measure : Measure) :
    reading store child quota measure ≠ 0 → engine.Noticed store pending child quota measure

/-- An aggregate that is stored need not be created. -/
theorem Accounted.reduce {pending fewer : List Aggregate} {store : σ}
    (accounted : engine.Accounted pending store)
    (kept : ∀ aggregate ∈ pending, stored store aggregate.scope aggregate.field.name = true ∨
      aggregate ∈ fewer) : engine.Accounted fewer store :=
  ⟨accounted.registered, fun child quota measure nonzero aggregate listed =>
    (accounted.noticed child quota measure nonzero aggregate listed).elim .inl (kept aggregate)⟩

/-- Amounts stay accounted for if a record is written, and if its own changes are noticed and all
changes that follow. -/
theorem Accounted.of_written {pending missing : List Aggregate} {scope : Entity} {name : String}
    {quota : Quota} {before after : σ} (accounted : engine.Accounted pending before)
    (known : (engine.registry.field? scope.kind name).isSome)
    (takes : engine.TakesNotice (put before scope name quota) after missing)
    (frame : Frame (engine.Reaches scope) (put before scope name quota) after)
    (own : ∀ measure, (quota.value measure).value ≠ reading before scope name measure →
      engine.Noticed after missing scope name measure) :
    engine.Accounted (missing ++ pending) after := by
  have written : Frame (engine.Touches scope name) before (put before scope name quota) :=
    Frame.put before quota (.inl ⟨rfl, rfl⟩)
  have whole : Frame (engine.Touches scope name) before after :=
    written.trans (frame.mono fun _ _ reaches => .inr reaches)
  refine ⟨accounted.registered.of_frame whole fun _ _ touches => touches.isSome_field? known, ?_⟩
  intro child label measure nonzero
  by_cases later : reading after child label measure =
      reading (put before scope name quota) child label measure
  · by_cases self : scope = child ∧ name = label
    · obtain ⟨rfl, rfl⟩ := self
      have value : reading after scope name measure = (quota.value measure).value := by
        rw [later, reading, LawfulStore.lookup_put, if_pos ⟨rfl, rfl⟩]
        rfl
      by_cases changed : (quota.value measure).value = reading before scope name measure
      · exact (accounted.noticed scope name measure (changed ▸ value ▸ nonzero)).mono whole.kept
          (List.subset_append_right _ _)
      · exact (own measure changed).mono (fun _ _ present => present) (List.subset_append_left _ _)
    · have same : reading after child label measure = reading before child label measure := by
        rw [later, reading, reading, LawfulStore.lookup_put, if_neg self]
      exact (accounted.noticed child label measure (same ▸ nonzero)).mono whole.kept
        (List.subset_append_right _ _)
  · exact (takes.noticed child label measure later).mono (fun _ _ present => present)
      (List.subset_append_left _ _)

variable (shallow : engine.graph.Shallow)

include shallow

/-- In a shallow hierarchy a change is spread in full, and notice is taken of all that it changes. -/
theorem ensures_spread_notices (child : Entity) (quota : String) (measure : Measure)
    (delta : Amount) (store : σ) :
    Ensures fit (engine.spread child quota measure delta) store fun result after =>
      ∃ missing, result = .ok missing ∧ engine.TakesNotice store after missing ∧
        (delta ≠ 0 → engine.Noticed after missing child quota measure) ∧
        Frame (engine.Reaches child) store after ∧
        ∀ aggregate ∈ missing, engine.AggregateAbove child aggregate := by
  have spreads : engine.Spreads fit (fun other _ => other = child ∨ engine.graph.Above child other)
      (Frame (engine.Reaches child) store) := by
    constructor
    · exact fun meets frame _ _ => ⟨frame.trans (Frame.put _ _ ⟨_, meets.aggregateAbove, rfl, rfl⟩),
        fun _ => .inr meets.aggregateAbove.above⟩
    · exact fun meets frame _ _ => ⟨frame.trans (Frame.put _ _ ⟨_, meets.aggregateAbove, rfl, rfl⟩),
        .inr meets.aggregateAbove.above⟩
  refine ((ensures_spread_kept spreads measure (fun _ => .inl rfl) (Frame.refl store)).and
    (ensures_propagate_notices maxHierarchyDepth child quota measure delta store)).mono ?_
  rintro (error | missing) after ⟨⟨frame, yields⟩, -, notices⟩
  · exact absurd shallow yields
  · exact ⟨missing, rfl, notices.1, notices.2, frame,
      fun aggregate member => (yields aggregate member).aggregateAbove⟩

/-- What a new record announces is noticed, and the record no longer counts as pending. -/
theorem announces_accounted :
    engine.Announces fit fun pending (store : σ) => engine.Accounted pending store where
  present {target pending store} accounted present := by
    refine accounted.reduce fun other member => ?_
    rcases List.mem_cons.1 member with rfl | later
    · exact .inl present
    · exact .inr later
  exchange {target pending store} registered accounted absent _ := by
    refine Action.ensures_bind (fun _ => inferInstance)
      ((ensures_spread_notices shallow _ _ .usage _ _).mono ?_)
    rintro _ middle ⟨usageMissing, rfl, usageTakes, usageNoticed, usageFrame, usageAbove⟩
    refine Action.ensures_bind (fun _ => inferInstance)
      ((ensures_spread_notices shallow _ _ .limit _ _).mono ?_)
    rintro _ after ⟨limitMissing, rfl, limitTakes, limitNoticed, limitFrame, limitAbove⟩
    have frame := usageFrame.trans limitFrame
    refine Action.ensures_pure ⟨usageMissing ++ limitMissing, rfl, ?_, frame,
      fun aggregate member => (List.mem_append.1 member).elim (usageAbove aggregate)
        (limitAbove aggregate)⟩
    have present : stored after target.scope target.field.name = true := by
      apply frame.kept
      rw [stored, LawfulStore.lookup_put, if_pos ⟨rfl, rfl⟩]
      rfl
    have all : engine.Accounted (usageMissing ++ limitMissing ++ target :: pending) after := by
      refine accounted.of_written (Registry.isSome_field? registered)
        (usageTakes.trans limitTakes) frame fun measure changed => ?_
      rw [reading_of_none absent] at changed
      cases measure with
      | usage =>
          exact (usageNoticed fun zero => changed (congrArg Amount.value zero)).mono
            limitTakes.kept (List.subset_append_left _ _)
      | limit =>
          exact (limitNoticed fun zero => changed (congrArg Amount.value zero)).mono
            (fun _ _ present => present) (List.subset_append_right _ _)
    refine all.reduce fun other member => ?_
    rcases List.mem_append.1 member with new | old
    · exact .inr (List.mem_append_left _ new)
    · rcases List.mem_cons.1 old with rfl | later
      · exact .inl present
      · exact .inr (List.mem_append_right _ later)

end Accounted

section Upheld

/-- A statement about stores is upheld if it survives each creation of a registered quota, and each
write of one measure of a stored quota together with all that this change entails. -/
structure Upholds (engine : Engine) (fit : StoreCall → σ → Prop) (kept : σ → Prop) : Prop where
  ensure {scope : Entity} {field : Field} {store : σ} :
    field ∈ engine.registry.fields scope.kind → kept store →
    Ensures fit (engine.ensure scope field) store fun _ after =>
      kept after ∧ stored after scope field.name = true
  rewrite (measure : Measure) (new : Quota) {scope : Entity} {name : String} {old : Quota}
      {store : σ} :
    kept store → lookup store scope name = some old →
    (∀ other ≠ measure, new.value other = old.value other) →
    Ensures fit (engine.childChanged scope name measure (old.value measure) (new.value measure))
      (put store scope name new) fun _ after => kept after

variable {kept : σ → Prop} (upholds : engine.Upholds fit kept)

include upholds

/-- A read upholds the statement, and the record that it read is stored. -/
theorem ensures_getOrCreate_upheld (scope : Entity) (name : String) {store : σ}
    (keeps : kept store) :
    Ensures fit (engine.getOrCreate scope name) store fun result after => kept after ∧
      ∀ quota, result = .ok quota → stored after scope name = true := by
  by_cases available : engine.Available scope name
  · obtain ⟨field, known, connected⟩ := available
    obtain ⟨registered, rfl⟩ := Registry.field?_eq_some_iff.1 known
    exact ensures_getOrCreate_of_ensure registered connected
      ((upholds.ensure registered keeps).mono fun _ _ held => ⟨held.1, fun _ _ => held.2⟩)
  · refine (ensures_getOrCreate_unavailable available).mono ?_
    rintro _ after ⟨rfl, error, rfl⟩
    exact ⟨keeps, by rintro _ ⟨⟩⟩

/-- A limit that is written is passed on as the difference to the stored one. -/
theorem ensures_setLimit_upheld (scope : Entity) (name : String) (limit : Amount) {store : σ}
    (keeps : kept store) :
    Ensures fit (engine.setLimit scope name limit) store fun _ after => kept after := by
  unfold setLimit
  refine Action.ensures_bind (fun _ => inferInstance) (Action.ensures_discard
    ((ensures_getOrCreate_upheld upholds scope name keeps).mono ?_))
  rintro (error | quota) middle ⟨keepsMiddle, present⟩
  · exact keepsMiddle
  obtain ⟨old, isStored⟩ := lookup_of_stored (present quota rfl)
  refine Action.ensures_bind (fun _ => inferInstance) (Action.ensures_access
    (Action.ensures_setLimit (fun quota found _ => ?_) fun absent => ?_))
  · refine upholds.rewrite .limit { quota with limit } keepsMiddle found fun other different => ?_
    cases other with
    | usage => rfl
    | limit => exact absurd rfl different
  · rw [isStored] at absent
    cases absent

/-- A limit that is refused leaves at most a new record behind. -/
theorem ensures_updateLimit_upheld (scope : Entity) (name : String) (limit : Amount) {store : σ}
    (keeps : kept store) :
    Ensures fit (engine.updateLimit scope name limit) store fun _ after => kept after := by
  unfold updateLimit
  refine Action.ensures_bind (fun _ => inferInstance) (Action.ensures_ofExcept ?_)
  cases engine.field scope name with
  | error error => exact keeps
  | ok field =>
      dsimp only
      split
      · exact Action.ensures_throw keeps
      refine Action.ensures_bind (fun _ => inferInstance)
        ((ensures_getOrCreate_upheld upholds scope name keeps).mono ?_)
      rintro (error | quota) middle ⟨keepsMiddle, -⟩
      · exact keepsMiddle
      dsimp only
      split
      · exact Action.ensures_throw keepsMiddle
      · exact ensures_setLimit_upheld upholds scope name limit keepsMiddle

/-- A usage that is written is passed on as the difference to the one that was stored. -/
theorem ensures_setUsage_upheld (scope : Entity) (name : String) (usage : Amount) {store : σ}
    (keeps : kept store) :
    Ensures fit (engine.setUsage scope name usage) store fun _ after => kept after := by
  unfold setUsage
  refine Action.ensures_bind (fun _ => inferInstance) (Action.ensures_discard
    ((ensures_getOrCreate_upheld upholds scope name keeps).mono ?_))
  rintro (error | quota) middle ⟨keepsMiddle, present⟩
  · exact keepsMiddle
  obtain ⟨old, isStored⟩ := lookup_of_stored (present quota rfl)
  refine Action.ensures_bind (fun _ => inferInstance) (Action.ensures_access
    (Action.ensures_setUsage (fun quota found _ => ?_) fun absent => ?_))
  · refine upholds.rewrite .usage { quota with usage := max usage 0 } keepsMiddle found
      fun other different => ?_
    cases other with
    | usage => exact absurd rfl different
    | limit => rfl
  · rw [isStored] at absent
    cases absent

/-- A change of a usage is passed on as far as it was applied. -/
theorem ensures_applyDelta_upheld (scope : Entity) (name : String) (delta : Amount)
    (validate : Bool) {store : σ} (keeps : kept store) :
    Ensures fit (engine.applyDelta scope name delta validate) store fun _ after => kept after := by
  refine ensures_applyDelta_of_steps (fun _ => keeps) fun _ =>
    (ensures_getOrCreate_upheld upholds scope name keeps).mono ?_
  rintro (error | quota) middle ⟨keepsMiddle, -⟩
  · exact keepsMiddle
  refine Action.ensures_addUsage (fun stored found _ _ => ?_) (fun _ _ _ _ => keepsMiddle)
    fun _ => keepsMiddle
  refine upholds.rewrite .usage { stored with usage := max (stored.usage + delta) 0 } keepsMiddle
    found fun other different => ?_
  cases other with
  | usage => exact absurd rfl different
  | limit => rfl

/-- A batch is made of changes, also where it stops and takes its changes back. -/
theorem ensures_applyAll_upheld (validate : Bool) (requests : List (Except QuotaError Change))
    {store : σ} (keeps : kept store) :
    Ensures fit (engine.applyAll validate requests []) store fun _ after => kept after := by
  have logs : engine.Logs fit validate requests (fun _ => True) fun _ store => kept store := by
    constructor
    · intro request changes middle _ keepsMiddle
      refine (ensures_applyDelta_upheld upholds request.scope request.name request.amount validate
        keepsMiddle).mono ?_
      rintro (error | amount) after keepsAfter
      · exact ⟨keepsAfter, trivial⟩
      · exact keepsAfter
    · exact fun keepsMiddle => ensures_applyDelta_upheld upholds _ _ _ false keepsMiddle
  refine (ensures_applyAll_logged logs [] keeps).mono ?_
  rintro (error | done) after logged
  · exact logged.1
  · obtain ⟨-, keepsAfter⟩ := logged
    exact keepsAfter

/-- Each field of a scope is created in turn. -/
theorem ensures_initializeFields_upheld (scope : Entity) (fields : List Field)
    (registered : fields ⊆ engine.registry.fields scope.kind) {store : σ} (keeps : kept store) :
    Ensures fit (engine.initializeFields scope fields) store fun _ after => kept after := by
  induction fields generalizing store with
  | nil => exact Action.ensures_pure keeps
  | cons field fields inductionHypothesis =>
      obtain ⟨isField, others⟩ := List.cons_subset.1 registered
      unfold initializeFields
      split
      · refine Action.ensures_bind (fun found => by cases found <;> infer_instance)
          (Action.ensures_access (Action.ensures_get ?_))
        cases lookup store scope field.name with
        | some quota => exact inductionHypothesis others keeps
        | none =>
            refine Action.ensures_bind (fun _ => inferInstance) (Action.ensures_discard
              ((upholds.ensure isField keeps).mono ?_))
            rintro (error | quota) middle ⟨keepsMiddle, -⟩
            · exact keepsMiddle
            refine Action.ensures_bind (fun _ => inferInstance)
              ((inductionHypothesis others keepsMiddle).mono ?_)
            rintro (error | count) after keepsAfter
            · exact keepsAfter
            · exact Action.ensures_pure keepsAfter
      · exact inductionHypothesis others keeps

/-- Every operation upholds the statement unless it removes records. -/
theorem ensures_perform_upheld (operation : Operation)
    (keepsRecords : ∀ scope, operation ≠ .childDeleted scope) {store : σ} (keeps : kept store) :
    Ensures fit (engine.perform operation) store fun _ after => kept after := by
  cases operation with
  | getOrCreate scope name =>
      refine Action.ensures_discard
        ((ensures_getOrCreate_upheld upholds scope name keeps).mono ?_)
      rintro (error | quota) after ⟨keepsAfter, -⟩ <;> exact keepsAfter
  | initializeScope scope =>
      refine Action.ensures_discard
        ((ensures_initializeFields_upheld upholds scope _ (List.Subset.refl _) keeps).mono ?_)
      rintro (error | count) after keepsAfter <;> exact keepsAfter
  | setLimit scope name limit => exact ensures_setLimit_upheld upholds scope name limit keeps
  | updateLimit scope name limit => exact ensures_updateLimit_upheld upholds scope name limit keeps
  | childDeleted scope => exact absurd rfl (keepsRecords scope)
  | setUsage scope name usage => exact ensures_setUsage_upheld upholds scope name usage keeps
  | addUsage scope name delta validate =>
      refine Action.ensures_discard
        ((ensures_applyDelta_upheld upholds scope name delta validate keeps).mono ?_)
      rintro (error | amount) after keepsAfter <;> exact keepsAfter
  | applyChanges scopes deltas multiplier validate =>
      exact ensures_applyAll_upheld upholds validate _ keeps

/-- A sequence of operations upholds the statement, whichever of them fail. -/
theorem ensures_performAll_upheld (operations : List Operation)
    (keepRecords : ∀ scope, .childDeleted scope ∉ operations) {store : σ} (keeps : kept store) :
    Ensures fit (engine.performAll operations) store fun _ after => kept after := by
  have run : Ensures fit (engine.performAll operations) store fun result after =>
      result = .ok ⟨⟩ ∧ kept after := by
    refine Action.ensures_forM (fun operation member middle keepsMiddle => ?_) keeps
    refine Action.ensures_discard (Action.ensures_attempt ((ensures_perform_upheld upholds operation
      (fun scope isDeleted => keepRecords scope (isDeleted ▸ member)) keepsMiddle).mono ?_))
    exact fun _ _ keepsAfter => ⟨rfl, keepsAfter⟩
  exact run.mono fun _ _ held => held.2

end Upheld

/-- All amounts stay accounted for: what a change finds missing is created in turn. -/
theorem upholds_accounted (shallow : engine.graph.Shallow) :
    engine.Upholds fit fun store : σ => engine.Accounted [] store where
  ensure {scope field store} registered accounted := by
    refine ensures_ensure_of_steps
      (fun quota found => ⟨accounted, stored_of_lookup found⟩) fun _ => ?_
    have wider : engine.Accounted [⟨scope, field⟩] store :=
      accounted.reduce fun _ member => by cases member
    refine (ensures_create_announced (announces_accounted shallow) _ ⟨scope, field⟩ [] store
      registered wider (.inl (engine.unstored_lt_creationBudget store))).mono ?_
    exact fun _ _ settles => ⟨settles.2.1, settles.2.2.2⟩
  rewrite measure new {scope name old store} accounted found still := by
    have known := accounted.registered scope name (stored_of_lookup found)
    unfold childChanged
    refine Action.ensures_bind (fun _ => inferInstance)
      ((ensures_spread_notices shallow scope name measure _ _).mono ?_)
    rintro _ middle ⟨missing, rfl, takes, noticed, frame, above⟩
    have accountedMiddle : engine.Accounted (missing ++ []) middle := by
      refine accounted.of_written known takes frame fun other changed => ?_
      rw [reading_of_some found] at changed
      have same : other = measure := by
        by_contra different
        exact changed (congrArg Amount.value (still other different))
      subst same
      exact noticed (Amount.sub_ne_zero fun equal => changed (congrArg Amount.value equal))
    exact (ensures_createMissing_announced (announces_accounted shallow) [] above
      accountedMiddle).mono fun _ _ created => created.2.1

end Engine

end HierarchicalQuota
