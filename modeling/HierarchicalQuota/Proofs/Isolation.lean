import HierarchicalQuota.Proofs.Interruption
import HierarchicalQuota.Proofs.Operations
import HierarchicalQuota.Proofs.Store.Local

namespace HierarchicalQuota

open HierarchicalQuota.Action (after outcome)

variable {σ : Type} [QuotaStore σ] [LocalStore σ]

namespace Action

variable {ε α β ι : Type} {touched settable : Entity → String → Prop}

/-- All runs of an action are confined, and all their values are good. -/
def Confines (touched settable : Entity → String → Prop) (action : EStateM ε σ α)
    (good : α → Prop) : Prop :=
  ∀ store, Confined LocalStore.record touched settable store (after action store) ∧
    ∀ value, outcome action store = .ok value → good value

/-- Less can be claimed of the values. -/
theorem Confines.mono {action : EStateM ε σ α} {good weaker : α → Prop}
    (confines : Confines touched settable action good)
    (weaken : ∀ value, good value → weaker value) : Confines touched settable action weaker := by
  intro store
  obtain ⟨confined, answers⟩ := confines store
  exact ⟨confined, fun value result => weaken value (answers value result)⟩

/-- A value that is returned touches no record. -/
theorem confines_pure {value : α} {good : α → Prop} (holds : good value) :
    Confines touched settable (pure value : EStateM ε σ α) good := by
  intro store
  refine ⟨.refl store, ?_⟩
  intro other isValue
  cases isValue
  exact holds

/-- An error that is thrown touches no record. -/
theorem confines_throw {error : ε} {good : α → Prop} :
    Confines touched settable (throw error : EStateM ε σ α) good := by
  intro store
  refine ⟨.refl store, ?_⟩
  intro value isValue
  cases isValue

/-- The second of two actions runs on the values of the first, so it is confined if it is so on good
values. -/
theorem confines_bind {action : EStateM ε σ α} {next : α → EStateM ε σ β} {good : α → Prop}
    {better : β → Prop} (first : Confines touched settable action good)
    (second : ∀ value, good value → Confines touched settable (next value) better) :
    Confines touched settable (action >>= next) better := by
  intro store
  obtain ⟨confined, answers⟩ := first store
  rw [after_bind, outcome_bind]
  cases result : outcome action store with
  | error error =>
      refine ⟨confined, ?_⟩
      intro value isValue
      cases isValue
  | ok value =>
      obtain ⟨later, answersLater⟩ := second value (answers value result) (after action store)
      exact ⟨confined.trans later, answersLater⟩

/-- Dropping the value keeps an action confined. -/
theorem confines_discard {action : EStateM ε σ α} {good : α → Prop}
    (confines : Confines touched settable action good) :
    Confines touched settable (discard action) fun _ => True := by
  rw [discard_eq_bind]
  exact confines_bind confines fun _ _ => confines_pure trivial

/-- A result that was computed without the store touches no record. -/
theorem confines_ofExcept {result : Except QuotaError α} {good : α → Prop}
    (holds : ∀ value, result = .ok value → good value) :
    Confines touched settable (ofExcept result : Action σ α) good := by
  intro store
  rw [after_ofExcept, outcome_ofExcept]
  exact ⟨.refl store, holds⟩

/-- An access is confined as the call of the store is. -/
theorem confines_access {request : StoreAccess σ α}
    (confined : ∀ store, Confined LocalStore.record touched settable store (after request store)) :
    Confines touched settable (access request) fun _ => True := by
  intro store
  rw [after_access]
  exact ⟨confined store, fun _ _ => trivial⟩

/-- Catching an error keeps an action confined, whatever it has done before. -/
theorem confines_attempt {action : EStateM ε σ α}
    (confined : ∀ store, Confined LocalStore.record touched settable store (after action store)) :
    Confines touched settable (attempt action) fun _ => True := by
  intro store
  rw [after_attempt]
  exact ⟨confined store, fun _ _ => trivial⟩

/-- A list is confined and good if each of its items is. -/
theorem confines_collect {action : ι → Action σ (List α)} {items : List ι} {good : α → Prop}
    (each : ∀ item ∈ items,
      Confines touched settable (action item) fun values => ∀ value ∈ values, good value) :
    Confines touched settable (collect action items) fun values =>
      ∀ value ∈ values, good value := by
  induction items with
  | nil => exact confines_pure (by simp)
  | cons item items inductionHypothesis =>
      obtain ⟨now, later⟩ := List.forall_mem_cons.1 each
      apply confines_bind now
      intro first firstGood
      apply confines_bind (inductionHypothesis later)
      intro others othersGood
      exact confines_pure (List.forall_mem_append.2 ⟨firstGood, othersGood⟩)

/-- A loop is confined if each of its rounds is. -/
theorem confines_forM {action : ι → Action σ PUnit} {items : List ι}
    (each : ∀ item ∈ items, Confines touched settable (action item) fun _ => True) :
    Confines touched settable (items.forM action) fun _ => True := by
  induction items with
  | nil => exact confines_pure trivial
  | cons item items inductionHypothesis =>
      obtain ⟨now, later⟩ := List.forall_mem_cons.1 each
      exact confines_bind now fun _ _ => inductionHypothesis later

end Action

open HierarchicalQuota.Action (Confines)

section Access

variable {touched settable : Entity → String → Prop} {scope : Entity} {name : String}

/-- An access of one record is confined where the record is touched. -/
theorem Confined.of_only {before after : σ} (inside : touched scope name)
    (confined : Confined LocalStore.record (Only scope name) Nowhere before after) :
    Confined LocalStore.record touched settable before after := by
  refine confined.mono ?_ fun _ _ => False.elim
  intro other label only
  obtain ⟨rfl, rfl⟩ := only
  exact inside

/-- A read touches no record. -/
theorem confines_get (scope : Entity) (name : String) :
    Confines touched settable (Action.access (σ := σ) (QuotaStore.get scope name)) fun _ => True :=
  Action.confines_access fun store => (LocalStore.get scope name store).mono
    (fun _ _ => False.elim) fun _ _ => False.elim

end Access

namespace Engine

/-- What is touched at an aggregate above a scope is reached from the scope. -/
theorem AggregateAbove.reaches {engine : Engine} {child : Entity} {aggregate : Aggregate}
    (above : engine.AggregateAbove child aggregate) {other : Entity} {label : String}
    (touches : engine.Touches aggregate.scope aggregate.field.name other label) :
    engine.Reaches child other label := by
  rcases touches with ⟨rfl, rfl⟩ | reaches
  · exact ⟨aggregate, above, rfl, rfl⟩
  · exact .trans above.above reaches

variable (engine : Engine) {touched settable : Entity → String → Prop}

/-- The aggregates of a list are touched one by one, and the wave consists of them. -/
theorem confines_shiftAll (delta : Amount) (aggregates : List Aggregate)
    (inside : ∀ aggregate ∈ aggregates, touched aggregate.scope aggregate.field.name) :
    Confines touched settable (shiftAll (σ := σ) delta aggregates) fun wave =>
      (∀ shifted ∈ wave.moved, shifted.1 ∈ aggregates) ∧ wave.missing ⊆ aggregates := by
  induction aggregates with
  | nil => exact Action.confines_pure (by simp)
  | cons aggregate rest inductionHypothesis =>
      obtain ⟨own, others⟩ := List.forall_mem_cons.1 inside
      have later : Confines touched settable (shiftAll (σ := σ) delta rest) fun wave =>
          (∀ shifted ∈ wave.moved, shifted.1 ∈ aggregate :: rest) ∧ wave.missing ⊆ rest := by
        apply (inductionHypothesis others).mono
        intro wave waveInside
        obtain ⟨moved, missing⟩ := waveInside
        exact ⟨fun shifted member => List.mem_cons_of_mem _ (moved shifted member), missing⟩
      have shifts : Confines touched settable (Action.attempt (σ := σ)
          (QuotaStore.shiftUsage aggregate.scope aggregate.field.name delta)) fun _ => True :=
        Action.confines_attempt fun store => (LocalStore.shiftUsage _ _ delta store).of_only own
      unfold shiftAll
      apply Action.confines_bind shifts
      intro answer _
      cases answer with
      | error error =>
          cases error with
          | notFound =>
              apply Action.confines_bind later
              intro wave waveInside
              obtain ⟨moved, missing⟩ := waveInside
              exact Action.confines_pure ⟨moved, List.cons_subset_cons _ missing⟩
          | _ => exact Action.confines_throw
      | ok update =>
          cases update with
          | applied old new limit =>
              apply Action.confines_bind later
              intro wave waveInside
              obtain ⟨moved, missing⟩ := waveInside
              exact Action.confines_pure ⟨List.forall_mem_cons.2 ⟨List.mem_cons_self, moved⟩,
                List.subset_cons_of_subset _ missing⟩
          | rejected usage limit =>
              apply later.mono
              intro wave waveInside
              obtain ⟨moved, missing⟩ := waveInside
              exact ⟨moved, List.subset_cons_of_subset _ missing⟩

/-- A change spreads to the aggregates above a child and reports some of them. The induction is on
the levels that are left, so it does not matter whether the chains come to an end. -/
theorem confines_propagate (levels : Nat) (child : Entity) (quota : String) (measure : Measure)
    (delta : Amount) (inside : ∀ scope name, engine.Reaches child scope name → touched scope name) :
    Confines touched settable (engine.propagate (σ := σ) levels child quota measure delta)
      fun missing => ∀ aggregate ∈ missing, engine.AggregateAbove child aggregate := by
  induction levels generalizing child quota measure delta with
  | zero =>
      unfold propagate
      split
      · exact Action.confines_pure (by simp)
      · exact Action.confines_throw
  | succ levels inductionHypothesis =>
      unfold propagate
      split
      · exact Action.confines_pure (by simp)
      have above : ∀ aggregate ∈ engine.aggregatesOver child quota measure,
          engine.AggregateAbove child aggregate := fun aggregate => aggregateAbove_of_mem
      apply Action.confines_bind (confines_shiftAll delta _ fun aggregate member =>
        inside _ _ ⟨aggregate, above aggregate member, rfl, rfl⟩)
      intro wave waveInside
      obtain ⟨moved, missing⟩ := waveInside
      have passedOn : Confines touched settable (Action.collect (fun entry : Aggregate × Amount =>
          engine.propagate (σ := σ) levels entry.1.scope entry.1.field.name .usage entry.2)
            wave.moved.reverse) fun missing =>
              ∀ aggregate ∈ missing, engine.AggregateAbove child aggregate := by
        apply Action.confines_collect
        intro entry member
        have first := above _ (moved entry (List.mem_reverse.1 member))
        apply (inductionHypothesis _ _ _ _ fun scope name reaches =>
          inside scope name (.trans first.above reaches)).mono
        intro higher higherAbove aggregate found
        exact .trans first.above (higherAbove aggregate found)
      apply Action.confines_bind passedOn
      intro higher higherAbove
      exact Action.confines_pure (List.forall_mem_append.2
        ⟨fun aggregate found => above aggregate (missing found), higherAbove⟩)

/-- A sum over children only reads. -/
theorem confines_sumOver (quota : String) (measure : Measure) (children : List Entity)
    (sum : Amount) :
    Confines touched settable (sumOver (σ := σ) quota measure children sum) fun _ => True := by
  induction children generalizing sum with
  | nil => exact Action.confines_pure trivial
  | cons child children inductionHypothesis =>
      unfold sumOver
      apply Action.confines_bind (confines_get child quota)
      intro found _
      cases found with
      | none => exact inductionHypothesis _
      | some record => exact inductionHypothesis _

/-- The sum of an aggregate touches no record. -/
theorem confines_sumChildren (scope : Entity) (field : Field) :
    Confines touched settable (engine.sumChildren (σ := σ) scope field) fun _ => True := by
  unfold sumChildren
  split
  · exact confines_sumOver _ _ _ _
  · exact Action.confines_pure trivial

/-- The quota with which a record begins is only read. -/
theorem confines_startingQuota (scope : Entity) (field : Field) :
    Confines touched settable (engine.startingQuota (σ := σ) scope field) fun _ => True := by
  unfold startingQuota
  split
  · exact Action.confines_bind (engine.confines_sumChildren scope field) fun _ _ =>
      Action.confines_pure trivial
  · exact Action.confines_pure trivial

/-- A record is created, and then missing aggregates above it, with a smaller budget. -/
theorem confines_create (budget : Nat) (target : Aggregate)
    (inside : ∀ other label, engine.Touches target.scope target.field.name other label →
      touched other label) :
    Confines touched settable (engine.create (σ := σ) budget target) fun _ => True := by
  have higher : ∀ other label, engine.Reaches target.scope other label → touched other label :=
    fun other label reaches => inside other label (.inr reaches)
  unfold create
  apply Action.confines_bind (confines_get _ _)
  intro found _
  cases found with
  | some existing => exact Action.confines_pure trivial
  | none =>
      apply Action.confines_bind (engine.confines_startingQuota _ _)
      intro starting _
      apply Action.confines_bind (Action.confines_access fun store =>
        (LocalStore.getOrCreate _ _ starting store).of_only (inside _ _ (.inl ⟨rfl, rfl⟩)))
      intro answer _
      dsimp only
      cases isNew : answer.2 with
      | false => exact Action.confines_pure trivial
      | true =>
          cases budget with
          | zero => exact Action.confines_pure trivial
          | succ budget =>
              apply Action.confines_bind (engine.confines_propagate _ _ _ _ _ higher)
              intro usageMissing usageAbove
              apply Action.confines_bind (engine.confines_propagate _ _ _ _ _ higher)
              intro limitMissing limitAbove
              have above := List.forall_mem_append.2 ⟨usageAbove, limitAbove⟩
              have creates := Action.confines_forM fun aggregate member =>
                Action.confines_discard (confines_create budget aggregate fun other label touches =>
                  higher other label ((above aggregate member).reaches touches))
              exact Action.confines_bind creates fun _ _ => Action.confines_pure trivial

section Updates

variable {scope : Entity} {name : String}

/-- A field that was looked up has the name that it was looked up by. -/
theorem confines_field :
    Confines touched settable (Action.ofExcept (engine.field scope name) : Action σ Field)
      fun field => field.name = name :=
  Action.confines_ofExcept fun _ found =>
    (Registry.field?_eq_some_iff.1 (Registry.field_eq_ok_iff.1 found)).2

/-- A quota that is registered and connected is read or created. -/
theorem confines_getOrCreate :
    Confines (engine.Touches scope name) settable (engine.getOrCreate (σ := σ) scope name)
      fun _ => True := by
  unfold getOrCreate
  apply Action.confines_bind engine.confines_field
  intro field sameName
  subst sameName
  split
  · unfold ensure
    apply Action.confines_bind (confines_get _ _)
    intro found _
    cases found with
    | none => exact engine.confines_create _ _ fun _ _ => id
    | some existing => exact Action.confines_pure trivial
  · exact Action.confines_throw

/-- A change touches the aggregates above the child, stored or missing. -/
theorem confines_childChanged (measure : Measure) (old new : Amount) :
    Confines (engine.Touches scope name) settable
      (engine.childChanged (σ := σ) scope name measure old new) fun _ => True := by
  unfold childChanged
  apply Action.confines_bind (engine.confines_propagate _ _ _ _ _ fun _ _ => .inr)
  intro missing above
  apply Action.confines_forM
  intro aggregate member
  apply Action.confines_discard
  apply engine.confines_create
  intro other label touches
  exact .inr ((above aggregate member).reaches touches)

/-- A usage that is set keeps all limits. -/
theorem confines_setUsage (usage : Amount) :
    Confines (engine.Touches scope name) settable (engine.setUsage (σ := σ) scope name usage)
      fun _ => True := by
  unfold setUsage
  apply Action.confines_bind (Action.confines_discard engine.confines_getOrCreate)
  intro _ _
  apply Action.confines_bind (Action.confines_access fun store =>
    (LocalStore.setUsage scope name _ store).of_only (.inl ⟨rfl, rfl⟩))
  intro _ _
  exact engine.confines_childChanged .usage _ _

/-- A change of a usage keeps all limits, also where it is rejected. -/
theorem confines_applyDelta (delta : Amount) (validate : Bool) :
    Confines (engine.Touches scope name) settable
      (engine.applyDelta (σ := σ) scope name delta validate) fun _ => True := by
  unfold applyDelta
  split
  · exact Action.confines_pure trivial
  apply Action.confines_bind (Action.confines_discard engine.confines_getOrCreate)
  intro _ _
  apply Action.confines_bind (Action.confines_access fun store =>
    (LocalStore.addUsage scope name delta validate store).of_only (.inl ⟨rfl, rfl⟩))
  intro update _
  cases update with
  | applied old new limit =>
      exact Action.confines_bind (engine.confines_childChanged .usage old new) fun _ _ =>
        Action.confines_pure trivial
  | rejected usage limit => exact Action.confines_throw

/-- Only here an old limit can change. -/
theorem confines_setLimit (limit : Amount) (sets : settable scope name) :
    Confines (engine.Touches scope name) settable (engine.setLimit (σ := σ) scope name limit)
      fun _ => True := by
  have writes (store : σ) : Confined LocalStore.record (engine.Touches scope name) settable store
      (after (QuotaStore.setLimit scope name limit) store) := by
    refine (LocalStore.setLimit scope name limit store).mono (fun _ _ => .inl) ?_
    intro other label only
    obtain ⟨rfl, rfl⟩ := only
    exact sets
  unfold setLimit
  apply Action.confines_bind (Action.confines_discard engine.confines_getOrCreate)
  intro _ _
  apply Action.confines_bind (Action.confines_access writes)
  intro _ _
  exact engine.confines_childChanged .limit _ _

/-- A limit that is refused is not set. -/
theorem confines_updateLimit (limit : Amount) (sets : settable scope name) :
    Confines (engine.Touches scope name) settable (engine.updateLimit (σ := σ) scope name limit)
      fun _ => True := by
  unfold updateLimit
  apply Action.confines_bind engine.confines_field
  intro field _
  split
  · exact Action.confines_throw
  apply Action.confines_bind engine.confines_getOrCreate
  intro quota _
  split
  · exact Action.confines_throw
  · exact engine.confines_setLimit limit sets

end Updates

end Engine

namespace Operation

/-- The quota of an operation is the one that it names, if it names exactly one. -/
def quota? : Operation → Option (Entity × String)
  | .getOrCreate scope name | .setLimit scope name _ | .updateLimit scope name _
  | .setUsage scope name _ | .addUsage scope name _ _ => some (scope, name)
  | .initializeScope .. | .childDeleted .. | .applyChanges .. => none

/-- Two of the operations set a limit. -/
def SetsLimit : Operation → Prop
  | .setLimit .. | .updateLimit .. => True
  | _ => False

end Operation

namespace Engine

/-- An operation on one quota touches it and the aggregates above it, and sets at most its limit. -/
theorem confines_perform (engine : Engine) (operation : Operation) {scope : Entity} {name : String}
    (named : operation.quota? = some (scope, name)) :
    Confines (engine.Touches scope name)
      (fun other label => Only scope name other label ∧ operation.SetsLimit)
      (engine.perform (σ := σ) operation) fun _ => True := by
  cases operation with
  | getOrCreate =>
      cases named
      exact Action.confines_discard engine.confines_getOrCreate
  | setLimit =>
      cases named
      exact engine.confines_setLimit _ ⟨⟨rfl, rfl⟩, trivial⟩
  | updateLimit =>
      cases named
      exact engine.confines_updateLimit _ ⟨⟨rfl, rfl⟩, trivial⟩
  | setUsage =>
      cases named
      exact engine.confines_setUsage _
  | addUsage =>
      cases named
      exact Action.confines_discard (engine.confines_applyDelta _ _)
  | initializeScope | childDeleted | applyChanges => cases named

/-- An operation on one quota is isolated from unrelated scopes, whatever its outcome is. It removes
no record, it changes or creates only the record that it names and records of aggregates above its
scope, and it changes no old limit except that of the named record, where it sets one. -/
theorem perform_isolated (engine : Engine) (operation : Operation) (scope : Entity) (name : String)
    (named : operation.quota? = some (scope, name)) (store : σ) (other : Entity) (label : String) :
    let before := LocalStore.record store other label
    let result := LocalStore.record (after (engine.perform operation) store) other label
    (before.isSome → result.isSome) ∧
      (result ≠ before → engine.Touches scope name other label) ∧
      ∀ old new, before = some old → result = some new → new.limit ≠ old.limit →
        (other = scope ∧ label = name) ∧ operation.SetsLimit := by
  intro before result
  have confined := ((engine.confines_perform operation named store).1 other label :
    result ≠ before → _)
  by_cases same : result = before
  · refine ⟨fun present => same ▸ present, fun changed => absurd same changed, ?_⟩
    intro old new isOld isNew moved
    rw [same, isOld] at isNew
    exact absurd (congrArg Quota.limit (Option.some.inj isNew).symm) moved
  · obtain ⟨touches, written, isWritten, keeps⟩ := confined same
    refine ⟨fun _ => Option.isSome_of_eq_some isWritten, fun _ => touches, ?_⟩
    intro old new isOld isNew moved
    obtain rfl := Option.some.inj (isNew.symm.trans isWritten)
    exact keeps old isOld moved

end Engine

section Sample

/-- The change of the team's storage runs through the loop of its organization until it fails. -/
theorem perform_isolated_sample :
    outcome (loopEngine.perform (.setUsage sampleTeam "storage" 4)) stockedStore =
        .error (.hierarchyTooDeep sampleOrganization) ∧
      let before := LocalStore.record stockedStore sampleOrganization "storage"
      let result := LocalStore.record
        (after (loopEngine.perform (.setUsage sampleTeam "storage" 4)) stockedStore)
        sampleOrganization "storage"
      result ≠ before ∧ result.isSome ∧
        loopEngine.Touches sampleTeam "storage" sampleOrganization "storage" := by
  have isolated := loopEngine.perform_isolated (.setUsage sampleTeam "storage" 4) sampleTeam
    "storage" rfl stockedStore sampleOrganization "storage"
  have changed : LocalStore.record
      (after (loopEngine.perform (.setUsage sampleTeam "storage" 4)) stockedStore)
      sampleOrganization "storage" ≠
        LocalStore.record stockedStore sampleOrganization "storage" := by
    decide +kernel
  exact ⟨by decide +kernel, changed, isolated.1 (by decide +kernel), isolated.2.1 changed⟩

end Sample

end HierarchicalQuota
