import HierarchicalQuota.Engine.Lifecycle
import HierarchicalQuota.Engine.Recalculation
import HierarchicalQuota.Proofs.Outcome

namespace HierarchicalQuota

variable {ε σ τ α β : Type}

/-- Two actions run in lockstep if related stores give one outcome and stay related. -/
def Lockstep (related : τ → σ → Prop) (first : EStateM ε τ α) (second : EStateM ε σ α) : Prop :=
  ∀ left right, related left right →
    Action.outcome first left = Action.outcome second right ∧
      related (Action.after first left) (Action.after second right)

/-- Stores answer alike if every access runs in lockstep on them. -/
structure AnswersAlike [QuotaStore τ] [QuotaStore σ] (related : τ → σ → Prop) : Prop where
  get (scope : Entity) (name : String) :
    Lockstep related (QuotaStore.get scope name) (QuotaStore.get scope name)
  getOrCreate (scope : Entity) (name : String) (initial : Quota) :
    Lockstep related (QuotaStore.getOrCreate scope name initial)
      (QuotaStore.getOrCreate scope name initial)
  setLimit (scope : Entity) (name : String) (limit : Amount) :
    Lockstep related (QuotaStore.setLimit scope name limit) (QuotaStore.setLimit scope name limit)
  setUsage (scope : Entity) (name : String) (usage : Amount) :
    Lockstep related (QuotaStore.setUsage scope name usage) (QuotaStore.setUsage scope name usage)
  addUsage (scope : Entity) (name : String) (delta : Amount) (validate : Bool) :
    Lockstep related (QuotaStore.addUsage scope name delta validate)
      (QuotaStore.addUsage scope name delta validate)
  shiftUsage (scope : Entity) (name : String) (delta : Amount) :
    Lockstep related (QuotaStore.shiftUsage scope name delta)
      (QuotaStore.shiftUsage scope name delta)
  listScope (scope : Entity) :
    Lockstep related (QuotaStore.listScope scope) (QuotaStore.listScope scope)
  deleteScope (scope : Entity) :
    Lockstep related (QuotaStore.deleteScope scope) (QuotaStore.deleteScope scope)

namespace Lockstep

variable {related : τ → σ → Prop}

/-- A value that is returned is the same on both stores. -/
theorem pure (value : α) :
    Lockstep related (Pure.pure value : EStateM ε τ α) (Pure.pure value) :=
  fun _ _ alike => ⟨rfl, alike⟩

/-- An error that is thrown is the same on both stores. -/
theorem throw (error : ε) :
    Lockstep related (MonadExcept.throw error : EStateM ε τ α) (MonadExcept.throw error) :=
  fun _ _ alike => ⟨rfl, alike⟩

/-- Actions stay in lockstep one after the other, because the second begins with one value and with
stores that are still related. -/
theorem bind {first : EStateM ε τ α} {second : EStateM ε σ α} {firstNext : α → EStateM ε τ β}
    {secondNext : α → EStateM ε σ β} (start : Lockstep related first second)
    (next : ∀ value, Lockstep related (firstNext value) (secondNext value)) :
    Lockstep related (first >>= firstNext) (second >>= secondNext) := by
  intro left right alike
  obtain ⟨sameOutcome, stillAlike⟩ := start left right alike
  rw [Action.outcome_bind, Action.outcome_bind, Action.after_bind, Action.after_bind, sameOutcome]
  cases Action.outcome second right with
  | ok value => exact next value _ _ stillAlike
  | error error => exact ⟨rfl, stillAlike⟩

/-- Dropping the value of a run keeps two runs in lockstep. -/
theorem discard {first : EStateM ε τ α} {second : EStateM ε σ α}
    (start : Lockstep related first second) :
    Lockstep related (Functor.discard first) (Functor.discard second) := by
  rw [Action.discard_eq_bind, Action.discard_eq_bind]
  exact start.bind fun _ => pure _

/-- An error that is caught is caught on both stores. -/
theorem attempt {first : EStateM ε τ α} {second : EStateM ε σ α}
    (start : Lockstep related first second) :
    Lockstep related (Action.attempt first) (Action.attempt second) := by
  intro left right alike
  rw [Action.outcome_attempt, Action.outcome_attempt, Action.after_attempt, Action.after_attempt]
  exact ⟨congrArg _ (start left right alike).1, (start left right alike).2⟩

/-- A single access fails on both stores with the same error, or on neither. -/
theorem access {first : StoreAccess τ α} {second : StoreAccess σ α}
    (start : Lockstep related first second) :
    Lockstep related (Action.access first) (Action.access second) := by
  intro left right alike
  rw [Action.outcome_access, Action.outcome_access, Action.after_access, Action.after_access]
  exact ⟨congrArg _ (start left right alike).1, (start left right alike).2⟩

/-- A result that was computed without the store does not depend on the store. -/
theorem ofExcept (result : Except QuotaError α) :
    Lockstep related (Action.ofExcept result) (Action.ofExcept result) := by
  intro left right alike
  rw [Action.outcome_ofExcept, Action.outcome_ofExcept, Action.after_ofExcept,
    Action.after_ofExcept]
  exact ⟨rfl, alike⟩

/-- Lists that are collected item by item are equal if each item runs in lockstep. -/
theorem collect {ι : Type} {first : ι → Action τ (List α)} {second : ι → Action σ (List α)}
    (each : ∀ item, Lockstep related (first item) (second item)) (items : List ι) :
    Lockstep related (Action.collect first items) (Action.collect second items) := by
  induction items with
  | nil => exact pure _
  | cons item items inductionHypothesis =>
      exact (each item).bind fun _ => inductionHypothesis.bind fun _ => pure _

/-- A loop runs in lockstep if its body does so for every item. -/
theorem forM {ι : Type} {first : ι → Action τ PUnit} {second : ι → Action σ PUnit}
    (each : ∀ item, Lockstep related (first item) (second item)) (items : List ι) :
    Lockstep related (items.forM first) (items.forM second) := by
  induction items with
  | nil => exact pure _
  | cons item items inductionHypothesis => exact (each item).bind fun _ => inductionHypothesis

end Lockstep

namespace AnswersAlike

variable [QuotaStore τ] [QuotaStore σ] {related : τ → σ → Prop} (alike : AnswersAlike related)
include alike

/-- Aggregates are shifted, or found missing, alike on both stores. -/
theorem shiftAll (delta : Amount) (aggregates : List Aggregate) :
    Lockstep related (Engine.shiftAll delta aggregates) (Engine.shiftAll delta aggregates) := by
  induction aggregates with
  | nil => exact .pure _
  | cons aggregate rest inductionHypothesis =>
      refine (Lockstep.attempt (alike.shiftUsage _ _ _)).bind fun result => ?_
      rcases result with (_ | _ | _ | _) | _
      · exact inductionHypothesis.bind fun _ => .pure _
      · exact .throw _
      · exact .throw _
      · exact .throw _
      · rename_i update
        cases update with
        | applied old new limit => exact inductionHypothesis.bind fun _ => .pure _
        | rejected usage limit => exact inductionHypothesis

/-- The levels of a propagation see the same missing aggregates on both stores. -/
theorem propagate (engine : Engine) (levels : Nat) (child : Entity) (quota : String)
    (measure : Measure) (delta : Amount) :
    Lockstep related (engine.propagate levels child quota measure delta)
      (engine.propagate levels child quota measure delta) := by
  induction levels generalizing child quota measure delta with
  | zero =>
      unfold Engine.propagate
      split
      · exact .pure _
      · exact .throw _
  | succ levels inductionHypothesis =>
      unfold Engine.propagate
      split
      · exact .pure _
      · exact (alike.shiftAll _ _).bind fun _ =>
          (Lockstep.collect (fun _ => inductionHypothesis _ _ _ _) _).bind fun _ => .pure _

theorem spread (engine : Engine) (child : Entity) (quota : String) (measure : Measure)
    (delta : Amount) :
    Lockstep related (engine.spread child quota measure delta)
      (engine.spread child quota measure delta) :=
  alike.propagate engine _ child quota measure delta

/-- A sum over children reads one record for each child, and the same one on both stores. -/
theorem sumOver (quota : String) (measure : Measure) (children : List Entity) (sum : Amount) :
    Lockstep related (Engine.sumOver quota measure children sum)
      (Engine.sumOver quota measure children sum) := by
  induction children generalizing sum with
  | nil => exact .pure _
  | cons child children inductionHypothesis =>
      refine (Lockstep.access (alike.get _ _)).bind fun record => ?_
      cases record with
      | none => exact inductionHypothesis _
      | some record => exact inductionHypothesis _

theorem sumChildren (engine : Engine) (scope : Entity) (field : Field) :
    Lockstep related (engine.sumChildren scope field) (engine.sumChildren scope field) := by
  unfold Engine.sumChildren
  split
  · exact alike.sumOver _ _ _ _
  · exact .pure _

/-- A record begins with the same quota on both stores. -/
theorem startingQuota (engine : Engine) (scope : Entity) (field : Field) :
    Lockstep related (engine.startingQuota scope field) (engine.startingQuota scope field) := by
  unfold Engine.startingQuota
  split
  · exact (alike.sumChildren _ _ _).bind fun _ => .pure _
  · exact .pure _

/-- Nested creations run in lockstep, by induction on their budget. -/
theorem create (engine : Engine) (budget : Nat) (target : Aggregate) :
    Lockstep related (engine.create budget target) (engine.create budget target) := by
  induction budget generalizing target with
  | zero =>
      unfold Engine.create
      refine (Lockstep.access (alike.get _ _)).bind fun existing => ?_
      cases existing with
      | some existing => exact .pure _
      | none =>
          refine (alike.startingQuota _ _ _).bind fun starting => ?_
          refine (Lockstep.access (alike.getOrCreate _ _ _)).bind fun result => ?_
          obtain ⟨quota, created⟩ := result
          cases created with
          | false => exact .pure _
          | true => exact .pure _
  | succ budget inductionHypothesis =>
      unfold Engine.create
      refine (Lockstep.access (alike.get _ _)).bind fun existing => ?_
      cases existing with
      | some existing => exact .pure _
      | none =>
          refine (alike.startingQuota _ _ _).bind fun starting => ?_
          refine (Lockstep.access (alike.getOrCreate _ _ _)).bind fun result => ?_
          obtain ⟨quota, created⟩ := result
          cases created with
          | false => exact .pure _
          | true =>
              exact (alike.spread _ _ _ _ _).bind fun _ => (alike.spread _ _ _ _ _).bind fun _ =>
                (Lockstep.forM (fun _ => (inductionHypothesis _).discard) _).bind fun _ => .pure _

/-- The aggregates that a change did not find are created alike. -/
theorem createMissing (engine : Engine) (missing : List Aggregate) :
    Lockstep related (engine.createMissing missing) (engine.createMissing missing) :=
  .forM (fun _ => (alike.create _ _ _).discard) _

/-- A field gets its record on both stores or on neither. -/
theorem ensure (engine : Engine) (scope : Entity) (field : Field) :
    Lockstep related (engine.ensure scope field) (engine.ensure scope field) := by
  refine (Lockstep.access (alike.get _ _)).bind fun existing => ?_
  cases existing with
  | some existing => exact .pure _
  | none => exact alike.create _ _ _

/-- A read that may create the record gives the same quota. -/
theorem getOrCreateQuota (engine : Engine) (scope : Entity) (name : String) :
    Lockstep related (engine.getOrCreate scope name) (engine.getOrCreate scope name) := by
  refine (Lockstep.ofExcept _).bind fun field => ?_
  split
  · exact alike.ensure _ _ _
  · exact .throw _

/-- The difference between two values spreads alike. -/
theorem childChanged (engine : Engine) (child : Entity) (name : String) (measure : Measure)
    (old new : Amount) :
    Lockstep related (engine.childChanged child name measure old new)
      (engine.childChanged child name measure old new) :=
  (alike.spread _ _ _ _ _).bind fun _ => alike.createMissing _ _

theorem setQuotaLimit (engine : Engine) (scope : Entity) (name : String) (limit : Amount) :
    Lockstep related (engine.setLimit scope name limit) (engine.setLimit scope name limit) :=
  (alike.getOrCreateQuota _ _ _).discard.bind fun _ =>
    (Lockstep.access (alike.setLimit _ _ _)).bind fun _ => alike.childChanged _ _ _ _ _ _

/-- A new limit is refused for the usage that is stored, which is the same on both stores. -/
theorem updateLimit (engine : Engine) (scope : Entity) (name : String) (limit : Amount) :
    Lockstep related (engine.updateLimit scope name limit)
      (engine.updateLimit scope name limit) := by
  refine (Lockstep.ofExcept _).bind fun field => ?_
  split
  · exact .throw _
  · refine (alike.getOrCreateQuota _ _ _).bind fun quota => ?_
    split
    · exact .throw _
    · exact alike.setQuotaLimit _ _ _ _

theorem setQuotaUsage (engine : Engine) (scope : Entity) (name : String) (usage : Amount) :
    Lockstep related (engine.setUsage scope name usage) (engine.setUsage scope name usage) :=
  (alike.getOrCreateQuota _ _ _).discard.bind fun _ =>
    (Lockstep.access (alike.setUsage _ _ _)).bind fun _ => alike.childChanged _ _ _ _ _ _

/-- A change of a usage is accepted on both stores or rejected on both, for one reason. -/
theorem applyDelta (engine : Engine) (scope : Entity) (name : String) (delta : Amount)
    (validate : Bool) :
    Lockstep related (engine.applyDelta scope name delta validate)
      (engine.applyDelta scope name delta validate) := by
  unfold Engine.applyDelta
  split
  · exact .pure _
  · refine (alike.getOrCreateQuota _ _ _).discard.bind fun _ =>
      (Lockstep.access (alike.addUsage _ _ _ _)).bind fun update => ?_
    cases update with
    | applied old new limit => exact (alike.childChanged _ _ _ _ _ _).bind fun _ => .pure _
    | rejected usage limit => exact .throw _

/-- A usage is raised by as much on both stores, or is too high on both. -/
theorem addQuotaUsage (engine : Engine) (scope : Entity) (name : String) (delta : Amount)
    (validate : Bool) :
    Lockstep related (engine.addUsage scope name delta validate)
      (engine.addUsage scope name delta validate) :=
  (alike.applyDelta _ _ _ _ _).discard

/-- A record that is deleted takes its numbers back from the aggregates above it alike. -/
theorem withdraw (engine : Engine) (child : Entity) (record : Record) :
    Lockstep related (engine.withdraw child record) (engine.withdraw child record) :=
  (alike.spread _ _ _ _ _).bind fun _ => (alike.spread _ _ _ _ _).bind fun _ => .pure _

/-- The records of a deleted scope are listed in one order, so they are withdrawn in one order. -/
theorem childDeleted (engine : Engine) (child : Entity) :
    Lockstep related (engine.childDeleted child) (engine.childDeleted child) :=
  (Lockstep.access (alike.deleteScope _)).bind fun _ =>
    (Lockstep.collect (fun _ => alike.withdraw _ _ _) _).bind fun _ => alike.createMissing _ _

/-- The changes that are taken back are the same, and so is their order. -/
theorem compensate (engine : Engine) (latestFirst : List Change) :
    Lockstep related (engine.compensate latestFirst) (engine.compensate latestFirst) :=
  .forM (fun _ => (Lockstep.attempt (alike.applyDelta _ _ _ _ _)).discard) _

/-- The requests of a batch are applied up to the same one, and the log is the same. -/
theorem applyAll (engine : Engine) (validate : Bool) (requests : List (Except QuotaError Change))
    (applied : List Change) :
    Lockstep related (engine.applyAll validate requests applied)
      (engine.applyAll validate requests applied) := by
  induction requests generalizing applied with
  | nil => exact .pure _
  | cons request requests inductionHypothesis =>
      refine (Lockstep.attempt ((Lockstep.ofExcept _).bind fun _ =>
        (alike.applyDelta _ _ _ _ _).bind fun _ => .pure _)).bind fun outcome => ?_
      cases outcome with
      | ok change => exact inductionHypothesis _
      | error error => exact (alike.compensate _ _).bind fun _ => .throw _

/-- A batch succeeds on both stores or is taken back on both. -/
theorem applyChanges (engine : Engine) (scopes : List Entity) (deltas : List (String × Amount))
    (multiplier : Amount) (validate : Bool) :
    Lockstep related (engine.applyChanges scopes deltas multiplier validate)
      (engine.applyChanges scopes deltas multiplier validate) :=
  alike.applyAll _ _ _ _

/-- The fields of a scope get their records one after the other, and the same ones are new. -/
theorem initializeFields (engine : Engine) (scope : Entity) (fields : List Field) :
    Lockstep related (engine.initializeFields scope fields)
      (engine.initializeFields scope fields) := by
  induction fields with
  | nil => exact .pure _
  | cons field fields inductionHypothesis =>
      unfold Engine.initializeFields
      split
      · refine (Lockstep.access (alike.get _ _)).bind fun existing => ?_
        cases existing with
        | some existing => exact inductionHypothesis
        | none =>
            exact (alike.ensure _ _ _).discard.bind fun _ => inductionHypothesis.bind fun _ =>
              .pure _
      · exact inductionHypothesis

theorem initializeScope (engine : Engine) (scope : Entity) :
    Lockstep related (engine.initializeScope scope) (engine.initializeScope scope) :=
  alike.initializeFields _ _ _

/-- A change that an event asks for is one batch. -/
theorem applyTargetChange (engine : Engine) (entity : Entity) (change : TargetChange) :
    Lockstep related (engine.applyTargetChange entity change)
      (engine.applyTargetChange entity change) :=
  alike.applyAll _ _ _ _

/-- A creation that is rejected is cleaned up on both stores. -/
theorem entityCreated (engine : Engine) (entity : Entity) :
    Lockstep related (engine.entityCreated entity) (engine.entityCreated entity) := by
  unfold Engine.entityCreated
  cases engine.registry.isScopeKind entity.kind with
  | true =>
      refine (alike.initializeScope _ _).discard.bind fun _ =>
        (Lockstep.attempt (alike.applyTargetChange _ _ _)).bind fun result => ?_
      cases result with
      | ok _ => exact .pure _
      | error error =>
          exact (Lockstep.attempt (alike.childDeleted _ _)).discard.bind fun _ => .throw _
  | false =>
      refine (Lockstep.attempt (alike.applyTargetChange _ _ _)).bind fun result => ?_
      cases result with
      | ok _ => exact .pure _
      | error error => exact .throw _

/-- A deletion changes the counters first, and then removes the records. -/
theorem entityDeleted (engine : Engine) (entity : Entity) :
    Lockstep related (engine.entityDeleted entity) (engine.entityDeleted entity) := by
  refine (alike.applyTargetChange _ _ _).bind fun _ => ?_
  split
  · exact alike.childDeleted _ _
  · exact .pure _

/-- A changed attribute changes the same totals. -/
theorem attributeChanged (engine : Engine) (entity : Entity) (name : String) (old new : Amount) :
    Lockstep related (engine.attributeChanged entity name old new)
      (engine.attributeChanged entity name old new) := by
  unfold Engine.attributeChanged
  split
  · exact .pure _
  · exact alike.applyTargetChange _ _ _

theorem handle (engine : Engine) (event : EntityEvent) :
    Lockstep related (engine.handle event) (engine.handle event) := by
  cases event with
  | created entity => exact alike.entityCreated _ _
  | deleted entity => exact alike.entityDeleted _ _
  | attributeChanged entity name old new => exact alike.attributeChanged _ _ _ _ _

/-- The usage that should be stored is computed from equal reads. -/
theorem trueUsage (engine : Engine) (scope : Entity) (field : Field) :
    Lockstep related (engine.trueUsage? scope field) (engine.trueUsage? scope field) := by
  unfold Engine.trueUsage?
  cases field.rule with
  | direct => exact .pure _
  | counter rule => exact .pure _
  | total rule => exact .pure _
  | aggregator rule => exact (alike.sumChildren _ _ _).bind fun _ => .pure _

/-- A repair of one record reports the same old usage and the same new one. -/
theorem recalculateField (engine : Engine) (scope : Entity) (field : Field) (report : Report) :
    Lockstep related (engine.recalculateField scope field report)
      (engine.recalculateField scope field report) := by
  refine (Lockstep.access (alike.getOrCreate _ _ _)).bind fun result => ?_
  refine (alike.trueUsage _ _ _).bind fun usage => ?_
  cases usage with
  | none => exact .pure _
  | some usage =>
      dsimp only
      split
      · exact .pure _
      · exact (Lockstep.access (alike.setUsage _ _ _)).discard.bind fun _ => .pure _

theorem recalculateFields (engine : Engine) (scope : Entity) (fields : List Field)
    (report : Report) :
    Lockstep related (engine.recalculateFields scope fields report)
      (engine.recalculateFields scope fields report) := by
  induction fields generalizing report with
  | nil => exact .pure _
  | cons field fields inductionHypothesis =>
      unfold Engine.recalculateFields
      split
      · exact (alike.recalculateField _ _ _ _).bind fun _ => inductionHypothesis _
      · exact inductionHypothesis _

/-- The scopes are repaired in one order, with equal reports after each. -/
theorem recalculateScopes (engine : Engine) (scopes : List Entity) (report : Report) :
    Lockstep related (engine.recalculateScopes scopes report)
      (engine.recalculateScopes scopes report) := by
  induction scopes generalizing report with
  | nil => exact .pure _
  | cons scope scopes inductionHypothesis =>
      exact (alike.recalculateFields _ _ _ _).bind fun _ => inductionHypothesis _

/-- The depths come from the graph alone, so two repairs are refused alike. -/
theorem recalculateAll (engine : Engine) :
    Lockstep related (engine.recalculateAll) (engine.recalculateAll) :=
  (Lockstep.ofExcept _).bind fun _ => alike.recalculateScopes _ _ _

end AnswersAlike

end HierarchicalQuota
