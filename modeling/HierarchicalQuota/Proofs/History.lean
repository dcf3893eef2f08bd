import HierarchicalQuota.Proofs.Lockstep
import HierarchicalQuota.Proofs.Store.Recorded

namespace HierarchicalQuota

variable {ε σ α β : Type}

namespace RecordedStore

/-- Every recorded call was fit for the store that it found. -/
def AllFit (fit : StoreCall → σ → Prop) (history : List (StoreCall × σ)) : Prop :=
  ∀ entry ∈ history, fit entry.1 entry.2

/-- Fitness of a whole history can be decided where it can be decided for each call. -/
instance (fit : StoreCall → σ → Prop) [∀ call store, Decidable (fit call store)]
    (history : List (StoreCall × σ)) : Decidable (AllFit fit history) :=
  inferInstanceAs (Decidable (∀ entry ∈ history, fit entry.1 entry.2))

/-- The calls of a shorter history are fit as well. -/
theorem AllFit.mono {fit : StoreCall → σ → Prop} {before after : List (StoreCall × σ)}
    (allFit : AllFit fit after) (grows : before ⊆ after) : AllFit fit before :=
  fun entry member => allFit entry (grows member)

section Noted

variable (call : StoreCall) (access : StoreAccess σ α)

/-- An access that is recorded has its own outcome. -/
theorem outcome_noted (state : RecordedStore σ) :
    Action.outcome (noted call access) state = Action.outcome access state.store := by
  unfold Action.outcome noted
  cases access state.store <;> rfl

/-- An access that is recorded leaves the store as it would do on its own. -/
theorem store_after_noted (state : RecordedStore σ) :
    (Action.after (noted call access) state).store = Action.after access state.store := by
  unfold Action.after noted
  cases access state.store <;> rfl

/-- The latest call comes first, with the store that it found. -/
theorem history_after_noted (state : RecordedStore σ) :
    (Action.after (noted call access) state).history = (call, state.store) :: state.history := by
  unfold Action.after noted
  cases access state.store <;> rfl

/-- Recording an access does not change what it does. -/
theorem lockstep_noted :
    Lockstep (fun (state : RecordedStore σ) store => state.store = store) (noted call access)
      access := by
  rintro state _ rfl
  exact ⟨outcome_noted call access state, store_after_noted call access state⟩

/-- An access that is recorded keeps all that was recorded before it. -/
theorem lockstep_noted_self (start : List (StoreCall × σ)) :
    Lockstep (fun (left right : RecordedStore σ) => left = right ∧ start ⊆ right.history)
      (noted call access) (noted call access) := by
  rintro state _ ⟨rfl, grows⟩
  refine ⟨rfl, rfl, ?_⟩
  rw [history_after_noted]
  exact List.subset_cons_of_subset _ grows

end Noted

variable [QuotaStore σ]

/-- A store answers like the recording of it. -/
theorem answersAlike : AnswersAlike fun (state : RecordedStore σ) store => state.store = store where
  get _ _ := lockstep_noted _ _
  getOrCreate _ _ _ := lockstep_noted _ _
  setLimit _ _ _ := lockstep_noted _ _
  setUsage _ _ _ := lockstep_noted _ _
  addUsage _ _ _ _ := lockstep_noted _ _
  shiftUsage _ _ _ := lockstep_noted _ _
  listScope _ := lockstep_noted _ _
  deleteScope _ := lockstep_noted _ _

/-- A store that records its calls answers like itself, and its history never shrinks. Every action
of the engine inherits this from its single calls. -/
theorem answersAlike_self (start : List (StoreCall × σ)) :
    AnswersAlike fun (left right : RecordedStore σ) =>
      left = right ∧ start ⊆ right.history where
  get _ _ := lockstep_noted_self _ _ start
  getOrCreate _ _ _ := lockstep_noted_self _ _ start
  setLimit _ _ _ := lockstep_noted_self _ _ start
  setUsage _ _ _ := lockstep_noted_self _ _ start
  addUsage _ _ _ _ := lockstep_noted_self _ _ start
  shiftUsage _ _ _ := lockstep_noted_self _ _ start
  listScope _ := lockstep_noted_self _ _ start
  deleteScope _ := lockstep_noted_self _ _ start

end RecordedStore

namespace Action

/-- The history of a run lists its calls, the latest first. -/
def history (action : EStateM ε (RecordedStore σ) α) (store : σ) : List (StoreCall × σ) :=
  (after action ⟨store, []⟩).history

/-- An action that only adds to the history keeps what was recorded before. -/
class Extends (action : EStateM ε (RecordedStore σ) α) : Prop where
  grows (state : RecordedStore σ) : state.history ⊆ (after action state).history

/-- An action that runs in lockstep with itself takes nothing back. -/
theorem extends_of_lockstep {action : EStateM ε (RecordedStore σ) α}
    (alike : ∀ start, Lockstep (fun left right => left = right ∧ start ⊆ right.history)
      action action) : Extends action :=
  ⟨fun state => (alike state.history state state ⟨rfl, fun _ member => member⟩).2.2⟩

section Extends

/-- A value that is returned records nothing. -/
instance extends_pure (value : α) : Extends (pure value : EStateM ε (RecordedStore σ) α) :=
  ⟨fun _ _ member => member⟩

instance extends_throw (error : ε) : Extends (throw error : EStateM ε (RecordedStore σ) α) :=
  ⟨fun _ _ member => member⟩

/-- A sequence of actions keeps the history that the first of them leaves. -/
instance extends_bind {action : EStateM ε (RecordedStore σ) α}
    {next : α → EStateM ε (RecordedStore σ) β} [start : Extends action]
    [rest : ∀ value, Extends (next value)] : Extends (action >>= next) where
  grows state := by
    rw [after_bind]
    cases outcome action state with
    | ok value => exact fun _ member => (rest value).grows _ (start.grows state member)
    | error error => exact start.grows state

instance extends_discard {action : EStateM ε (RecordedStore σ) α} [Extends action] :
    Extends (discard action) := by
  rw [discard_eq_bind]
  infer_instance

/-- An error that is caught takes nothing back. -/
instance extends_attempt {action : EStateM ε (RecordedStore σ) α} [start : Extends action] :
    Extends (attempt action) where
  grows state := by
    rw [after_attempt]
    exact start.grows state

/-- The history of an access is that of the call behind it. -/
instance extends_access {request : StoreAccess (RecordedStore σ) α} [start : Extends request] :
    Extends (access request) where
  grows state := by
    rw [after_access]
    exact start.grows state

/-- A call is added in front of the history. -/
instance extends_noted (call : StoreCall) (access : StoreAccess σ α) :
    Extends (RecordedStore.noted call access) :=
  extends_of_lockstep (RecordedStore.lockstep_noted_self call access)

/-- Both branches of a decision keep the history. -/
instance extends_ite {condition : Prop} [Decidable condition]
    {first second : EStateM ε (RecordedStore σ) α} [positive : Extends first]
    [negative : Extends second] : Extends (if condition then first else second) := by
  split
  · exact positive
  · exact negative

/-- The history grows with each item that is collected. -/
instance extends_collect {ι : Type} {action : ι → Action (RecordedStore σ) (List α)}
    [∀ item, Extends (action item)] (items : List ι) : Extends (collect action items) := by
  induction items with
  | nil => exact extends_pure _
  | cons item items inductionHypothesis =>
      unfold collect
      infer_instance

/-- The history grows with each round of a loop. -/
instance extends_forM {ι : Type} {action : ι → Action (RecordedStore σ) PUnit}
    [∀ item, Extends (action item)] (items : List ι) : Extends (items.forM action) := by
  induction items with
  | nil => exact extends_pure _
  | cons item items inductionHypothesis =>
      unfold List.forM
      infer_instance

variable [QuotaStore σ] (engine : Engine)

/-- The creation of a record is one call. -/
instance extends_getOrCreate (scope : Entity) (name : String) (initial : Quota) :
    Extends (QuotaStore.getOrCreate scope name initial : StoreAccess (RecordedStore σ) _) :=
  extends_noted _ _

/-- The write of a limit is one call. -/
instance extends_setLimit (scope : Entity) (name : String) (limit : Amount) :
    Extends (QuotaStore.setLimit scope name limit : StoreAccess (RecordedStore σ) _) :=
  extends_noted _ _

/-- The write of a usage is one call. -/
instance extends_setUsage (scope : Entity) (name : String) (usage : Amount) :
    Extends (QuotaStore.setUsage scope name usage : StoreAccess (RecordedStore σ) _) :=
  extends_noted _ _

/-- A checked increase is one call. -/
instance extends_addUsage (scope : Entity) (name : String) (delta : Amount)
    (validate : Bool) :
    Extends (QuotaStore.addUsage scope name delta validate : StoreAccess (RecordedStore σ) _) :=
  extends_noted _ _

/-- Each aggregate that is shifted adds its call. -/
instance extends_shiftAll (delta : Amount) (aggregates : List Aggregate) :
    Extends (Engine.shiftAll delta aggregates : Action (RecordedStore σ) _) :=
  extends_of_lockstep fun start => (RecordedStore.answersAlike_self start).shiftAll delta aggregates

/-- A propagation adds the calls of all its levels. -/
instance extends_propagate (levels : Nat) (child : Entity) (quota : String)
    (measure : Measure) (delta : Amount) :
    Extends (engine.propagate levels child quota measure delta : Action (RecordedStore σ) _) :=
  extends_of_lockstep fun start => (RecordedStore.answersAlike_self start).propagate _ _ _ _ _ _

/-- Aggregates that are created on the way add their calls as well. -/
instance extends_spread (child : Entity) (quota : String) (measure : Measure)
    (delta : Amount) :
    Extends (engine.spread child quota measure delta : Action (RecordedStore σ) _) :=
  extends_propagate engine _ child quota measure delta

/-- A sum reads the children one after the other. -/
instance extends_sumOver (quota : String) (measure : Measure) (children : List Entity)
    (sum : Amount) :
    Extends (Engine.sumOver quota measure children sum : Action (RecordedStore σ) _) :=
  extends_of_lockstep fun start => (RecordedStore.answersAlike_self start).sumOver _ _ _ _

instance extends_startingQuota (scope : Entity) (field : Field) :
    Extends (engine.startingQuota scope field : Action (RecordedStore σ) _) :=
  extends_of_lockstep fun start => (RecordedStore.answersAlike_self start).startingQuota _ _ _

/-- A nested creation adds its calls to those of the outer one. -/
instance extends_create (budget : Nat) (target : Aggregate) :
    Extends (engine.create budget target : Action (RecordedStore σ) _) :=
  extends_of_lockstep fun start => (RecordedStore.answersAlike_self start).create _ _ _

/-- A record that is there already still costs one call. -/
instance extends_ensure (scope : Entity) (field : Field) :
    Extends (engine.ensure scope field : Action (RecordedStore σ) _) :=
  extends_of_lockstep fun start => (RecordedStore.answersAlike_self start).ensure _ _ _

/-- The aggregates that are missing are created one after the other. -/
instance extends_createMissing (missing : List Aggregate) :
    Extends (engine.createMissing missing : Action (RecordedStore σ) _) :=
  extends_of_lockstep fun start => (RecordedStore.answersAlike_self start).createMissing _ _

/-- A read may create a record, which adds the calls of the creation. -/
instance extends_getOrCreateQuota (scope : Entity) (name : String) :
    Extends (engine.getOrCreate scope name : Action (RecordedStore σ) _) :=
  extends_of_lockstep fun start => (RecordedStore.answersAlike_self start).getOrCreateQuota _ _ _

/-- A difference of zero adds no call, and any other difference spreads. -/
instance extends_childChanged (child : Entity) (name : String) (measure : Measure)
    (old new : Amount) :
    Extends (engine.childChanged child name measure old new : Action (RecordedStore σ) _) :=
  extends_of_lockstep fun start => (RecordedStore.answersAlike_self start).childChanged _ _ _ _ _ _

/-- A limit is written, and its change spreads. -/
instance extends_setLimitOf (scope : Entity) (name : String) (limit : Amount) :
    Extends (engine.setLimit scope name limit : Action (RecordedStore σ) _) :=
  extends_of_lockstep fun start => (RecordedStore.answersAlike_self start).setQuotaLimit _ _ _ _

/-- A change of a usage is written, and what was applied spreads. -/
instance extends_applyDelta (scope : Entity) (name : String) (delta : Amount)
    (validate : Bool) :
    Extends (engine.applyDelta scope name delta validate : Action (RecordedStore σ) _) :=
  extends_of_lockstep fun start => (RecordedStore.answersAlike_self start).applyDelta _ _ _ _ _

/-- An increase that is rejected is recorded too. -/
instance extends_addUsageOf (scope : Entity) (name : String) (delta : Amount)
    (validate : Bool) :
    Extends (engine.addUsage scope name delta validate : Action (RecordedStore σ) _) :=
  extends_of_lockstep fun start => (RecordedStore.answersAlike_self start).addQuotaUsage _ _ _ _ _

/-- A record is withdrawn by at most two changes that spread. -/
instance extends_withdraw (child : Entity) (record : Record) :
    Extends (engine.withdraw child record : Action (RecordedStore σ) _) :=
  extends_of_lockstep fun start => (RecordedStore.answersAlike_self start).withdraw _ _ _

/-- The deletion of a scope is recorded before its records are withdrawn. -/
instance extends_childDeleted (child : Entity) :
    Extends (engine.childDeleted child : Action (RecordedStore σ) _) :=
  extends_of_lockstep fun start => (RecordedStore.answersAlike_self start).childDeleted _ _

instance extends_takeBack (change : Change) :
    Extends (engine.takeBack change : Action (RecordedStore σ) _) :=
  inferInstanceAs (Extends (discard _))

/-- Taking changes back adds calls and removes none. -/
instance extends_compensate (changes : List Change) :
    Extends (engine.compensate changes : Action (RecordedStore σ) _) :=
  extends_of_lockstep fun start => (RecordedStore.answersAlike_self start).compensate _ _

/-- A batch adds the calls of its requests up to the first that fails. -/
instance extends_applyAll (validate : Bool) (requests : List (Except QuotaError Change))
    (applied : List Change) :
    Extends (engine.applyAll validate requests applied : Action (RecordedStore σ) _) :=
  extends_of_lockstep fun start => (RecordedStore.answersAlike_self start).applyAll _ _ _ _

instance extends_applyTargetChange (entity : Entity) (change : TargetChange) :
    Extends (engine.applyTargetChange entity change : Action (RecordedStore σ) _) :=
  inferInstanceAs (Extends (engine.applyAll _ _ _))

/-- Each field that gets its record adds the calls of its creation. -/
instance extends_initializeFields (scope : Entity) (fields : List Field) :
    Extends (engine.initializeFields scope fields : Action (RecordedStore σ) _) :=
  extends_of_lockstep fun start => (RecordedStore.answersAlike_self start).initializeFields _ _ _

/-- The usage that should be stored is computed by reads only. -/
instance extends_trueUsage (scope : Entity) (field : Field) :
    Extends (engine.trueUsage? scope field : Action (RecordedStore σ) _) :=
  extends_of_lockstep fun start => (RecordedStore.answersAlike_self start).trueUsage _ _ _

/-- Each field of a scope is read, and written where it is wrong. -/
instance extends_recalculateFields (scope : Entity) (fields : List Field)
    (report : Report) :
    Extends (engine.recalculateFields scope fields report : Action (RecordedStore σ) _) :=
  extends_of_lockstep fun start => (RecordedStore.answersAlike_self start).recalculateFields _ _ _ _

/-- Each scope adds the calls of its fields. -/
instance extends_recalculateScopes (scopes : List Entity) (report : Report) :
    Extends (engine.recalculateScopes scopes report : Action (RecordedStore σ) _) :=
  extends_of_lockstep fun start => (RecordedStore.answersAlike_self start).recalculateScopes _ _ _

end Extends

end Action

end HierarchicalQuota
