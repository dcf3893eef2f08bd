import HierarchicalQuota.Proofs.Acceptance
import HierarchicalQuota.Proofs.Events
import HierarchicalQuota.Proofs.Initialization
import HierarchicalQuota.Proofs.Recalculation
import HierarchicalQuota.Proofs.Store.Contract
import HierarchicalQuota.Proofs.Validation

namespace HierarchicalQuota

open HierarchicalQuota.Action (Ensures after outcome)
open LawfulStore (lookup put)

/-- The engine goes on with these answers of a store. Any other answer makes it fail or fall back: a
record that is written without having been there passes no change on, and an aggregate that rejects a
shift is left behind. -/
inductive StoreCall.Expects : StoreCall → StoreAnswer → Prop
  | get (scope : Entity) (name : String) (quota : Option Quota) :
      Expects (.get scope name) (.found quota)
  | getOrCreate (scope : Entity) (name : String) (initial quota : Quota) (created : Bool) :
      Expects (.getOrCreate scope name initial) (.ensured quota created)
  | setLimit (scope : Entity) (name : String) (limit old : Amount) :
      Expects (.setLimit scope name limit) (.previous (some old))
  | setUsage (scope : Entity) (name : String) (usage old : Amount) :
      Expects (.setUsage scope name usage) (.previous (some old))
  | addUsage (scope : Entity) (name : String) (delta : Amount) (validate : Bool)
      (update : UsageUpdate) : Expects (.addUsage scope name delta validate) (.updated update)
  | shifted (scope : Entity) (name : String) (delta old new limit : Amount) :
      Expects (.shiftUsage scope name delta) (.updated (.applied old new limit))
  | notShifted (scope : Entity) (name : String) (delta : Amount) :
      Expects (.shiftUsage scope name delta) (.failed (.notFound scope name))
  | listScope (scope : Entity) (records : List Record) : Expects (.listScope scope) (.listed records)
  | deleteScope (scope : Entity) (records : List Record) :
      Expects (.deleteScope scope) (.listed records)

/-- A call of the engine from outside reads quotas, works on them, reports an event or a change, or
asks for a recalculation. -/
inductive EngineCall where
  | usage (scope : Entity) (name : String)
  | limit (scope : Entity) (name : String)
  | quotas (scope : Entity)
  | sums (scopes : List Entity) (names : Option (List String)) (measures : List Measure)
  | validateChange (scope : Entity) (deltas : List (String × Amount))
  | operate (operation : Operation)
  | childChanged (child : Entity) (name : String) (measure : Measure) (old new : Amount)
  | handle (event : EntityEvent)
  | recalculateScope (scope : Entity)
  | recalculateAll
deriving DecidableEq, Inhabited

variable {σ : Type} [QuotaStore σ]

namespace Engine

/-- A call is answered by the action of its name. Increases and decreases are changes, too, which are
operations. -/
def answer (engine : Engine) : EngineCall → Action σ Unit
  | .usage scope name => discard (engine.usage scope name)
  | .limit scope name => discard (engine.limit scope name)
  | .quotas scope => discard (engine.quotas scope)
  | .sums scopes names measures => discard (engine.sums scopes names measures)
  | .validateChange scope deltas => engine.validateChange scope deltas
  | .operate operation => engine.perform operation
  | .childChanged child name measure old new => engine.childChanged child name measure old new
  | .handle event => engine.handle event
  | .recalculateScope scope => discard (engine.recalculateScope scope)
  | .recalculateAll => discard engine.recalculateAll

end Engine

section Lockstep

variable {τ : Type} [QuotaStore τ] {related : τ → σ → Prop} (alike : AnswersAlike related)
  (engine : Engine)

include alike

/-- A quota is read from the record, or from the defaults of its field. -/
theorem AnswersAlike.effective (scope : Entity) (field : Field) :
    Lockstep related (engine.effective scope field) (engine.effective scope field) :=
  (Lockstep.access (alike.get _ _)).bind fun _ => .pure _

theorem AnswersAlike.limit (scope : Entity) (name : String) :
    Lockstep related (engine.limit scope name) (engine.limit scope name) :=
  (Lockstep.ofExcept _).bind fun _ => (alike.effective engine _ _).bind fun _ => .pure _

theorem AnswersAlike.usage (scope : Entity) (name : String) :
    Lockstep related (engine.usage scope name) (engine.usage scope name) :=
  (Lockstep.ofExcept _).bind fun _ => (alike.effective engine _ _).bind fun _ => .pure _

/-- The quotas of a scope are listed alike. -/
theorem AnswersAlike.quotas (scope : Entity) :
    Lockstep related (engine.quotas scope) (engine.quotas scope) := by
  refine Lockstep.collect (fun field => ?_) _
  split
  · exact (alike.effective engine _ _).bind fun _ => .pure _
  · exact .pure _

/-- The sums of one scope are formed alike, quota by quota. -/
theorem AnswersAlike.sumScope (scope : Entity) (measures : List Measure) (names : List String)
    (sums : Table String Amount) :
    Lockstep related (engine.sumScope scope measures names sums)
      (engine.sumScope scope measures names sums) := by
  induction names generalizing sums with
  | nil => exact .pure _
  | cons name names inductionHypothesis =>
      exact (Lockstep.ofExcept _).bind fun _ => (alike.effective engine _ _).bind fun _ =>
        inductionHypothesis _

/-- The sums of several scopes are formed alike, scope by scope. -/
theorem AnswersAlike.sumScopes (names : Option (List String)) (measures : List Measure)
    (scopes : List Entity) (sums : Table String Amount) :
    Lockstep related (engine.sumScopes names measures scopes sums)
      (engine.sumScopes names measures scopes sums) := by
  induction scopes generalizing sums with
  | nil => exact .pure _
  | cons scope scopes inductionHypothesis =>
      exact (alike.sumScope engine _ _ _ _).bind fun _ => inductionHypothesis _

/-- A change is a violation on both stores or on neither. -/
theorem AnswersAlike.violation (scope : Entity) (name : String) (delta : Amount) :
    Lockstep related (engine.violation? scope name delta) (engine.violation? scope name delta) := by
  unfold Engine.violation?
  split
  · refine (alike.limit engine _ _).bind fun limit => ?_
    dsimp only
    split
    · exact .pure _
    · exact (alike.usage engine _ _).bind fun _ => .pure _
  · exact .pure _

/-- A batch has the same violations on both stores. -/
theorem AnswersAlike.validateChange (scope : Entity) (deltas : List (String × Amount)) :
    Lockstep related (engine.validateChange scope deltas) (engine.validateChange scope deltas) := by
  refine (Lockstep.collect (fun delta => alike.violation engine _ _ _) _).bind fun violations => ?_
  split
  · exact .pure _
  · exact .throw _

/-- No call of the engine tells such stores apart. -/
theorem AnswersAlike.answer (call : EngineCall) :
    Lockstep related (engine.answer call) (engine.answer call) := by
  cases call with
  | usage scope name => exact (alike.usage engine _ _).discard
  | limit scope name => exact (alike.limit engine _ _).discard
  | quotas scope => exact (alike.quotas engine _).discard
  | sums scopes names measures => exact (alike.sumScopes engine _ _ _ _).discard
  | validateChange scope deltas => exact alike.validateChange engine _ _
  | operate operation => exact alike.perform engine _
  | childChanged child name measure old new => exact alike.childChanged engine _ _ _ _ _
  | handle event => exact alike.handle engine _
  | recalculateScope scope => exact (alike.recalculateScopes engine _ _).discard
  | recalculateAll => exact (alike.recalculateAll engine).discard

end Lockstep

/-- A call is heeded if the store that it finds answers as the engine expects. -/
def StoreCall.Heeded (call : StoreCall) (store : σ) : Prop := call.Expects (call.perform store).1

namespace Action

variable {α β ι : Type}

/-- A run is smooth from a state on if it adds only heeded calls to the history and does not fail for
the store. -/
structure SmoothAt (action : Action (RecordedStore σ) α) (state : RecordedStore σ) : Prop where
  heeded : RecordedStore.AllFit StoreCall.Heeded state.history →
    RecordedStore.AllFit StoreCall.Heeded (after action state).history
  noStorage (cause : StorageError) : outcome action state ≠ .error (.storage cause)

/-- An action is smooth if all its runs are. -/
def Smooth (action : Action (RecordedStore σ) α) : Prop := ∀ state, SmoothAt action state

/-- A value that is returned calls no store. -/
theorem smooth_pure (value : α) : Smooth (pure value : Action (RecordedStore σ) α) :=
  fun _ => ⟨id, by rintro _ ⟨⟩⟩

/-- An error of the engine's own is no failure of the store. -/
theorem smooth_throw {error : QuotaError} (other : ∀ cause, error ≠ .storage cause) :
    Smooth (throw error : Action (RecordedStore σ) α) :=
  fun _ => ⟨id, fun cause failed => other cause (Except.error.inj failed)⟩

/-- The second part of a sequence runs from what the first part has left. -/
theorem SmoothAt.bind {action : Action (RecordedStore σ) α}
    {next : α → Action (RecordedStore σ) β} {state : RecordedStore σ} (first : SmoothAt action state)
    (second : ∀ value, outcome action state = .ok value → SmoothAt (next value) (after action state)) :
    SmoothAt (action >>= next) state := by
  constructor
  · intro allHeeded
    rw [after_bind]
    cases result : outcome action state with
    | ok value => exact (second value result).heeded (first.heeded allHeeded)
    | error error => exact first.heeded allHeeded
  · intro cause
    rw [outcome_bind]
    cases result : outcome action state with
    | ok value => exact (second value result).noStorage cause
    | error error =>
        have noStorage := first.noStorage cause
        rw [result] at noStorage
        exact fun failed => noStorage (congrArg _ (Except.error.inj failed))

/-- Smooth actions are smooth one after the other. -/
theorem Smooth.bind {action : Action (RecordedStore σ) α} {next : α → Action (RecordedStore σ) β}
    (first : Smooth action) (second : ∀ value, Smooth (next value)) : Smooth (action >>= next) :=
  fun state => (first state).bind fun value _ => second value _

/-- Dropping a value calls no store. -/
theorem Smooth.discard {action : Action (RecordedStore σ) α} (smooth : Smooth action) :
    Smooth (discard action) := by
  rw [discard_eq_bind]
  exact smooth.bind fun _ => smooth_pure _

/-- A result that was computed without the store is smooth unless it is an error of the store. -/
theorem smooth_ofExcept {result : Except QuotaError α}
    (other : ∀ cause, result ≠ .error (.storage cause)) :
    Smooth (ofExcept result : Action (RecordedStore σ) α) := by
  intro state
  constructor
  · rw [after_ofExcept]
    exact id
  · intro cause
    rw [outcome_ofExcept]
    exact other cause

/-- An error that is caught is no failure, but the calls before it still have to be heeded. -/
theorem Smooth.attempt {action : Action (RecordedStore σ) α} (smooth : Smooth action) :
    Smooth (attempt action) := by
  intro state
  constructor
  · rw [after_attempt]
    exact (smooth state).heeded
  · intro cause failed
    rw [outcome_attempt] at failed
    cases failed

/-- A list is collected smoothly if each of its items is. -/
theorem smooth_collect {action : ι → Action (RecordedStore σ) (List α)}
    (each : ∀ item, Smooth (action item)) (items : List ι) : Smooth (collect action items) := by
  induction items with
  | nil => exact smooth_pure _
  | cons item items inductionHypothesis =>
      exact (each item).bind fun _ => inductionHypothesis.bind fun _ => smooth_pure _

/-- A loop is smooth if all its rounds are. -/
theorem smooth_forM {action : ι → Action (RecordedStore σ) PUnit} (each : ∀ item, Smooth (action item))
    (items : List ι) : Smooth (items.forM action) := by
  induction items with
  | nil => exact smooth_pure _
  | cons item items inductionHypothesis => exact (each item).bind fun _ => inductionHypothesis

/-- An access is smooth where its call is heeded and it succeeds. -/
theorem smoothAt_noted {call : StoreCall} {request : StoreAccess σ α} {state : RecordedStore σ}
    {value : α} {kept : σ} (run : request state.store = .ok value kept)
    (heeded : call.Heeded state.store) :
    SmoothAt (access (RecordedStore.noted call request)) state := by
  constructor
  · intro allHeeded
    rw [after_access, RecordedStore.history_after_noted]
    exact List.forall_mem_cons.2 ⟨heeded, allHeeded⟩
  · intro cause failed
    rw [outcome_access, RecordedStore.outcome_noted, (eq_ok_iff.1 run).1] at failed
    cases failed

section Lawful

variable [LawfulStore σ] (scope : Entity) (name : String)

/-- A read finds a quota or none, and the engine expects both. -/
theorem smooth_get : Smooth (access (σ := RecordedStore σ) (QuotaStore.get scope name)) := by
  intro state
  have run := LawfulStore.get_eq state.store scope name
  refine smoothAt_noted run ?_
  rw [StoreCall.Heeded, StoreCall.perform, run]
  exact .get scope name _

/-- A creation is smooth with a record and without one. -/
theorem smooth_getOrCreate (initial : Quota) :
    Smooth (access (σ := RecordedStore σ) (QuotaStore.getOrCreate scope name initial)) := by
  intro state
  have run := LawfulStore.getOrCreate_eq state.store scope name initial
  cases found : lookup state.store scope name with
  | some quota =>
      rw [found] at run
      refine smoothAt_noted run ?_
      rw [StoreCall.Heeded, StoreCall.perform, run]
      exact .getOrCreate scope name initial quota false
  | none =>
      rw [found] at run
      refine smoothAt_noted run ?_
      rw [StoreCall.Heeded, StoreCall.perform, run]
      exact .getOrCreate scope name initial initial true

/-- The records of a scope are listed when they are removed. -/
theorem smooth_deleteScope :
    Smooth (access (σ := RecordedStore σ) (QuotaStore.deleteScope scope)) := by
  intro state
  have run := LawfulStore.deleteScope_eq state.store scope
  refine smoothAt_noted run ?_
  rw [StoreCall.Heeded, StoreCall.perform, run]
  exact .deleteScope scope _

section Stored

variable {scope name} {state : RecordedStore σ} (present : stored state.store scope name = true)

include present

/-- A limit that is set where a record is stored learns the limit that was there. -/
theorem smoothAt_setLimit (limit : Amount) :
    SmoothAt (access (QuotaStore.setLimit scope name limit)) state := by
  obtain ⟨quota, found⟩ := lookup_of_stored present
  have run := LawfulStore.setLimit_eq state.store scope name limit
  rw [found] at run
  refine smoothAt_noted run ?_
  rw [StoreCall.Heeded, StoreCall.perform, run]
  exact .setLimit scope name limit quota.limit

/-- A usage that is set where a record is stored learns the usage that was there. -/
theorem smoothAt_setUsage (usage : Amount) :
    SmoothAt (access (QuotaStore.setUsage scope name usage)) state := by
  obtain ⟨quota, found⟩ := lookup_of_stored present
  have run := LawfulStore.setUsage_eq state.store scope name usage
  rw [found] at run
  refine smoothAt_noted run ?_
  rw [StoreCall.Heeded, StoreCall.perform, run]
  exact .setUsage scope name usage quota.usage

/-- A usage that is changed where a record is stored is applied or rejected. -/
theorem smoothAt_addUsage (delta : Amount) (validate : Bool) :
    SmoothAt (access (QuotaStore.addUsage scope name delta validate)) state := by
  obtain ⟨quota, found⟩ := lookup_of_stored present
  have run := LawfulStore.addUsage_eq state.store scope name delta validate
  rw [found] at run
  refine smoothAt_noted run ?_
  rw [StoreCall.Heeded, StoreCall.perform, run]
  exact .addUsage scope name delta validate _

end Stored

/-- A shift is applied or finds no record, so these two ways to go on are all that there are. -/
theorem smooth_shiftUsage_bind (delta : Amount)
    {next : Except StorageError UsageUpdate → Action (RecordedStore σ) α}
    (applied : ∀ old new limit, Smooth (next (.ok (.applied old new limit))))
    (missing : Smooth (next (.error (.notFound scope name)))) :
    Smooth (attempt (QuotaStore.shiftUsage scope name delta) >>= next) := by
  intro state
  have run := LawfulStore.shiftUsage_eq state.store scope name delta
  have heeded : (StoreCall.shiftUsage scope name delta).Heeded state.store := by
    rw [StoreCall.Heeded, StoreCall.perform, run]
    cases lookup state.store scope name with
    | some quota => exact .shifted scope name delta _ _ _
    | none => exact .notShifted scope name delta
  refine SmoothAt.bind ⟨fun allHeeded => ?_, fun cause failed => ?_⟩ fun answer result => ?_
  · rw [after_attempt]
    change RecordedStore.AllFit _ (after (RecordedStore.noted _ _) state).history
    rw [RecordedStore.history_after_noted]
    exact List.forall_mem_cons.2 ⟨heeded, allHeeded⟩
  · rw [outcome_attempt] at failed
    cases failed
  · rw [outcome_attempt] at result
    change Except.ok (outcome (RecordedStore.noted _ _) state) = _ at result
    rw [RecordedStore.outcome_noted] at result
    obtain rfl := Except.ok.inj result
    cases found : lookup state.store scope name with
    | some quota =>
        rw [found] at run
        rw [(eq_ok_iff.1 run).1]
        exact applied _ _ _ _
    | none =>
        rw [found] at run
        rw [(eq_error_iff.1 run).1]
        exact missing _

end Lawful

end Action

variable [LawfulStore σ]

namespace Engine

open HierarchicalQuota.Action (Smooth SmoothAt)

section Presence

variable {engine : Engine} {fit : StoreCall → σ → Prop} {scope : Entity} {name : String}

/-- A quota that has been read or created has a record, whatever was created with it. -/
theorem ensures_getOrCreate_stored_after (store : σ) :
    Ensures fit (engine.getOrCreate scope name) store fun result after =>
      ∀ quota, result = .ok quota → stored after scope name = true := by
  by_cases available : engine.Available scope name
  · obtain ⟨field, known, connected⟩ := available
    obtain ⟨registered, rfl⟩ := Registry.field?_eq_some_iff.1 known
    refine (ensures_getOrCreate_kept
      (spreads_stored fun other label => scope = other ∧ field.name = label) registered connected
      (fun _ found => ?_) fun _ _ => ⟨stored_put (fun _ _ same => .inl same) _, trivial⟩).mono ?_
    · rintro _ _ ⟨rfl, rfl⟩
      exact stored_of_lookup found
    · exact fun _ _ kept _ _ => kept.1 _ _ ⟨rfl, rfl⟩
  · refine (ensures_getOrCreate_unavailable available).mono ?_
    rintro _ after ⟨-, error, rfl⟩ quota ⟨⟩

/-- A record that the store has been asked to create is there. -/
theorem stored_after_getOrCreate (scope : Entity) (name : String) (initial : Quota)
    (state : RecordedStore σ) :
    stored (after (Action.access (QuotaStore.getOrCreate scope name initial)) state).store
      scope name = true := by
  have ensures : Ensures (fun _ _ => True) (Action.access
      (QuotaStore.getOrCreate scope name initial)) state.store
      fun _ after => ∀ other label, scope = other ∧ name = label → stored after other label = true := by
    refine Action.ensures_access (Action.ensures_getOrCreate (fun quota found => ?_)
      fun _ _ => stored_put (fun _ _ same => .inl same) _)
    rintro _ _ ⟨rfl, rfl⟩
    exact stored_of_lookup found
  exact ensures state.history (fun _ _ => trivial) _ _ ⟨rfl, rfl⟩

/-- A run that reads or creates a quota leaves a record of it in its recorded store. -/
theorem stored_of_getOrCreate {state : RecordedStore σ}
    (ok : outcome (discard (engine.getOrCreate scope name)) state = .ok ⟨⟩) :
    stored (after (discard (engine.getOrCreate scope name)) state).store scope name = true := by
  have ensures : Ensures (fun _ _ => True) (discard (engine.getOrCreate scope name)) state.store
      fun result after => result = .ok ⟨⟩ → stored after scope name = true := by
    refine Action.ensures_discard ((ensures_getOrCreate_stored_after state.store).mono ?_)
    rintro (error | quota) after present
    · rintro ⟨⟩
    · exact fun _ => present quota rfl
  exact ensures state.history (fun _ _ => trivial) ok

end Presence

variable (engine : Engine)

/-- Every aggregate of a list moves or is missing. -/
theorem smooth_shiftAll (delta : Amount) (aggregates : List Aggregate) :
    Smooth (shiftAll (σ := RecordedStore σ) delta aggregates) := by
  induction aggregates with
  | nil => exact Action.smooth_pure _
  | cons aggregate rest inductionHypothesis =>
      apply Action.smooth_shiftUsage_bind
      · exact fun old new limit => inductionHypothesis.bind fun _ => Action.smooth_pure _
      · exact inductionHypothesis.bind fun _ => Action.smooth_pure _

/-- Every level of a propagation is smooth, by induction on the levels that are left. -/
theorem smooth_propagate (levels : Nat) (child : Entity) (quota : String) (measure : Measure)
    (delta : Amount) :
    Smooth (engine.propagate (σ := RecordedStore σ) levels child quota measure delta) := by
  induction levels generalizing child quota measure delta with
  | zero =>
      unfold propagate
      split
      · exact Action.smooth_pure _
      · exact Action.smooth_throw (by rintro _ ⟨⟩)
  | succ levels inductionHypothesis =>
      unfold propagate
      split
      · exact Action.smooth_pure _
      · exact (smooth_shiftAll _ _).bind fun _ =>
          (Action.smooth_collect (fun _ => inductionHypothesis _ _ _ _) _).bind fun _ =>
            Action.smooth_pure _

theorem smooth_spread (child : Entity) (quota : String) (measure : Measure) (delta : Amount) :
    Smooth (engine.spread (σ := RecordedStore σ) child quota measure delta) :=
  engine.smooth_propagate _ _ _ _ _

/-- The children of a sum are only read. -/
theorem smooth_sumOver (quota : String) (measure : Measure) (children : List Entity)
    (sum : Amount) : Smooth (sumOver (σ := RecordedStore σ) quota measure children sum) := by
  induction children generalizing sum with
  | nil => exact Action.smooth_pure _
  | cons child children inductionHypothesis =>
      refine (Action.smooth_get _ _).bind fun record => ?_
      cases record with
      | none => exact inductionHypothesis _
      | some record => exact inductionHypothesis _

/-- The sum of an aggregate is only read, and other fields read nothing. -/
theorem smooth_sumChildren (scope : Entity) (field : Field) :
    Smooth (engine.sumChildren (σ := RecordedStore σ) scope field) := by
  unfold sumChildren
  split
  · exact smooth_sumOver _ _ _ _
  · exact Action.smooth_pure _

/-- A record begins with a sum that was read, or with its defaults. -/
theorem smooth_startingQuota (scope : Entity) (field : Field) :
    Smooth (engine.startingQuota (σ := RecordedStore σ) scope field) := by
  unfold startingQuota
  split
  · exact (engine.smooth_sumChildren _ _).bind fun _ => Action.smooth_pure _
  · exact Action.smooth_pure _

/-- The induction is on the budget of nested creations. -/
theorem smooth_create (budget : Nat) (target : Aggregate) :
    Smooth (engine.create (σ := RecordedStore σ) budget target) := by
  induction budget generalizing target with
  | zero =>
      unfold create
      refine (Action.smooth_get _ _).bind fun existing => ?_
      cases existing with
      | some existing => exact Action.smooth_pure _
      | none =>
          refine (engine.smooth_startingQuota _ _).bind fun starting =>
            (Action.smooth_getOrCreate _ _ _).bind fun answer => ?_
          dsimp only
          split
          · exact Action.smooth_pure _
          · exact Action.smooth_pure _
  | succ budget inductionHypothesis =>
      unfold create
      refine (Action.smooth_get _ _).bind fun existing => ?_
      cases existing with
      | some existing => exact Action.smooth_pure _
      | none =>
          refine (engine.smooth_startingQuota _ _).bind fun starting =>
            (Action.smooth_getOrCreate _ _ _).bind fun answer => ?_
          dsimp only
          split
          · exact (engine.smooth_spread _ _ _ _).bind fun _ =>
              (engine.smooth_spread _ _ _ _).bind fun _ =>
                (Action.smooth_forM (fun aggregate => (inductionHypothesis aggregate).discard) _).bind
                  fun _ => Action.smooth_pure _
          · exact Action.smooth_pure _

/-- Aggregates that were found missing are created smoothly. -/
theorem smooth_createMissing (missing : List Aggregate) :
    Smooth (engine.createMissing (σ := RecordedStore σ) missing) :=
  Action.smooth_forM (fun aggregate => (engine.smooth_create _ aggregate).discard) missing

/-- A record is read before it is created. -/
theorem smooth_ensure (scope : Entity) (field : Field) :
    Smooth (engine.ensure (σ := RecordedStore σ) scope field) := by
  refine (Action.smooth_get _ _).bind fun existing => ?_
  cases existing with
  | some existing => exact Action.smooth_pure _
  | none => exact engine.smooth_create _ _

omit [LawfulStore σ] in
/-- A field that is not registered is no matter of the store. -/
theorem smooth_field (scope : Entity) (name : String) :
    Smooth (Action.ofExcept (engine.field scope name) : Action (RecordedStore σ) Field) := by
  apply Action.smooth_ofExcept
  intro cause
  unfold field Registry.field
  cases engine.registry.field? scope.kind name <;> rintro ⟨⟩

/-- A quota that is not connected fails without a call. -/
theorem smooth_getOrCreateQuota (scope : Entity) (name : String) :
    Smooth (engine.getOrCreate (σ := RecordedStore σ) scope name) := by
  refine (engine.smooth_field scope name).bind fun field => ?_
  split
  · exact engine.smooth_ensure _ _
  · exact Action.smooth_throw (by rintro _ ⟨⟩)

/-- A change spreads smoothly, and what it finds missing is created. -/
theorem smooth_childChanged (child : Entity) (name : String) (measure : Measure)
    (old new : Amount) :
    Smooth (engine.childChanged (σ := RecordedStore σ) child name measure old new) :=
  (engine.smooth_spread _ _ _ _).bind fun _ => engine.smooth_createMissing _

/-- The record that a write needs is there once the quota has been read or created. -/
theorem smooth_getOrCreate_bind {α : Type} {scope : Entity} {name : String}
    {next : PUnit → Action (RecordedStore σ) α}
    (writes : ∀ state, stored state.store scope name = true → SmoothAt (next ⟨⟩) state) :
    Smooth (discard (engine.getOrCreate scope name) >>= next) :=
  fun state => ((engine.smooth_getOrCreateQuota scope name).discard state).bind
    fun _ found => writes _ (stored_of_getOrCreate found)

/-- A limit is set after its record was read or created, so the old limit is there. -/
theorem smooth_setQuotaLimit (scope : Entity) (name : String) (limit : Amount) :
    Smooth (engine.setLimit (σ := RecordedStore σ) scope name limit) :=
  engine.smooth_getOrCreate_bind fun _ present =>
    (Action.smoothAt_setLimit present limit).bind fun _ _ => engine.smooth_childChanged _ _ _ _ _ _

/-- A limit is refused by the engine and not by the store. -/
theorem smooth_updateLimit (scope : Entity) (name : String) (limit : Amount) :
    Smooth (engine.updateLimit (σ := RecordedStore σ) scope name limit) := by
  refine (engine.smooth_field scope name).bind fun field => ?_
  split
  · exact Action.smooth_throw (by rintro _ ⟨⟩)
  · refine (engine.smooth_getOrCreateQuota _ _).bind fun quota => ?_
    split
    · exact Action.smooth_throw (by rintro _ ⟨⟩)
    · exact engine.smooth_setQuotaLimit _ _ _

/-- A usage is set after its record was read or created, so the old usage is there. -/
theorem smooth_setQuotaUsage (scope : Entity) (name : String) (usage : Amount) :
    Smooth (engine.setUsage (σ := RecordedStore σ) scope name usage) :=
  engine.smooth_getOrCreate_bind fun _ present =>
    (Action.smoothAt_setUsage present _).bind fun _ _ => engine.smooth_childChanged _ _ _ _ _ _

/-- A usage is changed after its record was read or created, and a rejection is an error of the
engine. -/
theorem smooth_applyDelta (scope : Entity) (name : String) (delta : Amount) (validate : Bool) :
    Smooth (engine.applyDelta (σ := RecordedStore σ) scope name delta validate) := by
  unfold applyDelta
  split
  · exact Action.smooth_pure _
  refine engine.smooth_getOrCreate_bind fun state present =>
    (Action.smoothAt_addUsage present delta validate).bind fun update _ => ?_
  cases update with
  | applied old new limit =>
      exact ((engine.smooth_childChanged _ _ _ _ _).bind fun _ => Action.smooth_pure _) _
  | rejected usage limit => exact Action.smooth_throw (by rintro _ ⟨⟩) _

/-- The numbers of removed records are taken back smoothly. -/
theorem smooth_childDeleted (child : Entity) :
    Smooth (engine.childDeleted (σ := RecordedStore σ) child) := by
  refine (Action.smooth_deleteScope _).bind fun records =>
    (Action.smooth_collect (fun record => ?_) _).bind fun _ => engine.smooth_createMissing _
  exact (engine.smooth_spread _ _ _ _).bind fun _ => (engine.smooth_spread _ _ _ _).bind fun _ =>
    Action.smooth_pure _

/-- Taking changes back is smooth. -/
theorem smooth_compensate (latestFirst : List Change) :
    Smooth (engine.compensate (σ := RecordedStore σ) latestFirst) :=
  Action.smooth_forM (fun _ => (engine.smooth_applyDelta _ _ _ _).attempt.discard) latestFirst

/-- A request that is refused from the beginning is no matter of the store. -/
theorem smooth_applyAll (validate : Bool) (requests : List (Except QuotaError Change))
    (applied : List Change)
    (other : ∀ error, .error error ∈ requests → ∀ cause, error ≠ .storage cause) :
    Smooth (engine.applyAll (σ := RecordedStore σ) validate requests applied) := by
  induction requests generalizing applied with
  | nil => exact Action.smooth_pure _
  | cons request requests inductionHypothesis =>
      have later := fun error member => other error (List.mem_cons_of_mem _ member)
      have requested : Smooth (Action.ofExcept request : Action (RecordedStore σ) Change) :=
        Action.smooth_ofExcept fun cause failed =>
          other _ (failed ▸ List.mem_cons_self) cause rfl
      have applies := requested.bind fun change =>
        (engine.smooth_applyDelta (σ := σ) change.scope change.name change.amount validate).bind
          fun amount => Action.smooth_pure { change with amount }
      unfold applyAll
      intro state
      refine (applies.attempt state).bind fun outcome found => ?_
      cases outcome with
      | ok change => exact inductionHypothesis _ later _
      | error error =>
          rw [Action.outcome_attempt] at found
          have cause := (applies state).noStorage
          rw [Except.ok.inj found] at cause
          exact ((engine.smooth_compensate _).bind fun _ => Action.smooth_throw
            fun storage same => cause storage (congrArg _ same)) _

/-- The requests of an event are mismatches of the engine, or changes. -/
theorem smooth_applyTargetChange (entity : Entity) (change : TargetChange) :
    Smooth (engine.applyTargetChange (σ := RecordedStore σ) entity change) := by
  refine engine.smooth_applyAll _ _ _ fun error member cause same => ?_
  obtain ⟨scope, name, kind, rfl⟩ := mismatch_of_mem member
  cases same

/-- Each field of a scope is read before its record is created. -/
theorem smooth_initializeFields (scope : Entity) (fields : List Field) :
    Smooth (engine.initializeFields (σ := RecordedStore σ) scope fields) := by
  induction fields with
  | nil => exact Action.smooth_pure _
  | cons field fields inductionHypothesis =>
      unfold initializeFields
      split
      · refine (Action.smooth_get _ _).bind fun existing => ?_
        cases existing with
        | some existing => exact inductionHypothesis
        | none =>
            exact (engine.smooth_ensure _ _).discard.bind fun _ => inductionHypothesis.bind fun _ =>
              Action.smooth_pure _
      · exact inductionHypothesis

/-- An event that fails passes on why the change of its target failed. -/
theorem smooth_attempt_applyTargetChange_bind {α : Type} (entity : Entity) (change : TargetChange)
    {next : Except QuotaError Unit → Action (RecordedStore σ) α} (done : Smooth (next (.ok ⟨⟩)))
    (failed : ∀ error, (∀ cause, error ≠ .storage cause) → Smooth (next (.error error))) :
    Smooth (Action.attempt (engine.applyTargetChange entity change) >>= next) := by
  have smooth := engine.smooth_applyTargetChange (σ := σ) entity change
  intro state
  refine (smooth.attempt state).bind fun result found => ?_
  cases result with
  | ok value => exact done _
  | error error =>
      rw [Action.outcome_attempt] at found
      have noStorage := (smooth state).noStorage
      rw [Except.ok.inj found] at noStorage
      exact failed error (fun cause same => noStorage cause (congrArg _ same)) _

/-- A rejected creation removes the records of the scope again. -/
theorem smooth_entityCreated (entity : Entity) :
    Smooth (engine.entityCreated (σ := RecordedStore σ) entity) := by
  unfold entityCreated
  cases engine.registry.isScopeKind entity.kind with
  | true =>
      refine (engine.smooth_initializeFields _ _).discard.bind fun _ =>
        engine.smooth_attempt_applyTargetChange_bind _ _ (Action.smooth_pure _) fun error other => ?_
      exact (engine.smooth_childDeleted _).attempt.discard.bind fun _ => Action.smooth_throw other
  | false =>
      exact engine.smooth_attempt_applyTargetChange_bind _ _ (Action.smooth_pure _)
        fun error other => Action.smooth_throw other

/-- Each kind of event is handled smoothly. -/
theorem smooth_handle (event : EntityEvent) :
    Smooth (engine.handle (σ := RecordedStore σ) event) := by
  cases event with
  | created entity => exact engine.smooth_entityCreated entity
  | deleted entity =>
      refine (engine.smooth_applyTargetChange entity .deleted).bind fun _ => ?_
      split
      · exact engine.smooth_childDeleted _
      · exact Action.smooth_pure _
  | attributeChanged entity name old new =>
      unfold handle attributeChanged
      dsimp only
      split
      · exact Action.smooth_pure _
      · exact engine.smooth_applyTargetChange _ _

/-- Each kind of operation runs smoothly. -/
theorem smooth_perform (operation : Operation) :
    Smooth (engine.perform (σ := RecordedStore σ) operation) := by
  cases operation with
  | getOrCreate scope name => exact (engine.smooth_getOrCreateQuota _ _).discard
  | initializeScope scope => exact (engine.smooth_initializeFields _ _).discard
  | setLimit scope name limit => exact engine.smooth_setQuotaLimit _ _ _
  | updateLimit scope name limit => exact engine.smooth_updateLimit _ _ _
  | childDeleted scope => exact engine.smooth_childDeleted _
  | setUsage scope name usage => exact engine.smooth_setQuotaUsage _ _ _
  | addUsage scope name delta validate => exact (engine.smooth_applyDelta _ _ _ _).discard
  | applyChanges scopes deltas multiplier validate =>
      refine engine.smooth_applyAll _ _ _ fun error member => ?_
      obtain ⟨change, -, same⟩ := List.mem_map.1 member
      cases same

/-- The usage that should be stored is only read. -/
theorem smooth_trueUsage (scope : Entity) (field : Field) :
    Smooth (engine.trueUsage? (σ := RecordedStore σ) scope field) := by
  unfold trueUsage?
  cases field.rule with
  | direct => exact Action.smooth_pure _
  | counter rule => exact Action.smooth_pure _
  | total rule => exact Action.smooth_pure _
  | aggregator rule =>
      exact (engine.smooth_sumChildren _ _).bind fun _ => Action.smooth_pure _

/-- The true usage is found without any change of the store, so the record that was read or created
before is still there when its usage is set. -/
theorem smooth_recalculateField (scope : Entity) (field : Field) (report : Report) :
    Smooth (engine.recalculateField (σ := RecordedStore σ) scope field report) := by
  intro state
  refine (Action.smooth_getOrCreate _ _ _ state).bind fun answer _ => ?_
  have present := stored_after_getOrCreate scope field.name (field.initial scope engine.graph) state
  generalize after _ state = middle at present ⊢
  have unchanged := (engine.ensures_trueUsage scope field middle.store middle.history
    fun _ _ => trivial).2
  refine (engine.smooth_trueUsage scope field middle).bind fun usage? _ => ?_
  cases usage? with
  | none => exact Action.smooth_pure _ _
  | some usage =>
      dsimp only
      split
      · exact Action.smooth_pure _ _
      · rw [Action.discard_eq_bind, bind_assoc]
        exact (Action.smoothAt_setUsage (unchanged ▸ present) usage).bind
          fun _ _ => (Action.smooth_pure _).bind (fun _ => Action.smooth_pure _) _

/-- The fields of a scope are repaired one after the other. -/
theorem smooth_recalculateFields (scope : Entity) (fields : List Field) (report : Report) :
    Smooth (engine.recalculateFields (σ := RecordedStore σ) scope fields report) := by
  induction fields generalizing report with
  | nil => exact Action.smooth_pure _
  | cons field fields inductionHypothesis =>
      unfold recalculateFields
      split
      · exact (engine.smooth_recalculateField _ _ _).bind fun _ => inductionHypothesis _
      · exact inductionHypothesis _

/-- The scopes are repaired one after the other. -/
theorem smooth_recalculateScopes (scopes : List Entity) (report : Report) :
    Smooth (engine.recalculateScopes (σ := RecordedStore σ) scopes report) := by
  induction scopes generalizing report with
  | nil => exact Action.smooth_pure _
  | cons scope scopes inductionHypothesis =>
      exact (engine.smooth_recalculateFields _ _ _).bind fun _ => inductionHypothesis _

/-- A recalculation fails only for a hierarchy that is too deep. -/
theorem smooth_recalculateAll : Smooth (engine.recalculateAll (σ := RecordedStore σ)) := by
  refine (Action.smooth_ofExcept fun cause failed => ?_).bind fun _ =>
    engine.smooth_recalculateScopes _ _
  obtain ⟨deep, same⟩ := Graph.failsInHierarchy_depths _ _ _ failed
  cases same

section Reads

/-- A quota without a record is no failure. -/
theorem smooth_effective (scope : Entity) (field : Field) :
    Smooth (engine.effective (σ := RecordedStore σ) scope field) :=
  (Action.smooth_get _ _).bind fun _ => Action.smooth_pure _

theorem smooth_limit (scope : Entity) (name : String) :
    Smooth (engine.limit (σ := RecordedStore σ) scope name) :=
  (engine.smooth_field _ _).bind fun _ => (engine.smooth_effective _ _).bind fun _ =>
    Action.smooth_pure _

theorem smooth_usage (scope : Entity) (name : String) :
    Smooth (engine.usage (σ := RecordedStore σ) scope name) :=
  (engine.smooth_field _ _).bind fun _ => (engine.smooth_effective _ _).bind fun _ =>
    Action.smooth_pure _

/-- The fields of a scope are read one after the other. -/
theorem smooth_quotas (scope : Entity) :
    Smooth (engine.quotas (σ := RecordedStore σ) scope) := by
  refine Action.smooth_collect (fun field => ?_) _
  split
  · exact (engine.smooth_effective _ _).bind fun _ => Action.smooth_pure _
  · exact Action.smooth_pure _

/-- A name that is not registered fails without a call. -/
theorem smooth_sumScope (scope : Entity) (measures : List Measure) (names : List String)
    (sums : Table String Amount) :
    Smooth (engine.sumScope (σ := RecordedStore σ) scope measures names sums) := by
  induction names generalizing sums with
  | nil => exact Action.smooth_pure _
  | cons name names inductionHypothesis =>
      exact (engine.smooth_field _ _).bind fun _ => (engine.smooth_effective _ _).bind fun _ =>
        inductionHypothesis _

/-- The scopes of a sum are read one after the other. -/
theorem smooth_sumScopes (names : Option (List String)) (measures : List Measure)
    (scopes : List Entity) (sums : Table String Amount) :
    Smooth (engine.sumScopes (σ := RecordedStore σ) names measures scopes sums) := by
  induction scopes generalizing sums with
  | nil => exact Action.smooth_pure _
  | cons scope scopes inductionHypothesis =>
      exact (engine.smooth_sumScope _ _ _ _).bind fun _ => inductionHypothesis _

/-- A change that may exceed a limit is checked by two reads. -/
theorem smooth_violation (scope : Entity) (name : String) (delta : Amount) :
    Smooth (engine.violation? (σ := RecordedStore σ) scope name delta) := by
  unfold violation?
  split
  · refine (engine.smooth_limit _ _).bind fun limit => ?_
    dsimp only
    split
    · exact Action.smooth_pure _
    · exact (engine.smooth_usage _ _).bind fun _ => Action.smooth_pure _
  · exact Action.smooth_pure _

/-- Violations are an error of the engine. -/
theorem smooth_validateChange (scope : Entity) (deltas : List (String × Amount)) :
    Smooth (engine.validateChange (σ := RecordedStore σ) scope deltas) := by
  refine (Action.smooth_collect (fun _ => engine.smooth_violation _ _ _) _).bind fun violations => ?_
  split
  · exact Action.smooth_pure _
  · exact Action.smooth_throw (by rintro _ ⟨⟩)

end Reads

/-- Each call from outside is smooth on every store that is one table. -/
theorem smooth_answer (call : EngineCall) : Smooth (engine.answer (σ := RecordedStore σ) call) := by
  cases call with
  | usage scope name => exact (engine.smooth_usage _ _).discard
  | limit scope name => exact (engine.smooth_limit _ _).discard
  | quotas scope => exact (engine.smooth_quotas _).discard
  | sums scopes names measures => exact (engine.smooth_sumScopes _ _ _ _).discard
  | validateChange scope deltas => exact engine.smooth_validateChange _ _
  | operate operation => exact engine.smooth_perform _
  | childChanged child name measure old new => exact engine.smooth_childChanged _ _ _ _ _
  | handle event => exact engine.smooth_handle _
  | recalculateScope scope => exact (engine.smooth_recalculateScopes _ _).discard
  | recalculateAll => exact engine.smooth_recalculateAll.discard

section Writes

variable {engine}

/-- A quota that has been read or created is there when one of its numbers is set. -/
theorem lookup_of_getOrCreate {scope : Entity} {name : String} {quota : Quota} {store middle : σ}
    (run : engine.getOrCreate scope name store = .ok quota middle) :
    ∃ old, lookup middle scope name = some old := by
  have ensures : Ensures (fun _ _ => True) (engine.getOrCreate scope name) store _ :=
    ensures_getOrCreate_stored_after store
  have present := ensures.of_allFit (RecordedStore.answersAlike.getOrCreateQuota engine scope name)
    fun _ _ => trivial
  obtain ⟨result, same⟩ := Action.eq_ok_iff.1 run
  rw [same] at present
  exact lookup_of_stored (present quota result)

/-- The limit that was there is the one from which the change is passed on. -/
theorem setLimit_of_getOrCreate {scope : Entity} {name : String} {quota : Quota} {store middle : σ}
    (run : engine.getOrCreate scope name store = .ok quota middle) (limit : Amount) :
    ∃ old, lookup middle scope name = some old ∧
      engine.setLimit scope name limit store =
        engine.childChanged scope name .limit old.limit limit
          (put middle scope name { old with limit }) := by
  obtain ⟨old, found⟩ := lookup_of_getOrCreate run
  have written := LawfulStore.setLimit_eq middle scope name limit
  rw [found] at written
  refine ⟨old, found, ?_⟩
  rw [setLimit, Action.discard_eq_bind, bind_assoc, Action.bind_of_eq_ok run, pure_bind,
    Action.bind_of_eq_ok (Action.access_eq_ok written), Option.getD_some]

/-- The usage that was there is the one from which the change is passed on. -/
theorem setUsage_of_getOrCreate {scope : Entity} {name : String} {quota : Quota} {store middle : σ}
    (run : engine.getOrCreate scope name store = .ok quota middle) (usage : Amount) :
    ∃ old, lookup middle scope name = some old ∧
      engine.setUsage scope name usage store =
        engine.childChanged scope name .usage old.usage (max usage 0)
          (put middle scope name { old with usage := max usage 0 }) := by
  obtain ⟨old, found⟩ := lookup_of_getOrCreate run
  have written := LawfulStore.setUsage_eq middle scope name (max usage 0)
  rw [found] at written
  refine ⟨old, found, ?_⟩
  rw [setUsage, Action.discard_eq_bind, bind_assoc, Action.bind_of_eq_ok run, pure_bind,
    Action.bind_of_eq_ok (Action.access_eq_ok written), Option.getD_some]

end Writes

/-- A wave holds every aggregate of a list, whatever its usage and the change are. Shifting one does
not remove the record of another. -/
theorem ensures_shiftAll_complete {fit : StoreCall → σ → Prop} (delta : Amount)
    (aggregates : List Aggregate) (store : σ) :
    Ensures fit (shiftAll delta aggregates) store fun result _ => ∃ wave, result = .ok wave ∧
      (wave.moved.map Prod.fst = aggregates.filter fun aggregate =>
        stored store aggregate.scope aggregate.field.name) ∧
      wave.missing = aggregates.filter fun aggregate =>
        !stored store aggregate.scope aggregate.field.name := by
  induction aggregates generalizing store with
  | nil => exact Action.ensures_pure ⟨_, rfl, rfl, rfl⟩
  | cons aggregate rest inductionHypothesis =>
      unfold shiftAll
      refine Action.ensures_bind (fun result => ?_) (Action.ensures_attempt
        (Action.ensures_shiftUsage (fun quota found _ => ?_) fun absent => ?_))
      · rcases result with (_ | _ | _ | _) | (_ | _) <;> infer_instance
      · refine Action.ensures_bind (fun _ => inferInstance) ((inductionHypothesis _).mono ?_)
        rintro _ after ⟨wave, rfl, moved, missing⟩
        rw [(Moved.of_put found (quota.usage + delta)).stored_eq] at moved missing
        have present := stored_of_lookup found
        refine Action.ensures_pure ⟨_, rfl, ?_, ?_⟩
        · rw [List.filter_cons_of_pos (by simpa using present), List.map_cons, moved]
        · rw [List.filter_cons_of_neg (by simpa using present), missing]
      · refine Action.ensures_bind (fun _ => inferInstance) ((inductionHypothesis store).mono ?_)
        rintro _ after ⟨wave, rfl, moved, missing⟩
        have absent : stored store aggregate.scope aggregate.field.name = false := by
          rw [stored, absent]
          rfl
        refine Action.ensures_pure ⟨_, rfl, ?_, ?_⟩
        · rw [List.filter_cons_of_neg (by simpa using absent), moved]
        · rw [List.filter_cons_of_pos (by simpa using absent), missing]

/-- An engine never falls back on these stores if no call fails for its store, every access that a
call makes is answered as expected, a number that is set is compared with the one that was there, and
of a list of aggregates exactly those without a record are left as they are, and reported. -/
structure NeverFallsBack (engine : Engine) (σ : Type) [QuotaStore σ] [LawfulStore σ] : Prop where
  noStorage (call : EngineCall) (store : σ) (cause : StorageError) :
    outcome (engine.answer call) store ≠ .error (.storage cause)
  heeded (call : EngineCall) (store : σ) :
    RecordedStore.AllFit StoreCall.Heeded (Action.history (engine.answer call) store)
  setLimit {scope : Entity} {name : String} {quota : Quota} {store middle : σ} (limit : Amount) :
    engine.getOrCreate scope name store = .ok quota middle →
      ∃ old, lookup middle scope name = some old ∧
        engine.setLimit scope name limit store =
          engine.childChanged scope name .limit old.limit limit
            (put middle scope name { old with limit })
  setUsage {scope : Entity} {name : String} {quota : Quota} {store middle : σ} (usage : Amount) :
    engine.getOrCreate scope name store = .ok quota middle →
      ∃ old, lookup middle scope name = some old ∧
        engine.setUsage scope name usage store =
          engine.childChanged scope name .usage old.usage (max usage 0)
            (put middle scope name { old with usage := max usage 0 })
  shiftAll (delta : Amount) (aggregates : List Aggregate) (store : σ) :
    ∃ wave, outcome (shiftAll delta aggregates) store = .ok wave ∧
      (wave.moved.map Prod.fst = aggregates.filter fun aggregate =>
        stored store aggregate.scope aggregate.field.name) ∧
      wave.missing = aggregates.filter fun aggregate =>
        !stored store aggregate.scope aggregate.field.name

/-- No engine ever falls back, also where its graph has cycles. A record that is written has been
read or created before, and nothing in between removes it, so a write always learns what was
there. -/
theorem neverFallsBack : engine.NeverFallsBack σ where
  noStorage call store cause := by
    rw [← (RecordedStore.answersAlike.answer engine call ⟨store, []⟩ store rfl).1]
    exact (engine.smooth_answer call ⟨store, []⟩).noStorage cause
  heeded call store := (engine.smooth_answer call ⟨store, []⟩).heeded (by rintro _ ⟨⟩)
  setLimit limit run := setLimit_of_getOrCreate run limit
  setUsage usage run := setUsage_of_getOrCreate run usage
  shiftAll delta aggregates store := by
    have ensures : Ensures (fun _ _ => True) (shiftAll delta aggregates) store _ :=
      ensures_shiftAll_complete delta aggregates store
    exact ensures.of_allFit (RecordedStore.answersAlike.shiftAll delta aggregates)
      fun _ _ => trivial

end Engine

end HierarchicalQuota
