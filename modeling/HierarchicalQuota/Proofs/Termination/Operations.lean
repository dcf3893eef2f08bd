import HierarchicalQuota.Proofs.Termination.Creation

namespace HierarchicalQuota

open HierarchicalQuota.Action (outcome after)

variable {σ : Type} [QuotaStore σ]

namespace Bounded

variable (engine : Engine) (steps : Nat)

/-- Each missing aggregate is created with as many nested calls as there are steps. -/
def createMissing (missing : List Aggregate) : Run σ Unit :=
  missing.forM fun aggregate => discard (create engine steps steps aggregate)

/-- The creation of a record may nest as many calls as there are steps. -/
def ensure (scope : Entity) (field : Field) : Run σ Quota := do
  match ← Run.of (Action.access (QuotaStore.get scope field.name)) with
  | some existing => return existing
  | none => create engine steps steps ⟨scope, field⟩

def getOrCreate (scope : Entity) (name : String) : Run σ Quota := do
  let field ← Run.of (Action.ofExcept (engine.field scope name))
  if field.isConnected scope engine.graph then
    ensure engine steps scope field
  else
    throw (.creationConditionFailed scope name)

/-- The worklist of the change may take as many steps as there are, and so may those of the
creations. -/
def childChanged (child : Entity) (name : String) (measure : Measure) (old new : Amount) :
    Run σ Unit := do
  let missing ← spread engine steps child name measure (new - old)
  createMissing engine steps missing

def setLimit (scope : Entity) (name : String) (limit : Amount) : Run σ Unit := do
  discard (getOrCreate engine steps scope name)
  let previous ← Run.of (Action.access (QuotaStore.setLimit scope name limit))
  childChanged engine steps scope name .limit (previous.getD limit) limit

/-- The checks of a limit come before anything is written. -/
def updateLimit (scope : Entity) (name : String) (limit : Amount) : Run σ Unit := do
  let field ← Run.of (Action.ofExcept (engine.field scope name))
  if field.isBackend then
    throw (.backendQuota scope name)
  else
    let quota ← getOrCreate engine steps scope name
    if limit ≠ .unlimited ∧ limit < quota.usage then
      throw (.limitBelowUsage quota.usage limit)
    else
      setLimit engine steps scope name limit

def setUsage (scope : Entity) (name : String) (usage : Amount) : Run σ Unit := do
  discard (getOrCreate engine steps scope name)
  let usage := max usage 0
  let previous ← Run.of (Action.access (QuotaStore.setUsage scope name usage))
  childChanged engine steps scope name .usage (previous.getD usage) usage

/-- A rejection ends the run with an error, and nothing is left to spread. -/
def applyDelta (scope : Entity) (name : String) (delta : Amount) (validate : Bool) :
    Run σ Amount :=
  if delta = 0 then return 0
  else do
    discard (getOrCreate engine steps scope name)
    match ← Run.of (Action.access (QuotaStore.addUsage scope name delta validate)) with
    | .applied old new _ =>
        childChanged engine steps scope name .usage old new
        return new - old
    | .rejected usage limit => throw (.limitExceeded ⟨scope, name, limit, usage + delta⟩)

def addUsage (scope : Entity) (name : String) (delta : Amount) (validate : Bool) : Run σ Unit :=
  discard (applyDelta engine steps scope name delta validate)

/-- Both numbers of a removed record start a worklist of their own. -/
def withdraw (child : Entity) (record : Record) : Run σ (List Aggregate) := do
  let usageMissing ← spread engine steps child record.name .usage (-record.quota.usage)
  let limitMissing ← spread engine steps child record.name .limit (-record.quota.limit)
  return usageMissing ++ limitMissing

/-- The records are removed by one call, and each is then withdrawn. -/
def childDeleted (child : Entity) : Run σ Unit := do
  let records ← Run.of (Action.access (QuotaStore.deleteScope child))
  let missing ← Run.collect (withdraw engine steps child) records
  createMissing engine steps missing

/-- A change that cannot be taken back is left standing, but a run that is stuck ends the batch. -/
def takeBack (change : Change) : Run σ Unit := do
  discard (Run.attempt (applyDelta engine steps change.scope change.name (-change.amount) false))

/-- The loop takes back one change in each round. -/
def compensate (latestFirst : List Change) : Run σ Unit :=
  latestFirst.forM (takeBack engine steps)

/-- The recursion is on the requests that are left. -/
def applyAll (validate : Bool) : List (Except QuotaError Change) → List Change → Run σ Unit
  | [], _ => return ()
  | request :: requests, applied => do
      let outcome ← Run.attempt do
        let change ← Run.of (Action.ofExcept request)
        let amount ← applyDelta engine steps change.scope change.name change.amount validate
        return { change with amount }
      match outcome with
      | .ok change => applyAll validate requests (change :: applied)
      | .error error =>
          compensate engine steps applied
          throw error

def applyChanges (scopes : List Entity) (deltas : List (String × Amount)) (multiplier : Amount)
    (validate : Bool) : Run σ Unit :=
  applyAll engine steps validate ((Engine.requests scopes deltas multiplier).map .ok) []

/-- The changes that an event asks for are one batch. -/
def applyTargetChange (entity : Entity) (change : TargetChange) : Run σ Unit :=
  applyAll engine steps true
    ((engine.registry.targeting entity.kind).filterMap (engine.targetRequest? entity change)) []

/-- The recursion is on the fields that are left. -/
def initializeFields (scope : Entity) : List Field → Run σ Nat
  | [] => return 0
  | field :: fields => do
      if field.isConnected scope engine.graph then
        match ← Run.of (Action.access (QuotaStore.get scope field.name)) with
        | some _ => initializeFields scope fields
        | none =>
            discard (ensure engine steps scope field)
            let count ← initializeFields scope fields
            return count + 1
      else
        initializeFields scope fields

def initializeScope (scope : Entity) : Run σ Nat :=
  initializeFields engine steps scope (engine.registry.fields scope.kind)

/-- A rejected creation has its records withdrawn within the same steps. -/
def entityCreated (entity : Entity) : Run σ Unit := do
  let isScope := engine.registry.isScopeKind entity.kind
  if isScope then
    discard (initializeScope engine steps entity)
  match ← Run.attempt (applyTargetChange engine steps entity .created) with
  | .ok () => return ()
  | .error error =>
      if isScope then
        discard (Run.attempt (childDeleted engine steps entity))
      throw error

def entityDeleted (entity : Entity) : Run σ Unit := do
  applyTargetChange engine steps entity .deleted
  if engine.registry.isScopeKind entity.kind then
    childDeleted engine steps entity

def attributeChanged (entity : Entity) (name : String) (old new : Amount) : Run σ Unit :=
  if new - old = 0 then return ()
  else applyTargetChange engine steps entity (.attributeChanged name (new - old))

/-- Each kind of event has its own run. -/
def handle : EntityEvent → Run σ Unit
  | .created entity => entityCreated engine steps entity
  | .deleted entity => entityDeleted engine steps entity
  | .attributeChanged entity name old new => attributeChanged engine steps entity name old new

/-- Each kind of operation has its own run. -/
def perform : Operation → Run σ Unit
  | .getOrCreate scope name => discard (getOrCreate engine steps scope name)
  | .initializeScope scope => discard (initializeScope engine steps scope)
  | .setLimit scope name limit => setLimit engine steps scope name limit
  | .updateLimit scope name limit => updateLimit engine steps scope name limit
  | .childDeleted scope => childDeleted engine steps scope
  | .setUsage scope name usage => setUsage engine steps scope name usage
  | .addUsage scope name delta validate => addUsage engine steps scope name delta validate
  | .applyChanges scopes deltas multiplier validate =>
      applyChanges engine steps scopes deltas multiplier validate

/-- The search for the depth of a scope calls itself for every quota parent, one level higher. It
gives up at the greatest level. -/
def depth (graph : Graph) : Nat → Nat → Entity → Table Entity Nat → Run σ (Nat × Table Entity Nat)
  | 0, _, _, _ => Run.stuck
  | nesting + 1, level, scope, known =>
      match known[scope]? with
      | some depth => return (depth, known)
      | none =>
          if maxHierarchyDepth ≤ level then throw (.hierarchyTooDeep scope)
          else do
            let (depth, known) ← (graph.quotaParents scope).foldlM
              (fun (depth, known) parent => do
                let (above, known) ← Bounded.depth graph nesting (level + 1) parent known
                return (max depth (above + 1), known))
              (0, known)
            return (depth, known.insert scope depth)

/-- The depths of several scopes share what is known. -/
def depths (graph : Graph) (steps : Nat) :
    List Entity → Table Entity Nat → Run σ (List (Nat × Entity))
  | [], _ => return []
  | scope :: scopes, known => do
      let (depth, known) ← Bounded.depth graph steps 0 scope known
      let others ← depths graph steps scopes known
      return (depth, scope) :: others

/-- Only the search for the depths needs steps, since the repair itself has no loop without a
list. -/
def recalculateAll : Run σ Report := do
  let depths ← depths engine.graph steps engine.registeredScopes ∅
  let scopes := (depths.mergeSort Engine.bottomUp).map (·.2)
  Run.of (engine.recalculateScopes scopes { scopes := scopes.length })

end Bounded

namespace EndsAs

variable (engine : Engine)

/-- A record is withdrawn by two worklists, and both become empty or fail. -/
theorem withdraw (child : Entity) (record : Record) :
    EndsAs (σ := σ) (fun steps => Bounded.withdraw engine steps child record)
      (engine.withdraw child record) :=
  (spread engine _ _ _ _).bind fun _ => (spread engine _ _ _ _).bind fun _ => .pure _

section Changes

variable [LocalStore σ] [HonestStore σ]

/-- As many calls may be nested as a worklist has steps, so with enough steps every creation ends.
-/
theorem create (target : Aggregate) :
    EndsAs (σ := σ) (fun steps => Bounded.create engine steps steps target)
      (engine.create engine.creationBudget target) := by
  intro store
  apply EndsAt.create _ (.inl (engine.card_absentKeys_lt store))
  exact fun steps (more : engine.creationBudget + 1 ≤ steps) => more

/-- Each missing aggregate is created in the end. -/
theorem createMissing (missing : List Aggregate) :
    EndsAs (σ := σ) (fun steps => Bounded.createMissing engine steps missing)
      (engine.createMissing missing) :=
  forM (fun aggregate => (create engine aggregate).discard) missing

/-- A record that is there ends the run, and any other is created in the end. -/
theorem ensure (scope : Entity) (field : Field) :
    EndsAs (σ := σ) (fun steps => Bounded.ensure engine steps scope field)
      (engine.ensure scope field) := by
  refine (of _).bind fun existing => ?_
  cases existing with
  | some existing => exact .pure _
  | none => exact create engine _

/-- A field that is refused ends the run before the first step. -/
theorem getOrCreate (scope : Entity) (name : String) :
    EndsAs (σ := σ) (fun steps => Bounded.getOrCreate engine steps scope name)
      (engine.getOrCreate scope name) := by
  refine (of _).bind fun field => ?_
  split
  · exact ensure engine _ _
  · exact .throw _

/-- The worklist of a change ends, and so do the creations that it asks for. -/
theorem childChanged (child : Entity) (name : String) (measure : Measure) (old new : Amount) :
    EndsAs (σ := σ) (fun steps => Bounded.childChanged engine steps child name measure old new)
      (engine.childChanged child name measure old new) :=
  (spread engine _ _ _ _).bind fun _ => createMissing engine _

theorem setLimit (scope : Entity) (name : String) (limit : Amount) :
    EndsAs (σ := σ) (fun steps => Bounded.setLimit engine steps scope name limit)
      (engine.setLimit scope name limit) :=
  (getOrCreate engine _ _).discard.bind fun _ =>
    (of _).bind fun _ => childChanged engine _ _ _ _ _

/-- A limit that is refused ends the run, and any other is set. -/
theorem updateLimit (scope : Entity) (name : String) (limit : Amount) :
    EndsAs (σ := σ) (fun steps => Bounded.updateLimit engine steps scope name limit)
      (engine.updateLimit scope name limit) := by
  refine (of _).bind fun field => ?_
  split
  · exact .throw _
  · refine (getOrCreate engine _ _).bind fun quota => ?_
    split
    · exact .throw _
    · exact setLimit engine _ _ _

theorem setUsage (scope : Entity) (name : String) (usage : Amount) :
    EndsAs (σ := σ) (fun steps => Bounded.setUsage engine steps scope name usage)
      (engine.setUsage scope name usage) :=
  (getOrCreate engine _ _).discard.bind fun _ =>
    (of _).bind fun _ => childChanged engine _ _ _ _ _

/-- A usage is changed once, and what was applied spreads in the end. -/
theorem applyDelta (scope : Entity) (name : String) (delta : Amount) (validate : Bool) :
    EndsAs (σ := σ) (fun steps => Bounded.applyDelta engine steps scope name delta validate)
      (engine.applyDelta scope name delta validate) := by
  unfold Bounded.applyDelta Engine.applyDelta
  split
  · exact .pure _
  · refine (getOrCreate engine _ _).discard.bind fun _ => (of _).bind fun update => ?_
    cases update with
    | applied old new limit => exact (childChanged engine _ _ _ _ _).bind fun _ => .pure _
    | rejected usage limit => exact .throw _

/-- There are finitely many records to withdraw. -/
theorem childDeleted (child : Entity) :
    EndsAs (σ := σ) (fun steps => Bounded.childDeleted engine steps child)
      (engine.childDeleted child) :=
  (of _).bind fun _ => (collect (withdraw engine child) _).bind fun _ => createMissing engine _

/-- There are finitely many changes to take back, and each attempt ends. -/
theorem compensate (latestFirst : List Change) :
    EndsAs (σ := σ) (fun steps => Bounded.compensate engine steps latestFirst)
      (engine.compensate latestFirst) :=
  forM (fun _ => (applyDelta engine _ _ _ _).attempt.discard) latestFirst

/-- A batch ends by induction on its requests, also where it is taken back. -/
theorem applyAll (validate : Bool) (requests : List (Except QuotaError Change))
    (applied : List Change) :
    EndsAs (σ := σ) (fun steps => Bounded.applyAll engine steps validate requests applied)
      (engine.applyAll validate requests applied) := by
  induction requests generalizing applied with
  | nil => exact .pure _
  | cons request requests inductionHypothesis =>
      have applies := (of (Action.ofExcept request)).bind fun change =>
        (applyDelta (σ := σ) engine change.scope change.name change.amount validate).bind
          fun amount => .pure { change with amount }
      refine applies.attempt.bind fun outcome => ?_
      cases outcome with
      | ok change => exact inductionHypothesis _
      | error error => exact (compensate engine _).bind fun _ => .throw _

/-- An event asks for finitely many changes. -/
theorem applyTargetChange (entity : Entity) (change : TargetChange) :
    EndsAs (σ := σ) (fun steps => Bounded.applyTargetChange engine steps entity change)
      (engine.applyTargetChange entity change) :=
  applyAll engine _ _ _

/-- The initialization of a scope ends by induction on its fields. -/
theorem initializeFields (scope : Entity) (fields : List Field) :
    EndsAs (σ := σ) (fun steps => Bounded.initializeFields engine steps scope fields)
      (engine.initializeFields scope fields) := by
  induction fields with
  | nil => exact .pure _
  | cons field fields inductionHypothesis =>
      unfold Bounded.initializeFields Engine.initializeFields
      split
      · refine (of _).bind fun existing => ?_
        cases existing with
        | some existing => exact inductionHypothesis
        | none =>
            exact (ensure engine _ _).discard.bind fun _ => inductionHypothesis.bind fun _ =>
              .pure _
      · exact inductionHypothesis

/-- A creation ends with its records, or with all of them removed. -/
theorem entityCreated (entity : Entity) :
    EndsAs (σ := σ) (fun steps => Bounded.entityCreated engine steps entity)
      (engine.entityCreated entity) := by
  unfold Bounded.entityCreated Engine.entityCreated
  cases engine.registry.isScopeKind entity.kind with
  | true =>
      refine (initializeFields engine _ _).discard.bind fun _ =>
        (applyTargetChange engine _ _).attempt.bind fun result => ?_
      cases result with
      | ok _ => exact .pure _
      | error error => exact (childDeleted engine _).attempt.discard.bind fun _ => .throw _
  | false =>
      refine (applyTargetChange engine _ _).attempt.bind fun result => ?_
      cases result with
      | ok _ => exact .pure _
      | error error => exact .throw _

/-- A deletion ends with the counters changed and the records removed. -/
theorem entityDeleted (entity : Entity) :
    EndsAs (σ := σ) (fun steps => Bounded.entityDeleted engine steps entity)
      (engine.entityDeleted entity) := by
  refine (applyTargetChange engine _ _).bind fun _ => ?_
  split
  · exact childDeleted engine _
  · exact .pure _

/-- A changed attribute ends at once if it keeps its value. -/
theorem attributeChanged (entity : Entity) (name : String) (old new : Amount) :
    EndsAs (σ := σ) (fun steps => Bounded.attributeChanged engine steps entity name old new)
      (engine.attributeChanged entity name old new) := by
  unfold Bounded.attributeChanged Engine.attributeChanged
  split
  · exact .pure _
  · exact applyTargetChange engine _ _

/-- Every event is handled in the end. -/
theorem handle (event : EntityEvent) :
    EndsAs (σ := σ) (fun steps => Bounded.handle engine steps event) (engine.handle event) := by
  cases event with
  | created entity => exact entityCreated engine _
  | deleted entity => exact entityDeleted engine _
  | attributeChanged entity name old new => exact attributeChanged engine _ _ _ _

/-- Every operation ends as it does without a bound. -/
theorem perform (operation : Operation) :
    EndsAs (σ := σ) (fun steps => Bounded.perform engine steps operation)
      (engine.perform operation) := by
  cases operation with
  | getOrCreate scope name => exact (getOrCreate engine _ _).discard
  | initializeScope scope => exact (initializeFields engine _ _).discard
  | setLimit scope name limit => exact setLimit engine _ _ _
  | updateLimit scope name limit => exact updateLimit engine _ _ _
  | childDeleted scope => exact childDeleted engine _
  | setUsage scope name usage => exact setUsage engine _ _ _
  | addUsage scope name delta validate => exact (applyDelta engine _ _ _ _).discard
  | applyChanges scopes deltas multiplier validate => exact applyAll engine _ _ _

end Changes

end EndsAs

namespace Bounded

variable {τ : Type} {graph : Graph}

/-- The search nests at most one call for each level that is left, and one more. The induction is on
these levels, so the search ends in a graph with loops too. -/
theorem depth_eq (levels : Nat) {nesting level : Nat} (enough : levels < nesting)
    (left : level + levels = maxHierarchyDepth) (scope : Entity) (known : Table Entity Nat) :
    Bounded.depth (σ := τ) graph nesting level scope known =
      Run.of (Action.ofExcept (graph.depth levels scope known)) := by
  induction levels generalizing nesting level scope known with
  | zero =>
      obtain ⟨calls, rfl⟩ := Nat.exists_eq_add_of_le' enough
      unfold Bounded.depth Graph.depth
      cases known[scope]? with
      | some depth => rfl
      | none =>
          dsimp only
          rw [if_pos (by omega)]
          rfl
  | succ levels inductionHypothesis =>
      obtain ⟨calls, rfl⟩ := Nat.exists_eq_add_of_le' (Nat.zero_lt_of_lt enough)
      have inside (parent : Entity) (known : Table Entity Nat) :
          Bounded.depth (σ := τ) graph calls (level + 1) parent known =
            Run.of (Action.ofExcept (graph.depth levels parent known)) :=
        inductionHypothesis (by omega) (by omega) parent known
      unfold Bounded.depth Graph.depth
      cases known[scope]? with
      | some depth => rfl
      | none =>
          dsimp only
          rw [if_neg (by omega), Run.of_ofExcept_bind, Run.of_ofExcept_foldlM]
          simp only [inside, Run.of_ofExcept_bind]
          rfl

/-- With more steps than there are levels, every search for a depth ends. -/
theorem depths_eq {steps : Nat} (enough : maxHierarchyDepth < steps) (scopes : List Entity)
    (known : Table Entity Nat) :
    Bounded.depths (σ := τ) graph steps scopes known =
      Run.of (Action.ofExcept (graph.depths scopes known)) := by
  induction scopes generalizing known with
  | nil => rfl
  | cons scope scopes inductionHypothesis =>
      unfold Bounded.depths Graph.depths
      rw [depth_eq maxHierarchyDepth enough (Nat.zero_add _), Run.of_ofExcept_bind]
      simp only [inductionHypothesis, Run.of_ofExcept_bind]
      rfl

end Bounded

/-- A recalculation ends, since its searches end and its lists are finite. -/
theorem EndsAs.recalculateAll (engine : Engine) :
    EndsAs (σ := σ) (fun steps => Bounded.recalculateAll engine steps) engine.recalculateAll := by
  intro store
  have ends : EndsAt (fun steps => Bounded.depths engine.graph steps engine.registeredScopes ∅)
      (Action.ofExcept (engine.graph.depths engine.registeredScopes ∅)) store :=
    (EndsAt.of _ _).congr (maxHierarchyDepth + 1) fun steps more => Bounded.depths_eq more _ _
  exact ends.bind fun _ _ => .of _ _

/-- All that an engine does to a kind of stores comes to an end. With enough steps and nested calls,
each run does what the operation does, which is to yield a value or an error. -/
structure Engine.Terminates (engine : Engine) (σ : Type) [QuotaStore σ] [LocalStore σ] : Prop where
  /-- Every worklist becomes empty or fails after finitely many steps. -/
  drain (changes : List Pending) (missing : List Aggregate) :
    EndsAs (σ := σ) (fun steps => engine.drain steps changes missing) (do
      let found ← Action.collect engine.follow changes
      return missing ++ found)
  /-- Creations are nested only for aggregates of quota parents, which have finitely many keys. -/
  nested {child : Entity} {quota : String} {measure : Measure} {delta : Amount} {store : σ}
    {missing : List Aggregate} :
    outcome (engine.spread child quota measure delta) store = .ok missing →
      ∀ aggregate ∈ missing, (aggregate.scope, aggregate.field.name) ∈ engine.aggregateKeys
  /-- A creation that goes on has made a record that was absent. -/
  shrink {scope : Entity} {name : String} {initial quota : Quota} {store : σ} :
    (scope, name) ∈ engine.aggregateKeys →
      outcome (QuotaStore.getOrCreate scope name initial) store = .ok (quota, true) →
        engine.absentKeys (after (QuotaStore.getOrCreate scope name initial) store) ⊂
          engine.absentKeys store
  /-- A creation nests no more calls than there are keys absent, and two. -/
  create (target : Aggregate) (store : σ) :
    EndsAt (fun steps => Bounded.create engine steps ((engine.absentKeys store).card + 2) target)
      (engine.create engine.creationBudget target) store
  getOrCreate (scope : Entity) (name : String) :
    EndsAs (σ := σ) (fun steps => Bounded.getOrCreate engine steps scope name)
      (engine.getOrCreate scope name)
  childChanged (child : Entity) (name : String) (measure : Measure) (old new : Amount) :
    EndsAs (σ := σ) (fun steps => Bounded.childChanged engine steps child name measure old new)
      (engine.childChanged child name measure old new)
  perform (operation : Operation) :
    EndsAs (σ := σ) (fun steps => Bounded.perform engine steps operation) (engine.perform operation)
  handle (event : EntityEvent) :
    EndsAs (σ := σ) (fun steps => Bounded.handle engine steps event) (engine.handle event)
  /-- The search for the depth of a scope nests no more calls than there are levels, and one. -/
  depth (scope : Entity) (known : Table Entity Nat) :
    Bounded.depth (σ := σ) engine.graph (maxHierarchyDepth + 1) 0 scope known =
      Run.of (Action.ofExcept (engine.graph.depth maxHierarchyDepth scope known))
  recalculateAll :
    EndsAs (σ := σ) (fun steps => Bounded.recalculateAll engine steps) engine.recalculateAll

/-- Every operation of every engine ends on every store that tells truly which records it has made.
The graph may have loops and the store may fail at any access. -/
theorem Engine.terminates [LocalStore σ] [HonestStore σ] (engine : Engine) :
    engine.Terminates σ where
  drain := EndsAs.drain engine
  nested := engine.mem_aggregateKeys_of_spread
  shrink := engine.absentKeys_ssubset_of_created
  create := EndsAt.create_nested engine
  getOrCreate := EndsAs.getOrCreate engine
  childChanged := EndsAs.childChanged engine
  perform := EndsAs.perform engine
  handle := EndsAs.handle engine
  depth := Bounded.depth_eq maxHierarchyDepth (Nat.lt_succ_self _) (Nat.zero_add _)
  recalculateAll := EndsAs.recalculateAll engine

section Sample

/-- The team's change makes a record for the organization, whose announcement then runs through the
loop of the organization until it is too deep. -/
theorem terminates_sample :
    ∃ bound, ∀ steps, bound ≤ steps →
      Bounded.perform loopEngine steps (.setUsage sampleTeam "storage" 4) MemoryStore.empty =
        some (.error (.hierarchyTooDeep sampleOrganization),
          after (loopEngine.perform (.setUsage sampleTeam "storage" 4)) MemoryStore.empty) := by
  obtain ⟨bound, ended⟩ := (Engine.terminates loopEngine).perform (.setUsage sampleTeam "storage" 4)
    MemoryStore.empty
  have failed : outcome (loopEngine.perform (.setUsage sampleTeam "storage" 4)) MemoryStore.empty =
      .error (.hierarchyTooDeep sampleOrganization) := by
    decide +kernel
  rw [failed] at ended
  exact ⟨bound, ended⟩

/-- The loop has 64 levels, and its worklist takes one step more. -/
example :
    (Bounded.perform loopEngine 64 (.setUsage sampleTeam "storage" 4) MemoryStore.empty).isNone := by
  decide +kernel

end Sample

end HierarchicalQuota
