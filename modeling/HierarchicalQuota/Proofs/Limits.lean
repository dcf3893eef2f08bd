import HierarchicalQuota.Proofs.Rules
import HierarchicalQuota.Proofs.Events
import HierarchicalQuota.Proofs.Retracing

namespace HierarchicalQuota

open HierarchicalQuota.Action (Ensures)
open LawfulStore (lookup put drop)

variable {σ : Type} [QuotaStore σ] [LawfulStore σ]

namespace Engine

section Steps

variable {engine : Engine} {fit : StoreCall → σ → Prop} {changes : List Change}

/-- No shift or creation of an aggregate reaches a field that is not summed. -/
theorem spreads_logged : engine.Spreads fit (fun _ _ => True) (engine.Logged changes : σ → Prop) where
  shift meets logged _ _ :=
    have present := meets.hasAggregate
    ⟨logged.put_aggregator present.registered present.aggregator _, fun _ => trivial⟩
  create meets logged absent _ := ⟨logged.put_starting meets.hasAggregate.registered absent, trivial⟩

/-- A stored quota stays stored, and it changes only if it is summed. -/
theorem holds_put_aggregator {scope : Entity} {field : Field} {quota later : Quota} {store : σ}
    (registered : field ∈ engine.registry.fields scope.kind)
    (found : lookup store scope field.name = some later)
    (same : field.aggregator? = none → later = quota) {aggregate : Aggregate}
    (present : engine.HasAggregate aggregate) (other : Quota) :
    ∃ later, lookup (put store aggregate.scope aggregate.field.name other) scope field.name =
      some later ∧ (field.aggregator? = none → later = quota) := by
  rw [LawfulStore.lookup_put]
  split
  · rename_i own
    obtain ⟨rfl, sameName⟩ := own
    obtain rfl := Registry.eq_of_name_eq present.registered registered sameName
    refine ⟨other, rfl, fun plain => ?_⟩
    have aggregator := present.aggregator
    rw [plain] at aggregator
    cases aggregator
  · exact ⟨later, found, same⟩

/-- A quota that is read or created is stored afterwards, and if it is not summed, then as it was
answered. -/
theorem ensures_getOrCreate_logged (shallow : engine.graph.Shallow) {scope : Entity}
    {field : Field} (registered : field ∈ engine.registry.fields scope.kind)
    (connected : field.isConnected scope engine.graph = true) {store : σ}
    (logged : engine.Logged changes store) :
    Ensures fit (engine.getOrCreate scope field.name) store fun result after =>
      ∃ quota, result = .ok quota ∧ engine.Logged changes after ∧
        ∃ later, lookup after scope field.name = some later ∧
          (field.aggregator? = none → later = quota) := by
  let quota := (lookup store scope field.name).getD (engine.starting store scope field)
  have spreads : engine.Spreads fit (fun _ _ => True) fun after : σ => engine.Logged changes after ∧
      ∃ later, lookup after scope field.name = some later ∧
        (field.aggregator? = none → later = quota) := by
    constructor
    · rintro aggregate old delta middle meets ⟨loggedMiddle, later, found, same⟩ oldFound fits
      obtain ⟨keeps, -⟩ := spreads_logged.shift meets loggedMiddle oldFound fits
      exact ⟨⟨keeps, holds_put_aggregator registered found same meets.hasAggregate _⟩,
        fun _ => trivial⟩
    · rintro aggregate middle meets ⟨loggedMiddle, later, found, same⟩ absent fits
      obtain ⟨keeps, -⟩ := spreads_logged.create meets loggedMiddle absent fits
      exact ⟨⟨keeps, holds_put_aggregator registered found same meets.hasAggregate _⟩, trivial⟩
  refine (ensures_getOrCreate_kept spreads registered connected (fun old found => ?_)
    (fun absent _ => ⟨⟨logged.put_starting registered absent, ?_⟩, trivial⟩)).mono ?_
  · exact ⟨logged, old, found, fun _ => by simp only [quota, found, Option.getD_some]⟩
  · refine ⟨engine.starting store scope field, ?_, fun _ => ?_⟩
    · rw [LawfulStore.lookup_put, if_pos ⟨rfl, rfl⟩]
    · simp only [quota, absent, Option.getD_none]
  · rintro (error | answer) after ⟨⟨loggedAfter, held⟩, yields⟩
    · exact absurd shallow yields
    · exact ⟨answer, rfl, loggedAfter, yields ▸ held⟩

section Shallow

variable (shallow : engine.graph.Shallow)

include shallow

/-- A change that spreads succeeds, and it leaves all logged quotas as they are. -/
theorem ensures_childChanged_logged (scope : Entity) (name : String) (measure : Measure)
    (old new : Amount) {store : σ} (logged : engine.Logged changes store) :
    Ensures fit (engine.childChanged scope name measure old new) store fun result after =>
      result = .ok ⟨⟩ ∧ engine.Logged changes after := by
  refine (ensures_childChanged_kept spreads_logged measure (fun _ => trivial) logged).mono ?_
  rintro (error | done) after ⟨loggedAfter, yields⟩
  · exact absurd shallow yields
  · exact ⟨rfl, loggedAfter⟩

/-- A change that succeeds is logged as it was stored, and one that fails is not. -/
theorem ensures_applyDelta_logged (scope : Entity) (name : String) {delta : Amount}
    {validate : Bool} (bounded : validate = true ∨ delta ≤ 0) {store : σ}
    (logged : engine.Logged changes store) :
    Ensures fit (engine.applyDelta scope name delta validate) store fun result after =>
      match result with
      | .ok amount => engine.Logged (⟨scope, name, amount⟩ :: changes) after
      | .error _ => engine.Logged changes after := by
  by_cases available : engine.Available scope name
  · obtain ⟨field, known, connected⟩ := id available
    obtain ⟨registered, rfl⟩ := Registry.field?_eq_some_iff.1 known
    refine ensures_applyDelta_of_steps (fun _ => (logged_zero_cons rfl).2 logged) fun _ =>
      (ensures_getOrCreate_logged shallow registered connected logged).mono ?_
    rintro _ middle ⟨quota, rfl, loggedMiddle, -⟩
    refine Action.ensures_addUsage (fun stored found _ accepted => ?_)
      (fun _ _ _ _ => loggedMiddle) fun _ => loggedMiddle
    refine (ensures_childChanged_logged shallow _ _ _ _ _
      (loggedMiddle.change available found bounded accepted)).mono ?_
    rintro _ after ⟨rfl, loggedAfter⟩
    exact loggedAfter
  · refine (ensures_applyDelta_unavailable available delta validate).mono ?_
    rintro (error | amount) after ⟨rfl, zero⟩
    · exact logged
    · exact (logged_zero_cons (zero amount rfl)).2 logged

/-- The latest change of a log is taken back in any case. -/
theorem ensures_applyDelta_takenBack {change : Change} {store : σ}
    (logged : engine.Logged (change :: changes) store) :
    Ensures fit (engine.applyDelta change.scope change.name (-change.amount) false) store
      fun _ after => engine.Logged changes after := by
  refine ensures_applyDelta_of_steps
    (fun zero => (logged_zero_cons (Amount.eq_zero_of_neg zero)).1 logged) fun nonzero => ?_
  have changed : change.amount ≠ 0 := fun zero => nonzero (by rw [zero]; rfl)
  obtain ⟨field, known, connected⟩ := logged.available change List.mem_cons_self changed
  obtain ⟨registered, sameName⟩ := Registry.field?_eq_some_iff.1 known
  rw [← sameName]
  refine (ensures_getOrCreate_logged shallow registered connected logged).mono ?_
  rintro _ middle ⟨quota, rfl, loggedMiddle, later, laterFound, -⟩
  rw [sameName] at laterFound ⊢
  refine Action.ensures_addUsage (fun stored found _ _ => ?_) (fun _ _ validated _ => ?_)
    fun absent => ?_
  · refine (ensures_childChanged_logged shallow _ _ _ _ _ (loggedMiddle.takeBack found)).mono ?_
    rintro _ after ⟨rfl, loggedAfter⟩
    exact loggedAfter
  · cases validated
  · rw [laterFound] at absent
    cases absent

omit shallow in
/-- A request is bounded in a batch if the batch is validated or the request is not positive. -/
def Bounded (validate : Bool) (requests : List (Except QuotaError Change)) : Prop :=
  ∀ request, .ok request ∈ requests → validate = true ∨ request.amount ≤ 0

/-- A bounded batch keeps all limits, also where it fails and is undone. -/
theorem ensures_applyAll_limits {validate : Bool} {requests : List (Except QuotaError Change)}
    (bounded : Bounded validate requests) {store : σ} (logged : engine.Logged [] store) :
    Ensures fit (engine.applyAll validate requests []) store fun _ after =>
      engine.Logged [] after := by
  have logs : engine.Logs fit validate requests (fun _ => True) (engine.Logged : _ → σ → Prop) := by
    refine ⟨fun {request changes store} member logged => ?_, ensures_applyDelta_takenBack shallow⟩
    refine (ensures_applyDelta_logged shallow request.scope request.name (bounded request member)
      logged).mono ?_
    rintro (error | amount) after applies
    · exact ⟨applies, trivial⟩
    · exact applies
  refine (ensures_applyAll_logged logs [] logged).mono ?_
  rintro (error | done) after kept
  · exact kept.1
  · obtain ⟨changes, loggedAfter⟩ := kept
    exact loggedAfter.forget

omit shallow in
/-- A limit that is set to no limit or to one above the usage is kept. -/
theorem Logged.put_limit {store : σ} (logged : engine.Logged [] store) {scope : Entity}
    {field : Field} (registered : field ∈ engine.registry.fields scope.kind) {quota : Quota}
    (found : lookup store scope field.name = some quota) {limit : Amount}
    (admits : field.aggregator? = none → limit = .unlimited ∨ quota.usage ≤ limit) :
    engine.Logged [] (put store scope field.name { quota with limit }) where
  available change member := by cases member
  retraces other label otherRegistered plain := by
    have within := logged.retraces other label otherRegistered plain
    rw [standing_put]
    split
    · rename_i same
      obtain ⟨rfl, sameName⟩ := same
      obtain rfl := Registry.eq_of_name_eq registered otherRegistered sameName
      rw [standing_of_lookup found] at within
      exact ⟨within.1, admits plain⟩
    · exact within

/-- An administrator cannot set a limit below the usage, so the limits are kept. -/
theorem ensures_updateLimit_limits (scope : Entity) (name : String) (limit : Amount) {store : σ}
    (logged : engine.Logged [] store) :
    Ensures fit (engine.updateLimit scope name limit) store fun _ after =>
      engine.Logged [] after := by
  unfold updateLimit
  refine Action.ensures_bind (fun _ => inferInstance) (Action.ensures_ofExcept ?_)
  cases lookedUp : engine.field scope name with
  | error error => exact logged
  | ok field =>
      have known := Registry.field_eq_ok_iff.1 lookedUp
      dsimp only
      split
      · exact Action.ensures_throw logged
      by_cases available : engine.Available scope name
      · obtain ⟨other, otherKnown, connected⟩ := available
        obtain rfl := Option.some.inj (known.symm.trans otherKnown)
        obtain ⟨registered, rfl⟩ := Registry.field?_eq_some_iff.1 known
        refine Action.ensures_bind (fun _ => inferInstance)
          ((ensures_getOrCreate_logged shallow registered connected logged).mono ?_)
        rintro _ middle ⟨quota, rfl, loggedMiddle, later, found, same⟩
        dsimp only
        split
        · exact Action.ensures_throw loggedMiddle
        rename_i admitted
        have admits : field.aggregator? = none → limit = .unlimited ∨ later.usage ≤ limit := by
          intro plain
          rw [same plain, or_iff_not_imp_left, Amount.le_iff]
          exact fun limited => not_lt.1 fun below => admitted ⟨limited, below⟩
        unfold setLimit
        refine Action.ensures_bind (fun _ => inferInstance) (Action.ensures_discard
          ((ensures_getOrCreate_stored known connected found).mono ?_))
        rintro _ middle ⟨rfl, rfl⟩
        refine Action.ensures_bind (fun _ => inferInstance) (Action.ensures_access
          (Action.ensures_setLimit (fun stored storedFound _ => ?_) fun absent => ?_))
        · obtain rfl := Option.some.inj (found.symm.trans storedFound)
          refine (ensures_childChanged_logged shallow _ _ _ _ _
            (loggedMiddle.put_limit registered found admits)).mono ?_
          exact fun _ _ kept => kept.2
        · rw [found] at absent
          cases absent
      · refine Action.ensures_bind (fun _ => inferInstance)
          ((ensures_getOrCreate_unavailable available).mono ?_)
        rintro _ after ⟨rfl, error, rfl⟩
        exact logged

omit shallow in
/-- A removed record leaves the initial quota of its field behind. -/
theorem Logged.drop {store : σ} (starts : engine.StartsWithinLimits)
    (logged : engine.Logged [] store) (scope : Entity) :
    engine.Logged [] (LawfulStore.drop store scope) where
  available change member := by cases member
  retraces other field registered plain := by
    have within := logged.retraces other field registered plain
    unfold standing at within ⊢
    rw [LawfulStore.lookup_drop]
    split
    · exact starts other field registered plain
    · exact within

omit shallow in
/-- Records that are removed leave their defaults, and their numbers are taken back from sums
only. -/
theorem ensures_childDeleted_limits (starts : engine.StartsWithinLimits) (scope : Entity)
    {store : σ} (logged : engine.Logged [] store) :
    Ensures fit (engine.childDeleted scope) store fun _ after => engine.Logged [] after :=
  (ensures_childDeleted_kept spreads_logged (fun _ => trivial) fun _ => logged.drop starts scope).mono
    fun _ _ kept => kept.1

omit shallow in
/-- New records begin within their limits. -/
theorem ensures_initializeScope_limits (scope : Entity) {store : σ}
    (logged : engine.Logged [] store) :
    Ensures fit (engine.initializeScope scope) store fun _ after => engine.Logged [] after :=
  (ensures_initializeFields_kept spreads_logged scope _
    (fun _ registered _ logged absent _ => ⟨logged.put_starting registered absent, trivial⟩)
    logged).mono fun _ _ kept => kept.1

/-- The changes that an event asks for are validated. -/
theorem ensures_applyTargetChange_limits (entity : Entity) (change : TargetChange) {store : σ}
    (logged : engine.Logged [] store) :
    Ensures fit (engine.applyTargetChange entity change) store fun _ after =>
      engine.Logged [] after :=
  ensures_applyAll_limits shallow (fun _ _ => .inl rfl) logged

/-- A rejected creation removes records, which keeps the limits, too. -/
theorem ensures_entityCreated_limits (starts : engine.StartsWithinLimits) (entity : Entity)
    {store : σ} (logged : engine.Logged [] store) :
    Ensures fit (engine.entityCreated entity) store fun _ after => engine.Logged [] after := by
  by_cases isScope : engine.registry.isScopeKind entity.kind = true
  · refine ensures_entityCreated_of_steps isScope
      ((ensures_initializeScope_limits entity logged).mono ?_)
    rintro (error | count) middle loggedMiddle
    · exact loggedMiddle
    refine (ensures_applyTargetChange_limits shallow entity .created loggedMiddle).mono ?_
    rintro (error | done) later loggedLater
    · exact ensures_childDeleted_limits starts entity loggedLater
    · exact loggedLater
  · exact ensures_entityCreated_of_not_isScope isScope
      (ensures_applyTargetChange_limits shallow entity .created logged)

/-- A deletion lowers usages and removes records. -/
theorem ensures_entityDeleted_limits (starts : engine.StartsWithinLimits) (entity : Entity)
    {store : σ} (logged : engine.Logged [] store) :
    Ensures fit (engine.entityDeleted entity) store fun _ after => engine.Logged [] after := by
  unfold entityDeleted
  refine Action.ensures_bind (fun _ => inferInstance)
    ((ensures_applyTargetChange_limits shallow entity .deleted logged).mono ?_)
  rintro (error | done) middle loggedMiddle
  · exact loggedMiddle
  dsimp only
  split
  · exact ensures_childDeleted_limits starts entity loggedMiddle
  · exact Action.ensures_pure loggedMiddle

/-- A changed attribute is validated where it raises a total. -/
theorem ensures_attributeChanged_limits (entity : Entity) (name : String) (old new : Amount)
    {store : σ} (logged : engine.Logged [] store) :
    Ensures fit (engine.attributeChanged entity name old new) store fun _ after =>
      engine.Logged [] after := by
  unfold attributeChanged
  split
  · exact Action.ensures_pure logged
  · exact ensures_applyTargetChange_limits shallow entity _ logged

/-- Each kind of event keeps all limits. -/
theorem ensures_handle_limits (starts : engine.StartsWithinLimits) (event : EntityEvent)
    {store : σ} (logged : engine.Logged [] store) :
    Ensures fit (engine.handle event) store fun _ after => engine.Logged [] after := by
  cases event with
  | created entity => exact ensures_entityCreated_limits shallow starts entity logged
  | deleted entity => exact ensures_entityDeleted_limits shallow starts entity logged
  | attributeChanged entity name old new =>
      exact ensures_attributeChanged_limits shallow entity name old new logged

end Shallow

end Steps

end Engine

section Runs

/-- A respectful call validates what it adds, lowers usages, or reports an event. -/
inductive RespectfulCall where
  | getOrCreate (scope : Entity) (name : String)
  | initializeScope (scope : Entity)
  | addUsage (scope : Entity) (name : String) (delta : Amount)
  | applyChanges (scopes : List Entity) (deltas : List (String × Amount)) (multiplier : Amount)
  | decrease (scopes : List Entity) (deltas : List (String × Amount))
      (nonnegative : ∀ delta ∈ deltas, 0 ≤ delta.2)
  | updateLimit (scope : Entity) (name : String) (limit : Amount)
  | handle (event : EntityEvent)
  | childDeleted (scope : Entity)

/-- A turn is a call that is served while the graph looks in one way. -/
structure Turn where
  graph : Graph
  call : RespectfulCall

namespace Engine

/-- A call is served by the action of its name. Increases are always validated. -/
def serve {σ : Type} [QuotaStore σ] (engine : Engine) : RespectfulCall → Action σ Unit
  | .getOrCreate scope name => discard (engine.getOrCreate scope name)
  | .initializeScope scope => discard (engine.initializeScope scope)
  | .addUsage scope name delta => engine.addUsage scope name delta true
  | .applyChanges scopes deltas multiplier => engine.applyChanges scopes deltas multiplier true
  | .decrease scopes deltas _ => engine.decrease scopes deltas
  | .updateLimit scope name limit => engine.updateLimit scope name limit
  | .handle event => engine.handle event
  | .childDeleted scope => engine.childDeleted scope

/-- The requests of a decrease are not positive. -/
theorem bounded_decrease (scopes : List Entity) {deltas : List (String × Amount)}
    (nonnegative : ∀ delta ∈ deltas, 0 ≤ delta.2) :
    Bounded false ((requests scopes deltas (-1)).map .ok) := by
  intro request member
  right
  obtain ⟨-, delta, deltaMember, -, amount⟩ := mem_requests member
  have floor : 0 ≤ delta.2.value := nonnegative delta deltaMember
  have one : (-1 : Amount).value = -1 := rfl
  rw [← amount, Amount.le_iff, Amount.value_mul, Amount.value_zero, one]
  omega

/-- Every respectful call keeps all limits, whether it succeeds or fails. -/
theorem ensures_serve_limits {engine : Engine} {fit : StoreCall → σ → Prop}
    (shallow : engine.graph.Shallow) (starts : engine.StartsWithinLimits) (call : RespectfulCall)
    {store : σ} (logged : engine.Logged [] store) :
    Ensures fit (engine.serve call) store fun _ after => engine.Logged [] after := by
  cases call with
  | getOrCreate scope name =>
      apply Action.ensures_discard
      by_cases available : engine.Available scope name
      · obtain ⟨field, known, connected⟩ := available
        obtain ⟨registered, rfl⟩ := Registry.field?_eq_some_iff.1 known
        refine (ensures_getOrCreate_logged shallow registered connected logged).mono ?_
        rintro _ after ⟨quota, rfl, loggedAfter, -⟩
        exact loggedAfter
      · refine (ensures_getOrCreate_unavailable available).mono ?_
        rintro _ after ⟨rfl, error, rfl⟩
        exact logged
  | initializeScope scope =>
      apply Action.ensures_discard
      refine (ensures_initializeScope_limits scope logged).mono ?_
      rintro (error | count) after loggedAfter <;> exact loggedAfter
  | addUsage scope name delta =>
      apply Action.ensures_discard
      refine (ensures_applyDelta_logged shallow scope name (.inl rfl) logged).mono ?_
      rintro (error | amount) after loggedAfter
      · exact loggedAfter
      · exact Logged.forget loggedAfter
  | applyChanges scopes deltas multiplier =>
      exact ensures_applyAll_limits shallow (fun _ _ => .inl rfl) logged
  | decrease scopes deltas nonnegative =>
      exact ensures_applyAll_limits shallow (bounded_decrease scopes nonnegative) logged
  | updateLimit scope name limit => exact ensures_updateLimit_limits shallow scope name limit logged
  | handle event => exact ensures_handle_limits shallow starts event logged
  | childDeleted scope => exact ensures_childDeleted_limits starts scope logged

end Engine

omit [LawfulStore σ] in
/-- Stores that answer alike serve each call alike. -/
theorem AnswersAlike.serve {τ : Type} [QuotaStore τ] {related : τ → σ → Prop}
    (alike : AnswersAlike related) (engine : Engine) (call : RespectfulCall) :
    Lockstep related (engine.serve call) (engine.serve call) := by
  cases call with
  | getOrCreate scope name => exact (alike.getOrCreateQuota _ _ _).discard
  | initializeScope scope => exact (alike.initializeScope _ _).discard
  | addUsage scope name delta => exact alike.addQuotaUsage _ _ _ _ _
  | applyChanges scopes deltas multiplier => exact alike.applyChanges _ _ _ _ _
  | decrease scopes deltas nonnegative => exact alike.applyChanges _ _ _ _ _
  | updateLimit scope name limit => exact alike.updateLimit _ _ _ _
  | handle event => exact alike.handle _ _
  | childDeleted scope => exact alike.childDeleted _ _

omit [LawfulStore σ] in
/-- A call adds to the history and takes nothing back. -/
instance extends_serve (engine : Engine) (call : RespectfulCall) :
    Action.Extends (engine.serve call : Action (RecordedStore σ) Unit) :=
  Action.extends_of_lockstep fun start => (RecordedStore.answersAlike_self start).serve engine call

namespace Registry

/-- The turns are taken in order, and one that fails does not keep the later ones from running. -/
def takeTurns {σ : Type} [QuotaStore σ] (registry : Registry) (turns : List Turn) :
    Action σ Unit :=
  turns.forM fun turn => discard (Action.attempt ((⟨registry, turn.graph⟩ : Engine).serve turn.call))

/-- A turn can be taken in a shallow hierarchy with initial quotas that are within their limits. -/
structure Admits (registry : Registry) (turn : Turn) : Prop where
  shallow : turn.graph.Shallow
  starts : (⟨registry, turn.graph⟩ : Engine).StartsWithinLimits

/-- All limits are kept from turn to turn, although the graph is edited in between. -/
theorem ensures_takeTurns_limits {registry : Registry} {fit : StoreCall → σ → Prop}
    {turns : List Turn} (admits : ∀ turn ∈ turns, registry.Admits turn) {store : σ}
    (limits : registry.Limits store) :
    Ensures fit (registry.takeTurns turns) store fun result after =>
      result = .ok ⟨⟩ ∧ registry.Limits after := by
  refine Action.ensures_forM (fun turn member middle limits => ?_) limits
  obtain ⟨shallow, starts⟩ := admits turn member
  have logged := Engine.logged_nil_of_limits starts limits
  refine Action.ensures_discard (Action.ensures_attempt
    ((Engine.ensures_serve_limits shallow starts turn.call logged).mono ?_))
  exact fun _ _ loggedAfter => ⟨rfl, loggedAfter.limits⟩

/-- Limits are enforced over whole runs. After any turns from an empty store on, every stored quota
of a field that is not summed has a usage that is not negative and not above a finite limit. -/
theorem withinLimit_of_takeTurns (registry : Registry) (turns : List Turn)
    (admits : ∀ turn ∈ turns, registry.Admits turn) (store : σ)
    (empty : ∀ scope name, lookup store scope name = none) (scope : Entity) (field : Field)
    (registered : field ∈ registry.fields scope.kind) (plain : field.aggregator? = none)
    (quota : Quota)
    (found : lookup (Action.after (registry.takeTurns turns) store) scope field.name =
      some quota) :
    quota.WithinLimit := by
  have limits : registry.Limits store := by
    intro other label _ _ early present
    rw [empty] at present
    cases present
  have alike : Lockstep (fun (state : RecordedStore σ) store => state.store = store)
      (registry.takeTurns turns) (registry.takeTurns turns) :=
    Lockstep.forM (fun turn =>
      (RecordedStore.answersAlike.serve ⟨registry, turn.graph⟩ turn.call).attempt.discard) turns
  have ensures : Ensures (fun _ _ => True) (registry.takeTurns turns) store fun result after =>
      result = .ok ⟨⟩ ∧ registry.Limits after := ensures_takeTurns_limits admits limits
  have kept := ensures.of_allFit alike fun _ _ => trivial
  exact kept.2 scope field registered plain quota found

end Registry

end Runs

section Sample

/-- From the fourth turn on, the graph does not know the team any more. -/
def sampleTurns : List Turn :=
  [⟨sampleGraph, .handle (.created sampleTeam)⟩, ⟨sampleGraph, .addUsage sampleTeam "storage" 8⟩,
    ⟨sampleGraph, .applyChanges [sampleTeam] [("storage", -20), ("storage", 11)] 1⟩,
    ⟨sampleGraph.remove sampleTeam, .updateLimit sampleTeam "storage" 5⟩,
    ⟨sampleGraph.remove sampleTeam, .decrease [sampleTeam] [("storage", 2)] (by decide)⟩]

/-- All usages of the sample start from zero, which no limit is below. -/
theorem startsWithinLimits_sampleRegistry (graph : Graph) :
    (⟨sampleRegistry, graph⟩ : Engine).StartsWithinLimits := by
  intro scope field registered plain
  obtain ⟨registration, member, rfl⟩ := List.mem_map.1 registered
  have listed := (List.mem_filter.1 member).1
  simp only [sampleRegistry, List.mem_cons, List.not_mem_nil, or_false] at listed
  rcases listed with rfl | rfl | rfl | rfl
  · cases plain
  · cases plain
  · change Quota.WithinLimit ⟨10, 0⟩
    decide
  · change Quota.WithinLimit ⟨.unlimited, 0⟩
    decide

/-- The batch is refused and undone, and so is the limit below the usage. -/
theorem withinLimit_of_takeTurns_sample :
    (Action.after (sampleRegistry.takeTurns sampleTurns) MemoryStore.empty).lookup sampleTeam
        "storage" = some ⟨10, 6⟩ ∧
      Quota.WithinLimit ⟨10, 6⟩ := by
  have found : (Action.after (sampleRegistry.takeTurns sampleTurns) MemoryStore.empty).lookup
      sampleTeam "storage" = some ⟨10, 6⟩ := by decide +kernel
  have edited : (sampleGraph.remove sampleTeam).Shallow := by decide +kernel
  refine ⟨found, Registry.withinLimit_of_takeTurns sampleRegistry sampleTurns ?_ MemoryStore.empty
    (fun scope name => MemoryStore.lookup_empty scope name) sampleTeam
    { name := "storage", defaultLimit := .constant 10 } (List.Mem.head _) rfl _ found⟩
  intro turn member
  refine ⟨?_, startsWithinLimits_sampleRegistry turn.graph⟩
  simp only [sampleTurns, List.mem_cons, List.not_mem_nil, or_false] at member
  rcases member with rfl | rfl | rfl | rfl | rfl
  · exact shallow_sampleGraph
  · exact shallow_sampleGraph
  · exact shallow_sampleGraph
  · exact edited
  · exact edited

end Sample

end HierarchicalQuota
