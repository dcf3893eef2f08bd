import HierarchicalQuota.Proofs.Rules
import HierarchicalQuota.Proofs.Updates

namespace HierarchicalQuota

open HierarchicalQuota.Action (Ensures)
open LawfulStore (lookup put)

/-- An operation is a call of the engine that may create records or change quotas. -/
inductive Operation where
  | getOrCreate (scope : Entity) (name : String)
  | initializeScope (scope : Entity)
  | setLimit (scope : Entity) (name : String) (limit : Amount)
  | updateLimit (scope : Entity) (name : String) (limit : Amount)
  | childDeleted (scope : Entity)
  | setUsage (scope : Entity) (name : String) (usage : Amount)
  | addUsage (scope : Entity) (name : String) (delta : Amount) (validate : Bool)
  | applyChanges (scopes : List Entity) (deltas : List (String × Amount)) (multiplier : Amount)
      (validate : Bool)
deriving DecidableEq, Inhabited

variable {σ : Type} [QuotaStore σ]

namespace Engine

/-- An operation is performed by the action of its name. -/
def perform (engine : Engine) : Operation → Action σ Unit
  | .getOrCreate scope name => discard (engine.getOrCreate scope name)
  | .initializeScope scope => discard (engine.initializeScope scope)
  | .setLimit scope name limit => engine.setLimit scope name limit
  | .updateLimit scope name limit => engine.updateLimit scope name limit
  | .childDeleted scope => engine.childDeleted scope
  | .setUsage scope name usage => engine.setUsage scope name usage
  | .addUsage scope name delta validate => engine.addUsage scope name delta validate
  | .applyChanges scopes deltas multiplier validate =>
      engine.applyChanges scopes deltas multiplier validate

/-- An operation that fails does not keep the later ones from running. -/
def performAll (engine : Engine) (operations : List Operation) : Action σ Unit :=
  operations.forM fun operation => discard (Action.attempt (engine.perform operation))

/-- The usage of a name can be changed by a caller if no aggregator has the name. -/
def Plain (engine : Engine) (scope : Entity) (name : String) : Prop :=
  ∀ field ∈ engine.registry.field? scope.kind name, field.aggregator? = none

/-- A field without an aggregator is plain under its name, because no other field has this name. -/
theorem plain_of_registered {engine : Engine} {scope : Entity} {field : Field}
    (registered : field ∈ engine.registry.fields scope.kind) (plain : field.aggregator? = none) :
    engine.Plain scope field.name := by
  intro other known
  have same := Registry.field?_eq_some_iff.2 ⟨registered, rfl⟩
  obtain rfl := Option.some.inj (same.symm.trans known)
  exact plain

/-- No aggregate has the name of a plain quota. -/
theorem Plain.ne_name {engine : Engine} {scope : Entity} {name : String}
    (plain : engine.Plain scope name) (field : Field)
    (present : engine.HasAggregate ⟨scope, field⟩) : field.name ≠ name := by
  intro sameName
  have none := plain field (Registry.field?_eq_some_iff.2 ⟨present.registered, sameName⟩)
  have some := present.aggregator
  rw [none] at some
  cases some

end Engine

section Lockstep

variable {τ : Type} [QuotaStore τ] {related : τ → σ → Prop}

/-- Stores that answer alike perform each operation alike. -/
theorem AnswersAlike.perform (alike : AnswersAlike related) (engine : Engine)
    (operation : Operation) :
    Lockstep related (engine.perform operation) (engine.perform operation) := by
  cases operation with
  | getOrCreate scope name => exact (alike.getOrCreateQuota _ _ _).discard
  | initializeScope scope => exact (alike.initializeScope _ _).discard
  | setLimit scope name limit => exact alike.setQuotaLimit _ _ _ _
  | updateLimit scope name limit => exact alike.updateLimit _ _ _ _
  | childDeleted scope => exact alike.childDeleted _ _
  | setUsage scope name usage => exact alike.setQuotaUsage _ _ _ _
  | addUsage scope name delta validate => exact alike.addQuotaUsage _ _ _ _ _
  | applyChanges scopes deltas multiplier validate => exact alike.applyChanges _ _ _ _ _

/-- Stores that answer alike perform all operations alike, and the same ones fail. -/
theorem AnswersAlike.performAll (alike : AnswersAlike related) (engine : Engine)
    (operations : List Operation) :
    Lockstep related (engine.performAll operations) (engine.performAll operations) :=
  Lockstep.forM (fun operation => (alike.perform engine operation).attempt.discard) operations

end Lockstep

/-- An operation adds to the history and takes nothing back. -/
instance extends_perform (engine : Engine) (operation : Operation) :
    Action.Extends (engine.perform operation : Action (RecordedStore σ) Unit) :=
  Action.extends_of_lockstep fun start =>
    (RecordedStore.answersAlike_self start).perform engine operation

/-- An operation is fair if it changes the usage of no aggregator. -/
def Operation.Fair (engine : Engine) : Operation → Prop
  | .setUsage scope name _ | .addUsage scope name _ _ => engine.Plain scope name
  | .applyChanges scopes deltas _ _ =>
      ∀ scope ∈ scopes, ∀ delta ∈ deltas, engine.Plain scope delta.1
  | .getOrCreate .. | .initializeScope .. | .setLimit .. | .updateLimit .. | .childDeleted .. =>
      True

/-- Whether a quota is plain can be read off its field. -/
instance (engine : Engine) (scope : Entity) (name : String) : Decidable (engine.Plain scope name) :=
  inferInstanceAs (Decidable (∀ field ∈ engine.registry.field? scope.kind name,
    field.aggregator? = none))

/-- Whether an operation is fair can be read off the fields that it names. -/
instance (engine : Engine) : (operation : Operation) → Decidable (operation.Fair engine)
  | .setUsage scope name _ | .addUsage scope name _ _ =>
      inferInstanceAs (Decidable (engine.Plain scope name))
  | .applyChanges scopes deltas _ _ =>
      inferInstanceAs (Decidable (∀ scope ∈ scopes, ∀ delta ∈ deltas, engine.Plain scope delta.1))
  | .getOrCreate .. | .initializeScope .. | .setLimit .. | .updateLimit .. | .childDeleted .. =>
      isTrue trivial

namespace Engine

variable [LawfulStore σ] {engine : Engine} (matching : engine.Matching)
  (shallow : engine.graph.Shallow)

include matching shallow

/-- Logged changes are fair if none is a change of an aggregator. The store has been kept sound, and
nothing was touched apart from some records that include all that the changes reach. -/
structure FairLog (engine : Engine) (touched : Entity → String → Prop) (before : σ)
    (changes : List Change) (after : σ) : Prop where
  plain : ∀ change ∈ changes, engine.Plain change.scope change.name
  inside : ∀ change ∈ changes, ∀ other label,
    engine.Touches change.scope change.name other label → touched other label
  maintains : engine.Maintains touched before after

/-- A fair change keeps a store sound and touches no more than a batch may touch. -/
theorem ensures_applyDelta_maintains {touched : Entity → String → Prop} {scope : Entity}
    {name : String} (plain : engine.Plain scope name)
    (inside : ∀ other label, engine.Touches scope name other label → touched other label)
    (delta : Amount) (validate : Bool) {before store : σ}
    (maintains : engine.Maintains touched before store) :
    Ensures engine.Exact (engine.applyDelta scope name delta validate) store
      (engine.Keeps touched before) := by
  refine (ensures_applyDelta matching shallow scope name delta validate maintains.sound
    plain.ne_name).mono ?_
  rintro result after ⟨soundAfter, frame⟩
  exact ⟨soundAfter, maintains.frame.trans (frame.mono inside)⟩

/-- A batch keeps a store sound, also where it stops in the middle and takes its changes back. -/
theorem ensures_applyAll {touched : Entity → String → Prop} (validate : Bool)
    (requests : List (Except QuotaError Change))
    (plain : ∀ change, .ok change ∈ requests → engine.Plain change.scope change.name)
    (inside : ∀ change, .ok change ∈ requests →
      ∀ other label, engine.Touches change.scope change.name other label → touched other label)
    {store : σ} (sound : engine.Sound store) :
    Ensures engine.Exact (engine.applyAll validate requests []) store
      (engine.Keeps touched store) := by
  have logs : engine.Logs engine.Exact validate requests (fun _ => True)
      (engine.FairLog touched store) := by
    constructor
    · intro request changes middle member logged
      refine (ensures_applyDelta_maintains matching shallow (plain request member)
        (inside request member) request.amount validate logged.maintains).mono ?_
      rintro (error | amount) after maintained
      · exact ⟨⟨logged.plain, logged.inside, maintained⟩, trivial⟩
      · exact ⟨List.forall_mem_cons.2 ⟨plain request member, logged.plain⟩,
          List.forall_mem_cons.2 ⟨inside request member, logged.inside⟩, maintained⟩
    · intro change changes middle logged
      obtain ⟨changePlain, earlierPlain⟩ := List.forall_mem_cons.1 logged.plain
      obtain ⟨changeInside, earlierInside⟩ := List.forall_mem_cons.1 logged.inside
      exact (ensures_applyDelta_maintains matching shallow changePlain changeInside _ false
        logged.maintains).mono fun _ _ maintained => ⟨earlierPlain, earlierInside, maintained⟩
  refine (ensures_applyAll_logged logs []
    ⟨List.forall_mem_nil _, List.forall_mem_nil _, .refl sound⟩).mono ?_
  rintro (error | done) after kept
  · exact kept.1.maintains
  · obtain ⟨changes, logged⟩ := kept
    exact logged.maintains

omit matching shallow in
/-- Every request of a batch is for one of its scopes and one of its names, with the amount times
the multiplier. -/
theorem mem_requests {scopes : List Entity} {deltas : List (String × Amount)}
    {multiplier : Amount} {change : Change}
    (member : (.ok change : Except QuotaError Change) ∈
      (requests scopes deltas multiplier).map .ok) :
    change.scope ∈ scopes ∧ ∃ delta ∈ deltas,
      delta.1 = change.name ∧ delta.2 * multiplier = change.amount := by
  obtain ⟨other, otherMember, same⟩ := List.mem_map.1 member
  obtain rfl := Except.ok.inj same
  obtain ⟨delta, deltaMember, mapped⟩ := List.mem_flatMap.1 otherMember
  obtain ⟨scope, scopeMember, rfl⟩ := List.mem_map.1 mapped
  exact ⟨scopeMember, delta, deltaMember, rfl, rfl⟩

/-- A batch of changes touches the named records of its scopes and the aggregates above them. -/
theorem ensures_applyChanges (scopes : List Entity) (deltas : List (String × Amount))
    (multiplier : Amount) (validate : Bool)
    (plain : ∀ scope ∈ scopes, ∀ delta ∈ deltas, engine.Plain scope delta.1) {store : σ}
    (sound : engine.Sound store) :
    Ensures engine.Exact (engine.applyChanges scopes deltas multiplier validate) store
      (engine.Keeps (fun other label => ∃ scope ∈ scopes, ∃ delta ∈ deltas,
        engine.Touches scope delta.1 other label) store) := by
  refine ensures_applyAll matching shallow validate _ (fun change requested => ?_)
    (fun change requested other label touches => ?_) sound
  · obtain ⟨scopeMember, delta, deltaMember, sameName, -⟩ := mem_requests requested
    rw [← sameName]
    exact plain change.scope scopeMember delta deltaMember
  · obtain ⟨scopeMember, delta, deltaMember, sameName, -⟩ := mem_requests requested
    exact ⟨change.scope, scopeMember, delta, deltaMember, sameName ▸ touches⟩

/-- Every fair operation keeps a store sound, whether it succeeds or fails. -/
theorem ensures_perform (operation : Operation) (fair : operation.Fair engine) {store : σ}
    (sound : engine.Sound store) :
    Ensures engine.Exact (engine.perform operation) store fun _ after => engine.Sound after := by
  cases operation with
  | getOrCreate scope name =>
      apply Action.ensures_discard
      refine (ensures_getOrCreateQuota matching shallow formsExactly_exact scope name sound).mono ?_
      rintro (error | quota) after ⟨maintains, -⟩ <;> exact maintains.sound
  | initializeScope scope =>
      apply Action.ensures_discard
      refine (ensures_initializeFields matching shallow scope _ (fun _ member => member) sound).mono
        ?_
      rintro (error | count) after ⟨-, maintains, -⟩ <;> exact maintains.sound
  | setLimit scope name limit =>
      exact (ensures_setQuotaLimit matching shallow scope name limit sound).mono
        fun _ _ kept => kept.1.sound
  | updateLimit scope name limit =>
      exact (ensures_updateLimit matching shallow scope name limit sound).mono
        fun _ _ kept => kept.1.sound
  | childDeleted scope =>
      exact (ensures_childDeleted matching shallow scope sound).mono fun _ _ kept => kept.2.sound
  | setUsage scope name usage =>
      exact (ensures_setQuotaUsage matching shallow scope name usage sound fair.ne_name).mono
        fun _ _ kept => kept.sound
  | addUsage scope name delta validate =>
      apply Action.ensures_discard
      refine (ensures_applyDelta matching shallow scope name delta validate sound
        fair.ne_name).mono ?_
      rintro (error | amount) after kept <;> exact kept.sound
  | applyChanges scopes deltas multiplier validate =>
      exact (ensures_applyChanges matching shallow scopes deltas multiplier validate fair sound).mono
        fun _ _ kept => kept.sound

/-- A store stays sound from operation to operation. The induction is on the operations. -/
theorem ensures_performAll (operations : List Operation)
    (fair : ∀ operation ∈ operations, operation.Fair engine) {store : σ}
    (sound : engine.Sound store) :
    Ensures engine.Exact (engine.performAll operations) store fun result after =>
      result = .ok ⟨⟩ ∧ engine.Sound after := by
  refine Action.ensures_forM (fun operation member middle sound => ?_) sound
  refine Action.ensures_discard (Action.ensures_attempt ((ensures_perform matching shallow
    operation (fair operation member) sound).mono ?_))
  exact fun _ _ soundAfter => ⟨rfl, soundAfter⟩

/-- Lazy creation loses nothing and counts nothing twice. Every stored aggregate of a connected field
equals the sum over its children after any sequence of fair operations, if it did so before, the
graph matches the aggregators, and no number is cut off. -/
theorem balanced_performAll (operations : List Operation)
    (fair : ∀ operation ∈ operations, operation.Fair engine) (store : σ)
    (registered : engine.Registered store) (balanced : engine.Balanced store)
    (exact : RecordedStore.AllFit engine.Exact
      (Action.history (engine.performAll operations) store)) :
    engine.Balanced (Action.after (engine.performAll operations) store) := by
  have ensures := ensures_performAll matching shallow operations fair ⟨balanced, registered⟩
  have kept := ensures.of_allFit (RecordedStore.answersAlike.performAll engine operations) exact
  exact kept.2.balanced

end Engine

section Sample

/-- The team has a record, and the organization above it has none. -/
def sampleStore : MemoryStore := MemoryStore.empty.put sampleTeam "storage" ⟨10, 4⟩

/-- The batch is rejected at its second change, and the records of the team are removed in the end. -/
def sampleOperations : List Operation :=
  [.addUsage sampleTeam "storage" 2 true, .setLimit sampleTeam "storage" 25,
    .getOrCreate sampleOrganization "storage",
    .applyChanges [sampleTeam] [("storage", 3), ("storage", 90)] 1 true,
    .updateLimit sampleTeam "seats" 7, .childDeleted sampleTeam]

/-- The store holds one record only. -/
theorem lookup_sampleStore {scope : Entity} {name : String} {quota : Quota}
    (found : LawfulStore.lookup sampleStore scope name = some quota) :
    scope = sampleTeam ∧ name = "storage" := by
  change (MemoryStore.put _ _ _ _).lookup scope name = _ at found
  rw [MemoryStore.lookup_put, MemoryStore.lookup_empty] at found
  split at found
  · rename_i same
    exact ⟨same.1.symm, same.2.symm⟩
  · cases found

/-- The one record is of a registered field. -/
theorem registered_sampleStore : sampleEngine.Registered sampleStore := by
  intro scope name present
  obtain ⟨quota, found⟩ := lookup_of_stored present
  obtain ⟨rfl, rfl⟩ := lookup_sampleStore found
  decide

/-- No aggregate is stored, so none can be out of balance. -/
theorem balanced_sampleStore : sampleEngine.Balanced sampleStore := by
  rintro ⟨scope, field⟩ present quota found
  obtain ⟨rfl, sameName⟩ := lookup_sampleStore found
  have plain : sampleEngine.Plain sampleTeam "storage" := by decide
  exact absurd sameName (plain.ne_name field present)

/-- The missing aggregate is created in between, and one of the operations is rejected. -/
theorem balanced_performAll_sample :
    sampleEngine.Balanced (Action.after (sampleEngine.performAll sampleOperations) sampleStore) :=
  Engine.balanced_performAll Engine.matching_sampleEngine shallow_sampleGraph sampleOperations
    (by decide) sampleStore registered_sampleStore balanced_sampleStore (by decide +kernel)

end Sample

end HierarchicalQuota
