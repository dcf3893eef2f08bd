import HierarchicalQuota.Proofs.Ensures
import HierarchicalQuota.Proofs.Registered

namespace HierarchicalQuota

open HierarchicalQuota.Action (Ensures)
open LawfulStore (lookup)

namespace Engine

variable {σ : Type} [QuotaStore σ] {engine : Engine} {fit : StoreCall → σ → Prop}

/-- A record that is stored is read, and one that is not stored is created. -/
theorem ensures_ensure_of_steps [LawfulStore σ] {scope : Entity} {field : Field} {store : σ}
    {post : Except QuotaError Quota → σ → Prop}
    (present : ∀ quota, lookup store scope field.name = some quota → post (.ok quota) store)
    (absent : lookup store scope field.name = none →
      Ensures fit (engine.create engine.creationBudget ⟨scope, field⟩) store post) :
    Ensures fit (engine.ensure scope field) store post := by
  unfold ensure
  refine Action.ensures_bind (fun found => by cases found <;> infer_instance)
    (Action.ensures_access (Action.ensures_get ?_))
  cases found : lookup store scope field.name with
  | some quota => exact Action.ensures_pure (present quota found)
  | none => exact absent found

/-- The record of an available quota is read or created. -/
theorem ensures_getOrCreate_of_ensure {scope : Entity} {field : Field} {store : σ}
    {post : Except QuotaError Quota → σ → Prop}
    (registered : field ∈ engine.registry.fields scope.kind)
    (connected : field.isConnected scope engine.graph = true)
    (ensures : Ensures fit (engine.ensure scope field) store post) :
    Ensures fit (engine.getOrCreate scope field.name) store post := by
  have known : engine.field scope field.name = .ok field :=
    Registry.field_eq_ok_iff.2 (Registry.field?_eq_some_iff.2 ⟨registered, rfl⟩)
  unfold getOrCreate
  refine Action.ensures_bind (fun _ => inferInstance) (Action.ensures_ofExcept ?_)
  rw [known]
  dsimp only
  rw [if_pos connected]
  exact ensures

/-- A change of a usage finds or creates the record, writes it, and reports the difference that was
stored. Only a change by zero does nothing of this. -/
theorem ensures_applyDelta_of_steps {scope : Entity} {name : String} {delta : Amount}
    {validate : Bool} {store : σ} {post : Except QuotaError Amount → σ → Prop}
    (zero : delta = 0 → post (.ok 0) store)
    (ensures : delta ≠ 0 → Ensures fit (engine.getOrCreate scope name) store fun result middle =>
      match result with
      | .error error => post (.error error) middle
      | .ok _ => Ensures fit (QuotaStore.addUsage scope name delta validate) middle
          fun result written =>
            match result with
            | .error error => post (.error (.storage error)) written
            | .ok (.rejected usage limit) =>
                post (.error (.limitExceeded ⟨scope, name, limit, usage + delta⟩)) written
            | .ok (.applied old new _) =>
                Ensures fit (engine.childChanged scope name .usage old new) written
                  fun result after => post (result.map fun _ => new - old) after) :
    Ensures fit (engine.applyDelta scope name delta validate) store post := by
  unfold applyDelta
  split
  · exact Action.ensures_pure (zero ‹_›)
  refine Action.ensures_bind (fun _ => ?_) (Action.ensures_discard ((ensures ‹_›).mono ?_))
  · refine @Action.extends_bind _ _ _ _ _ _ _ fun update => ?_
    cases update <;> infer_instance
  rintro (error | quota) middle writes
  · exact writes
  refine Action.ensures_bind (fun update => by cases update <;> infer_instance)
    (Action.ensures_access (writes.mono ?_))
  rintro (error | ⟨old, new, limit⟩ | ⟨usage, limit⟩) written reports
  · exact reports
  · refine Action.ensures_bind (fun _ => inferInstance) (reports.mono ?_)
    rintro (error | done) after holds
    · exact holds
    · exact Action.ensures_pure holds
  · exact Action.ensures_throw reports

/-- The creation of a scope gives it its records and counts it as a target. Where it cannot be
counted, its records are removed again. -/
theorem ensures_entityCreated_of_steps {entity : Entity} {store : σ}
    {post : Except QuotaError Unit → σ → Prop}
    (isScope : engine.registry.isScopeKind entity.kind = true)
    (ensures : Ensures fit (engine.initializeScope entity) store fun result middle =>
      match result with
      | .error error => post (.error error) middle
      | .ok _ => Ensures fit (engine.applyTargetChange entity .created) middle
          fun result later =>
            match result with
            | .ok _ => post (.ok ⟨⟩) later
            | .error error => Ensures fit (engine.childDeleted entity) later
                fun _ after => post (.error error) after) :
    Ensures fit (engine.entityCreated entity) store post := by
  unfold entityCreated
  simp only [isScope, if_true]
  refine Action.ensures_bind (fun _ => ?_) (Action.ensures_discard (ensures.mono ?_))
  · refine @Action.extends_bind _ _ _ _ _ _ _ fun outcome => ?_
    cases outcome <;> infer_instance
  rintro (error | count) middle counts
  · exact counts
  refine Action.ensures_bind (fun outcome => by cases outcome <;> infer_instance)
    (Action.ensures_attempt (counts.mono ?_))
  rintro (error | done) later removes
  · refine Action.ensures_bind (fun _ => inferInstance)
      (Action.ensures_discard (Action.ensures_attempt (removes.mono ?_)))
    exact fun _ _ holds => Action.ensures_throw holds
  · exact Action.ensures_pure removes

/-- The creation of an entity that is no scope only counts it. -/
theorem ensures_entityCreated_of_not_isScope {entity : Entity} {store : σ}
    {post : Except QuotaError Unit → σ → Prop}
    (unscoped : ¬ engine.registry.isScopeKind entity.kind = true)
    (ensures : Ensures fit (engine.applyTargetChange entity .created) store post) :
    Ensures fit (engine.entityCreated entity) store post := by
  unfold entityCreated
  simp only [unscoped]
  refine Action.ensures_bind (fun outcome => by cases outcome <;> infer_instance)
    (Action.ensures_attempt (ensures.mono ?_))
  rintro (error | done) after holds
  · exact Action.ensures_throw holds
  · exact Action.ensures_pure holds

/-- A statement about the applied changes, the latest first, is a log of some requests if a request
that succeeds adds its change to it, a request that fails for one of the causes leaves it alone, and
its latest change can be taken back. -/
structure Logs (engine : Engine) (fit : StoreCall → σ → Prop) (validate : Bool)
    (requests : List (Except QuotaError Change)) (cause : QuotaError → Prop)
    (log : List Change → σ → Prop) : Prop where
  apply {request : Change} {changes : List Change} {store : σ} : .ok request ∈ requests →
    log changes store →
    Ensures fit (engine.applyDelta request.scope request.name request.amount validate) store
      fun result after =>
        match result with
        | .ok amount => log ({ request with amount } :: changes) after
        | .error error => log changes after ∧ cause error
  takeBack {change : Change} {changes : List Change} {store : σ} : log (change :: changes) store →
    Ensures fit (engine.applyDelta change.scope change.name (-change.amount) false) store
      fun _ after => log changes after

variable {validate : Bool} {requests : List (Except QuotaError Change)} {cause : QuotaError → Prop}
  {log : List Change → σ → Prop}

/-- If taking back the latest change shortens a log, then taking back all changes empties it. -/
theorem ensures_compensate_of_takeBack (log : List Change → σ → Prop)
    (takeBack : ∀ {change : Change} {changes : List Change} {store : σ},
      log (change :: changes) store →
      Ensures fit (engine.applyDelta change.scope change.name (-change.amount) false) store
        fun _ after => log changes after)
    (changes : List Change) {store : σ} (logged : log changes store) :
    Ensures fit (engine.compensate changes) store fun result after =>
      result = .ok ⟨⟩ ∧ log [] after := by
  induction changes generalizing store with
  | nil => exact Action.ensures_pure ⟨rfl, logged⟩
  | cons change changes inductionHypothesis =>
      have takesBack : Ensures fit (engine.takeBack change) store fun result after =>
          result = .ok ⟨⟩ ∧ log changes after :=
        Action.ensures_discard (Action.ensures_attempt
          ((takeBack logged).mono fun _ _ remaining => ⟨rfl, remaining⟩))
      refine Action.ensures_bind (fun _ => inferInstance) (takesBack.mono ?_)
      rintro _ middle ⟨rfl, remaining⟩
      exact inductionHypothesis remaining

/-- Taking back changes never fails, whatever becomes of each of them. -/
theorem ensures_compensate_ok (changes : List Change) {store : σ} :
    Ensures fit (engine.compensate changes) store fun result _ => result = .ok ⟨⟩ :=
  (ensures_compensate_of_takeBack (fun _ _ => True) (fun _ _ _ => trivial) changes
    trivial).mono fun _ _ compensated => compensated.1

/-- A batch applies its first request, adds the change to those before it, and goes on. Where this
fails, all changes before it are taken back. -/
theorem ensures_applyAll_of_steps {request : Except QuotaError Change} {changes : List Change}
    {store : σ} {post : Except QuotaError Unit → σ → Prop}
    (ensures : match request with
      | .error error => Ensures fit (engine.compensate changes) store
          fun _ after => post (.error error) after
      | .ok change =>
          Ensures fit (engine.applyDelta change.scope change.name change.amount validate) store
            fun result middle =>
              match result with
              | .error error => Ensures fit (engine.compensate changes) middle
                  fun _ after => post (.error error) after
              | .ok amount =>
                  Ensures fit (engine.applyAll validate requests ({ change with amount } :: changes))
                    middle post) :
    Ensures fit (engine.applyAll validate (request :: requests) changes) store post := by
  have undone : ∀ {error : QuotaError} {middle : σ},
      (Ensures fit (engine.compensate changes) middle fun _ after => post (.error error) after) →
      Ensures fit (do
          engine.compensate changes
          throw error : Action (RecordedStore σ) Unit) middle post := by
    intro error middle holds
    refine Action.ensures_bind (fun _ => inferInstance)
      (((ensures_compensate_ok changes).and holds).mono ?_)
    rintro _ after ⟨rfl, failed⟩
    exact Action.ensures_throw failed
  unfold applyAll
  refine Action.ensures_bind (fun outcome => by cases outcome <;> infer_instance)
    (Action.ensures_attempt (Action.ensures_bind (fun _ => inferInstance)
      (Action.ensures_ofExcept ?_)))
  cases request with
  | error error => exact undone ensures
  | ok change =>
      refine Action.ensures_bind (fun _ => inferInstance) (ensures.mono ?_)
      rintro (error | amount) middle holds
      · exact undone holds
      · exact Action.ensures_pure holds

/-- Taking back all logged changes empties the log. -/
theorem ensures_compensate_logged (logs : engine.Logs fit validate requests cause log)
    (changes : List Change) {store : σ} (logged : log changes store) :
    Ensures fit (engine.compensate changes) store fun result after =>
      result = .ok ⟨⟩ ∧ log [] after :=
  ensures_compensate_of_takeBack log logs.takeBack changes logged

/-- A batch that succeeds has logged its changes, and one that fails has none left. -/
theorem ensures_applyAll_logged (logs : engine.Logs fit validate requests cause log)
    (changes : List Change) {store : σ} (logged : log changes store) :
    Ensures fit (engine.applyAll validate requests changes) store fun result after =>
      match result with
      | .ok _ => ∃ changes, log changes after
      | .error error => log [] after ∧ (.error error ∈ requests ∨ cause error) := by
  -- The rest of a batch is part of the whole, so the induction is on the rest alone.
  suffices rest : ∀ remaining, remaining ⊆ requests → ∀ changes (store : σ), log changes store →
      Ensures fit (engine.applyAll validate remaining changes) store fun result after =>
        match result with
        | .ok _ => ∃ changes, log changes after
        | .error error => log [] after ∧ (.error error ∈ requests ∨ cause error) from
    rest requests (fun _ member => member) changes store logged
  clear logged store changes
  intro remaining
  induction remaining with
  | nil => exact fun _ changes _ logged => Action.ensures_pure ⟨changes, logged⟩
  | cons request remaining inductionHypothesis =>
      intro inside changes store logged
      have undone : ∀ {error : QuotaError} {store : σ}, log changes store →
          (.error error ∈ requests ∨ cause error) →
          Ensures fit (engine.compensate changes) store fun _ after =>
            log [] after ∧ (.error error ∈ requests ∨ cause error) :=
        fun logged known => (ensures_compensate_logged logs changes logged).mono
          fun _ _ compensated => ⟨compensated.2, known⟩
      have member : request ∈ requests := inside List.mem_cons_self
      apply ensures_applyAll_of_steps
      cases request with
      | error error => exact undone logged (.inl member)
      | ok request =>
          refine (logs.apply member logged).mono ?_
          rintro (error | amount) middle applies
          · exact undone applies.1 (.inr applies.2)
          · exact inductionHypothesis (fun _ later => inside (List.mem_cons_of_mem _ later)) _ middle
              applies

end Engine

end HierarchicalQuota
