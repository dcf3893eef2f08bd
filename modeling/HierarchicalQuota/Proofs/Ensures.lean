import HierarchicalQuota.Proofs.History
import HierarchicalQuota.Proofs.Store.Lawful

namespace HierarchicalQuota

variable {ε σ α β : Type}

namespace Action

/-- An action ensures a statement about its outcome and the store after it if the statement holds of
every run in which all calls are fit. -/
def Ensures (fit : StoreCall → σ → Prop) (action : EStateM ε (RecordedStore σ) α) (store : σ)
    (post : Except ε α → σ → Prop) : Prop :=
  ∀ history, RecordedStore.AllFit fit (after action ⟨store, history⟩).history →
    post (outcome action ⟨store, history⟩) (after action ⟨store, history⟩).store

variable {fit : StoreCall → σ → Prop} {store : σ}

/-- A value that is returned ensures what holds of it already. -/
theorem ensures_pure {value : α} {post : Except ε α → σ → Prop} (holds : post (.ok value) store) :
    Ensures fit (pure value) store post := fun _ _ => holds

/-- An error that is thrown ensures what holds of it already. -/
theorem ensures_throw {error : ε} {post : Except ε α → σ → Prop}
    (holds : post (.error error) store) : Ensures fit (throw error) store post :=
  fun _ _ => holds

/-- What follows from an ensured statement is ensured too. -/
theorem Ensures.mono {action : EStateM ε (RecordedStore σ) α} {post weaker : Except ε α → σ → Prop}
    (ensures : Ensures fit action store post)
    (weaken : ∀ result after, post result after → weaker result after) :
    Ensures fit action store weaker :=
  fun history allFit => weaken _ _ (ensures history allFit)

/-- Two statements that an action ensures hold together. -/
theorem Ensures.and {action : EStateM ε (RecordedStore σ) α} {first second : Except ε α → σ → Prop}
    (ensures : Ensures fit action store first) (too : Ensures fit action store second) :
    Ensures fit action store fun result after => first result after ∧ second result after :=
  fun history allFit => ⟨ensures history allFit, too history allFit⟩

/-- Any family of statements can be ensured at once. -/
theorem ensures_forall {ι : Sort _} {action : EStateM ε (RecordedStore σ) α}
    {post : ι → Except ε α → σ → Prop} (each : ∀ index, Ensures fit action store (post index)) :
    Ensures fit action store fun result after => ∀ index, post index result after :=
  fun history allFit index => each index history allFit

/-- Fewer runs are fit where more is asked of the calls. -/
theorem Ensures.restrict {stronger : StoreCall → σ → Prop} {action : EStateM ε (RecordedStore σ) α}
    {post : Except ε α → σ → Prop} (ensures : Ensures fit action store post)
    (implies : ∀ call store, stronger call store → fit call store) :
    Ensures stronger action store post :=
  fun history allFit => ensures history fun entry member => implies _ _ (allFit entry member)

/-- A sequence is judged by its second part after a value and by its first part after an error. -/
theorem ensures_bind {action : EStateM ε (RecordedStore σ) α}
    {next : α → EStateM ε (RecordedStore σ) β} {post : Except ε β → σ → Prop}
    (grows : ∀ value, Extends (next value))
    (ensures : Ensures fit action store fun result after =>
      match result with
      | .ok value => Ensures fit (next value) after post
      | .error error => post (.error error) after) :
    Ensures fit (action >>= next) store post := by
  intro history allFit
  rw [outcome_bind]
  rw [after_bind] at allFit ⊢
  have first := ensures history
  cases result : outcome action ⟨store, history⟩ with
  | ok value =>
      simp only [result] at allFit first ⊢
      -- The calls of the first part are still in the history after the second.
      exact first (allFit.mono ((grows value).grows _)) _ allFit
  | error error =>
      simp only [result] at allFit first ⊢
      exact first allFit

/-- Where the value is dropped, only the store and the errors count. -/
theorem ensures_discard {action : EStateM ε (RecordedStore σ) α} {post : Except ε PUnit → σ → Prop}
    (ensures : Ensures fit action store fun result after =>
      match result with
      | .ok _ => post (.ok ⟨⟩) after
      | .error error => post (.error error) after) :
    Ensures fit (discard action) store post := by
  rw [discard_eq_bind]
  refine ensures_bind (fun _ => inferInstance) (ensures.mono fun result after holds => ?_)
  cases result with
  | ok value => exact ensures_pure holds
  | error error => exact holds

/-- An error that is caught is a value for all that comes after it. -/
theorem ensures_attempt {action : EStateM ε (RecordedStore σ) α}
    {post : Except QuotaError (Except ε α) → σ → Prop}
    (ensures : Ensures fit action store fun result after => post (.ok result) after) :
    Ensures fit (attempt action) store post := by
  intro history allFit
  rw [after_attempt] at allFit ⊢
  rw [outcome_attempt]
  exact ensures history allFit

/-- An access ensures what its call does, with errors of the store as errors of the engine. -/
theorem ensures_access {request : StoreAccess (RecordedStore σ) α}
    {post : Except QuotaError α → σ → Prop}
    (ensures : Ensures fit request store fun result after =>
      post (result.mapError .storage) after) :
    Ensures fit (access request) store post := by
  intro history allFit
  rw [after_access] at allFit ⊢
  rw [outcome_access]
  exact ensures history allFit

/-- A result without a store ensures what holds of it on the same store. -/
theorem ensures_ofExcept {result : Except QuotaError α} {post : Except QuotaError α → σ → Prop}
    (holds : post result store) :
    Ensures fit (ofExcept result : Action (RecordedStore σ) α) store post := by
  intro history allFit
  rw [outcome_ofExcept, after_ofExcept]
  exact holds

/-- A call that succeeds may be assumed fit, because the history holds it. -/
theorem ensures_noted_ok {call : StoreCall} {access : StoreAccess σ α} {value : α} {kept : σ}
    {post : Except StorageError α → σ → Prop} (run : access store = .ok value kept)
    (holds : fit call store → post (.ok value) kept) :
    Ensures fit (RecordedStore.noted call access) store post := by
  intro history allFit
  rw [RecordedStore.history_after_noted] at allFit
  rw [RecordedStore.outcome_noted, RecordedStore.store_after_noted, (eq_ok_iff.1 run).1,
    (eq_ok_iff.1 run).2]
  exact holds (allFit _ List.mem_cons_self)

/-- A call that fails may be assumed fit too. -/
theorem ensures_noted_error {call : StoreCall} {access : StoreAccess σ α} {error : StorageError}
    {kept : σ} {post : Except StorageError α → σ → Prop} (run : access store = .error error kept)
    (holds : fit call store → post (.error error) kept) :
    Ensures fit (RecordedStore.noted call access) store post := by
  intro history allFit
  rw [RecordedStore.history_after_noted] at allFit
  rw [RecordedStore.outcome_noted, RecordedStore.store_after_noted, (eq_error_iff.1 run).1,
    (eq_error_iff.1 run).2]
  exact holds (allFit _ List.mem_cons_self)

/-- An outcome is a good value, or an error under a known condition. -/
def Yields (good : α → Prop) (fails : Prop) : Except ε α → Prop
  | .ok value => good value
  | .error _ => fails

/-- What every item keeps, a loop over items keeps, and it fails only where an item can fail. -/
theorem ensures_forM_yields {ι : Type} {action : ι → Action (RecordedStore σ) PUnit}
    {items : List ι} {kept : σ → Prop} {fails : Prop} [∀ item, Extends (action item)]
    (each : ∀ item ∈ items, ∀ store, kept store →
      Ensures fit (action item) store fun result after =>
        kept after ∧ Yields (fun _ => True) fails result)
    (start : kept store) :
    Ensures fit (items.forM action) store fun result after =>
      kept after ∧ Yields (fun _ => True) fails result := by
  induction items generalizing store with
  | nil => exact ensures_pure ⟨start, trivial⟩
  | cons item items inductionHypothesis =>
      refine ensures_bind (fun _ => inferInstance)
        ((each item List.mem_cons_self store start).mono ?_)
      rintro (error | done) middle ⟨keeps, yields⟩
      · exact ⟨keeps, yields⟩
      · exact inductionHypothesis
          (fun other member => each other (List.mem_cons_of_mem _ member)) keeps

/-- A statement about stores that each round of a loop keeps is kept by the loop. -/
theorem ensures_forM {ι : Type} {action : ι → Action (RecordedStore σ) PUnit} {items : List ι}
    {kept : σ → Prop} [∀ item, Extends (action item)]
    (each : ∀ item ∈ items, ∀ store, kept store →
      Ensures fit (action item) store fun result after => result = .ok ⟨⟩ ∧ kept after)
    (start : kept store) :
    Ensures fit (items.forM action) store fun result after => result = .ok ⟨⟩ ∧ kept after := by
  have succeeds : Ensures fit (items.forM action) store fun result after =>
      kept after ∧ Yields (fun _ => True) False result :=
    ensures_forM_yields (fun item member store keeps => (each item member store keeps).mono (by
      rintro _ after ⟨rfl, keepsAfter⟩
      exact ⟨keepsAfter, trivial⟩)) start
  refine succeeds.mono ?_
  rintro (error | done) after ⟨keeps, yields⟩
  · exact yields.elim
  · exact ⟨rfl, keeps⟩

/-- What every item keeps, a collection keeps, and it lists only what the items list. -/
theorem ensures_collect_yields {ι : Type} {action : ι → Action (RecordedStore σ) (List α)}
    {items : List ι} {kept : σ → Prop} {listed : α → Prop} {fails : Prop}
    [∀ item, Extends (action item)]
    (each : ∀ item ∈ items, ∀ store, kept store →
      Ensures fit (action item) store fun result after =>
        kept after ∧ Yields (fun values => ∀ value ∈ values, listed value) fails result)
    (start : kept store) :
    Ensures fit (collect action items) store fun result after =>
      kept after ∧ Yields (fun values => ∀ value ∈ values, listed value) fails result := by
  induction items generalizing store with
  | nil => exact ensures_pure ⟨start, fun _ member => by cases member⟩
  | cons item items inductionHypothesis =>
      refine ensures_bind (fun _ => inferInstance)
        ((each item List.mem_cons_self store start).mono ?_)
      rintro (error | first) middle ⟨keeps, firstListed⟩
      · exact ⟨keeps, firstListed⟩
      refine ensures_bind (fun _ => inferInstance) ((inductionHypothesis
        (fun other member => each other (List.mem_cons_of_mem _ member)) keeps).mono ?_)
      rintro (error | others) after ⟨keepsAfter, othersListed⟩
      · exact ⟨keepsAfter, othersListed⟩
      · exact ensures_pure ⟨keepsAfter, fun value member =>
          (List.mem_append.1 member).elim (firstListed value) (othersListed value)⟩

/-- A recorded run has the outcome of the plain run. -/
theorem ensures_outcome {recorded : EStateM ε (RecordedStore σ) α} {plain : EStateM ε σ α}
    (alike : Lockstep (fun state store => state.store = store) recorded plain) :
    Ensures fit recorded store fun result _ => result = outcome plain store :=
  fun history _ => (alike ⟨store, history⟩ store rfl).1

/-- What the recorded run ensures holds of the plain run. -/
theorem Ensures.of_allFit {recorded : EStateM ε (RecordedStore σ) α} {plain : EStateM ε σ α}
    {post : Except ε α → σ → Prop} (ensures : Ensures fit recorded store post)
    (alike : Lockstep (fun state store => state.store = store) recorded plain)
    (allFit : RecordedStore.AllFit fit (history recorded store)) :
    post (outcome plain store) (after plain store) := by
  have holds := ensures [] allFit
  obtain ⟨sameOutcome, sameStore⟩ := alike ⟨store, []⟩ store rfl
  rwa [sameOutcome, sameStore] at holds

section Lawful

open LawfulStore (lookup put drop list)

variable [QuotaStore σ] [LawfulStore σ] {scope : Entity} {name : String}

/-- A read finds what is stored and changes nothing. -/
theorem ensures_get {post : Except StorageError (Option Quota) → σ → Prop}
    (holds : post (.ok (lookup store scope name)) store) :
    Ensures fit (QuotaStore.get scope name) store post :=
  ensures_noted_ok (LawfulStore.get_eq store scope name) fun _ => holds

/-- A record is created only where none is stored, and it is returned as it is stored. -/
theorem ensures_getOrCreate {initial : Quota} {post : Except StorageError (Quota × Bool) → σ → Prop}
    (stored : ∀ quota, lookup store scope name = some quota → post (.ok (quota, false)) store)
    (absent : lookup store scope name = none → fit (.getOrCreate scope name initial) store →
      post (.ok (initial, true)) (put store scope name initial)) :
    Ensures fit (QuotaStore.getOrCreate scope name initial) store post := by
  have run := LawfulStore.getOrCreate_eq store scope name initial
  cases found : lookup store scope name with
  | some quota =>
      rw [found] at run
      exact ensures_noted_ok run fun _ => stored quota found
  | none =>
      rw [found] at run
      exact ensures_noted_ok run (absent found)

/-- A limit is written over the stored one, which is returned. Without a record one is made with
usage zero. -/
theorem ensures_setLimit {limit : Amount} {post : Except StorageError (Option Amount) → σ → Prop}
    (stored : ∀ quota, lookup store scope name = some quota → fit (.setLimit scope name limit) store →
      post (.ok (some quota.limit)) (put store scope name { quota with limit }))
    (absent : lookup store scope name = none →
      post (.ok none) (put store scope name ⟨limit, 0⟩)) :
    Ensures fit (QuotaStore.setLimit scope name limit) store post := by
  have run := LawfulStore.setLimit_eq store scope name limit
  cases found : lookup store scope name with
  | some quota =>
      rw [found] at run
      exact ensures_noted_ok run (stored quota found)
  | none =>
      rw [found] at run
      exact ensures_noted_ok run fun _ => absent found

/-- A usage is written over the stored one, which is returned. Without a record one is made that has
no limit. -/
theorem ensures_setUsage {usage : Amount} {post : Except StorageError (Option Amount) → σ → Prop}
    (stored : ∀ quota, lookup store scope name = some quota → fit (.setUsage scope name usage) store →
      post (.ok (some quota.usage)) (put store scope name { quota with usage }))
    (absent : lookup store scope name = none →
      post (.ok none) (put store scope name ⟨.unlimited, usage⟩)) :
    Ensures fit (QuotaStore.setUsage scope name usage) store post := by
  have run := LawfulStore.setUsage_eq store scope name usage
  cases found : lookup store scope name with
  | some quota =>
      rw [found] at run
      exact ensures_noted_ok run (stored quota found)
  | none =>
      rw [found] at run
      exact ensures_noted_ok run fun _ => absent found

/-- A stored record decides on its own whether an increase is applied. -/
theorem ensures_addUsage_stored {delta : Amount} {validate : Bool} {quota : Quota}
    {post : Except StorageError UsageUpdate → σ → Prop} (found : lookup store scope name = some quota)
    (holds : fit (.addUsage scope name delta validate) store →
      post (.ok (quota.addUsage delta validate))
        (put store scope name (quota.update (quota.addUsage delta validate)))) :
    Ensures fit (QuotaStore.addUsage scope name delta validate) store post := by
  have run := LawfulStore.addUsage_eq store scope name delta validate
  rw [found] at run
  exact ensures_noted_ok run holds

theorem ensures_addUsage {delta : Amount} {validate : Bool}
    {post : Except StorageError UsageUpdate → σ → Prop}
    (applied : ∀ quota, lookup store scope name = some quota →
      fit (.addUsage scope name delta validate) store →
      ¬ (validate = true ∧ 0 < delta ∧ quota.limit ≠ .unlimited ∧
        quota.limit < max (quota.usage + delta) 0) →
      post (.ok (.applied quota.usage (max (quota.usage + delta) 0) quota.limit))
        (put store scope name { quota with usage := max (quota.usage + delta) 0 }))
    (rejected : ∀ quota, lookup store scope name = some quota → validate = true → 0 < delta →
      post (.ok (.rejected quota.usage quota.limit)) store)
    (absent : lookup store scope name = none → post (.error (.notFound scope name)) store) :
    Ensures fit (QuotaStore.addUsage scope name delta validate) store post := by
  have run := LawfulStore.addUsage_eq store scope name delta validate
  cases found : lookup store scope name with
  | some quota =>
      refine ensures_addUsage_stored found fun fits => ?_
      unfold Quota.addUsage
      dsimp only
      split
      · rename_i refused
        dsimp only [Quota.update]
        rw [LawfulStore.put_of_lookup found]
        exact rejected quota found refused.1 refused.2.1
      · rename_i accepted
        exact applied quota found fits accepted
  | none =>
      rw [found] at run
      exact ensures_noted_error run fun _ => absent found

/-- A shift has no check and no floor, and it finds no record to shift where none is stored. -/
theorem ensures_shiftUsage {delta : Amount} {post : Except StorageError UsageUpdate → σ → Prop}
    (stored : ∀ quota, lookup store scope name = some quota →
      fit (.shiftUsage scope name delta) store →
      post (.ok (quota.shiftUsage delta))
        (put store scope name { quota with usage := quota.usage + delta }))
    (absent : lookup store scope name = none → post (.error (.notFound scope name)) store) :
    Ensures fit (QuotaStore.shiftUsage scope name delta) store post := by
  have run := LawfulStore.shiftUsage_eq store scope name delta
  cases found : lookup store scope name with
  | some quota =>
      rw [found] at run
      exact ensures_noted_ok run (stored quota found)
  | none =>
      rw [found] at run
      exact ensures_noted_error run fun _ => absent found

/-- All records of a scope are removed at once, and they are returned. -/
theorem ensures_deleteScope {post : Except StorageError (List Record) → σ → Prop}
    (holds : fit (.deleteScope scope) store → post (.ok (list store scope)) (drop store scope)) :
    Ensures fit (QuotaStore.deleteScope scope) store post :=
  ensures_noted_ok (LawfulStore.deleteScope_eq store scope) holds

end Lawful

end Action

end HierarchicalQuota
