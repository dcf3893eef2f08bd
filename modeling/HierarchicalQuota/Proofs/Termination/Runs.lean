import HierarchicalQuota.Proofs.Outcome

namespace HierarchicalQuota

open HierarchicalQuota.Action (outcome after)

/-- A run yields a value or an error together with a store, or nothing if its steps are used up. -/
abbrev Run (σ : Type) := ExceptT QuotaError (StateT σ Option)

variable {σ α β ι : Type}

namespace Run

/-- An action without loops needs no steps. -/
def of (action : Action σ α) : Run σ α := fun store =>
  some (outcome action store, after action store)

/-- The steps are used up. -/
def stuck : Run σ α := fun _ => none

/-- A failure is an outcome of an attempt, but a run that is stuck does not get that far. -/
def attempt (run : Run σ α) : Run σ (Except QuotaError α) := fun store =>
  (run store).map fun answer => (.ok answer.1, answer.2)

/-- The runs for all items follow each other, and the lists that they yield are appended. -/
def collect (run : ι → Run σ (List α)) : List ι → Run σ (List α)
  | [] => return []
  | item :: items => do
      let first ← run item
      let others ← collect run items
      return first ++ others

/-- A sequence goes on after a value. -/
theorem bind_apply (first : Run σ α) (next : α → Run σ β) (store : σ) :
    (first >>= next) store =
      match first store with
      | none => none
      | some (.ok value, middle) => next value middle
      | some (.error error, middle) => some (.error error, middle) := by
  change (ExceptT.bind first next : Run σ β) store = _
  change (first store).bind _ = _
  cases first store with
  | none => rfl
  | some answer =>
      obtain ⟨result, middle⟩ := answer
      cases result <;> rfl

/-- What an action does is passed on to what follows it. -/
theorem of_bind_apply (action : Action σ α) (next : α → Run σ β) (store : σ) :
    (of action >>= next) store =
      match outcome action store with
      | .ok value => next value (after action store)
      | .error error => some (.error error, after action store) := by
  rw [bind_apply, of]
  cases outcome action store <;> rfl

/-- A sequence of actions needs no steps either. -/
theorem of_bind (action : Action σ α) (next : α → Action σ β) :
    of (action >>= next) = of action >>= fun value => of (next value) := by
  funext store
  rw [of_bind_apply, of, Action.outcome_bind, Action.after_bind]
  cases outcome action store <;> rfl

theorem of_ofExcept_bind (result : Except QuotaError α) (next : α → Except QuotaError β) :
    (of (Action.ofExcept (result >>= next)) : Run σ β) =
      of (Action.ofExcept result) >>= fun value => of (Action.ofExcept (next value)) := by
  cases result <;> rfl

/-- A loop whose passes do not need the store does not need it either. -/
theorem of_ofExcept_foldlM (body : β → ι → Except QuotaError β) (items : List ι) (start : β) :
    (of (Action.ofExcept (items.foldlM body start)) : Run σ β) =
      items.foldlM (fun state item => of (Action.ofExcept (body state item))) start := by
  induction items generalizing start with
  | nil => rfl
  | cons item items inductionHypothesis =>
      rw [List.foldlM_cons, List.foldlM_cons, of_ofExcept_bind]
      simp only [inductionHypothesis]

/-- A value that is returned is the run of an action. -/
theorem of_pure (value : α) : (of (pure value) : Run σ α) = pure value := rfl

end Run

/-- A computation ends at a store as an action does if every run with enough steps does what the
action does. -/
def EndsAt (computation : Nat → Run σ α) (action : Action σ α) (store : σ) : Prop :=
  ∃ bound, ∀ steps, bound ≤ steps →
    computation steps store = some (outcome action store, after action store)

/-- A computation ends as an action does if it does so at every store. -/
def EndsAs (computation : Nat → Run σ α) (action : Action σ α) : Prop :=
  ∀ store, EndsAt computation action store

namespace EndsAt

variable {computation : Nat → Run σ α} {action : Action σ α} {store : σ}

/-- An action without loops ends as itself. -/
theorem of (action : Action σ α) (store : σ) : EndsAt (fun _ => Run.of action) action store :=
  ⟨0, fun _ _ => rfl⟩

/-- It is enough to look at runs of more steps than some bound. -/
theorem congr {other : Nat → Run σ α} (ends : EndsAt other action store) (bound : Nat)
    (same : ∀ steps, bound ≤ steps → computation steps = other steps) :
    EndsAt computation action store := by
  obtain ⟨enough, ended⟩ := ends
  refine ⟨max bound enough, fun steps more => ?_⟩
  rw [same steps (by omega), ended steps (by omega)]

/-- A computation ends in one way only. -/
theorem unique {other : Action σ α} (ends : EndsAt computation action store)
    (alsoEnds : EndsAt computation other store) :
    outcome action store = outcome other store ∧ after action store = after other store := by
  obtain ⟨bound, ended⟩ := ends
  obtain ⟨limit, alsoEnded⟩ := alsoEnds
  have same := (ended (max bound limit) (by omega)).symm.trans (alsoEnded _ (by omega))
  rw [Option.some.injEq, Prod.mk.injEq] at same
  exact same

/-- An end depends only on the outcome and on the store, not on how the action is written. -/
theorem of_same {other : Action σ α} (ends : EndsAt computation action store)
    (sameOutcome : outcome action store = outcome other store)
    (sameStore : after action store = after other store) : EndsAt computation other store := by
  rwa [EndsAt, ← sameOutcome, ← sameStore]

/-- What follows has to end only after a value, and only at the store that this value comes with. -/
theorem bind {next : Nat → α → Run σ β} {following : α → Action σ β}
    (ends : EndsAt computation action store)
    (goesOn : ∀ value, outcome action store = .ok value →
      EndsAt (fun steps => next steps value) (following value) (after action store)) :
    EndsAt (fun steps => computation steps >>= next steps) (action >>= following) store := by
  obtain ⟨bound, ended⟩ := ends
  cases result : outcome action store with
  | error error =>
      refine ⟨bound, fun steps more => ?_⟩
      change (computation steps >>= next steps) store = _
      rw [Run.bind_apply, ended steps more, Action.outcome_bind, Action.after_bind, result]
  | ok value =>
      obtain ⟨limit, endedLater⟩ := goesOn value result
      refine ⟨max bound limit, fun steps more => ?_⟩
      change (computation steps >>= next steps) store = _
      rw [Run.bind_apply, ended steps (by omega), Action.outcome_bind, Action.after_bind, result]
      exact endedLater steps (by omega)

/-- Dropping the value of a computation does not keep it from its end. -/
theorem discard (ends : EndsAt computation action store) :
    EndsAt (fun steps => Functor.discard (computation steps)) (Functor.discard action) store := by
  rw [Action.discard_eq_bind]
  have followed := ends.bind fun _ _ => of (pure PUnit.unit) _
  apply followed.congr 0
  intro steps _
  rw [Run.of_pure, bind_pure_comp]
  rfl

/-- A computation that ends with an error has ended, and the error is the value of the attempt. -/
theorem attempt (ends : EndsAt computation action store) :
    EndsAt (fun steps => Run.attempt (computation steps)) (Action.attempt action) store := by
  obtain ⟨bound, ended⟩ := ends
  refine ⟨bound, fun steps more => ?_⟩
  rw [Action.outcome_attempt, Action.after_attempt]
  exact congrArg (Option.map _) (ended steps more)

/-- A loop over a list ends if what the body of the loop needs holds at first, and after every pass.
-/
theorem forM {run : Nat → ι → Run σ PUnit} {body : ι → Action σ PUnit} (holds : σ → Prop)
    (items : List ι)
    (each : ∀ item ∈ items, ∀ store, holds store →
      EndsAt (fun steps => run steps item) (body item) store ∧ holds (after (body item) store))
    (holdsFirst : holds store) :
    EndsAt (fun steps => items.forM (run steps)) (items.forM body) store := by
  induction items generalizing store with
  | nil => exact of (pure PUnit.unit) store
  | cons item items inductionHypothesis =>
      obtain ⟨now, later⟩ := List.forall_mem_cons.1 each
      obtain ⟨ends, holdsNext⟩ := now store holdsFirst
      exact ends.bind fun _ _ => inductionHypothesis later holdsNext

end EndsAt

namespace EndsAs

variable {computation : Nat → Run σ α} {action : Action σ α}

/-- An action without loops ends as itself at every store. -/
theorem of (action : Action σ α) : EndsAs (fun _ => Run.of action) action := EndsAt.of action

/-- A value ends a computation at once. -/
theorem pure (value : α) : EndsAs (fun _ => (Pure.pure value : Run σ α)) (Pure.pure value) :=
  of (Pure.pure value)

/-- An error ends a computation at once. -/
theorem throw (error : QuotaError) :
    EndsAs (fun _ => (MonadExcept.throw error : Run σ α)) (MonadExcept.throw error) :=
  of (MonadExcept.throw error)

/-- A sequence ends at every store if its parts do. -/
theorem bind {next : Nat → α → Run σ β} {following : α → Action σ β}
    (ends : EndsAs computation action)
    (goesOn : ∀ value, EndsAs (fun steps => next steps value) (following value)) :
    EndsAs (fun steps => computation steps >>= next steps) (action >>= following) :=
  fun store => (ends store).bind fun value _ => goesOn value _

theorem discard (ends : EndsAs computation action) :
    EndsAs (fun steps => Functor.discard (computation steps)) (Functor.discard action) :=
  fun store => (ends store).discard

theorem attempt (ends : EndsAs computation action) :
    EndsAs (fun steps => Run.attempt (computation steps)) (Action.attempt action) :=
  fun store => (ends store).attempt

/-- A loop over a list ends if each of its rounds does. -/
theorem forM {run : Nat → ι → Run σ PUnit} {body : ι → Action σ PUnit}
    (each : ∀ item, EndsAs (fun steps => run steps item) (body item)) (items : List ι) :
    EndsAs (fun steps => items.forM (run steps)) (items.forM body) :=
  fun _ => EndsAt.forM (fun _ => True) items
    (fun item _ store _ => ⟨each item store, trivial⟩) trivial

/-- A list is collected in the end if each of its items is. -/
theorem collect {run : Nat → ι → Run σ (List β)} {body : ι → Action σ (List β)}
    (each : ∀ item, EndsAs (fun steps => run steps item) (body item)) (items : List ι) :
    EndsAs (fun steps => Run.collect (run steps) items) (Action.collect body items) := by
  induction items with
  | nil => exact pure []
  | cons item items inductionHypothesis =>
      exact (each item).bind fun _ => inductionHypothesis.bind fun _ => pure _

end EndsAs

end HierarchicalQuota
