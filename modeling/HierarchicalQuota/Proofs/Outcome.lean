import HierarchicalQuota.Engine

namespace HierarchicalQuota.Action

variable {ε σ α β : Type}

/-- The outcome of a run is its value or its error. -/
def outcome (action : EStateM ε σ α) (store : σ) : Except ε α :=
  match action store with
  | .ok value _ => .ok value
  | .error error _ => .error error

/-- A run leaves a store in both cases. -/
def after (action : EStateM ε σ α) (store : σ) : σ :=
  match action store with
  | .ok _ store => store
  | .error _ store => store

/-- A run that succeeds is known by its two parts. -/
theorem eq_ok_iff {action : EStateM ε σ α} {before store : σ} {value : α} :
    action before = .ok value store ↔
      outcome action before = .ok value ∧ after action before = store := by
  unfold outcome after
  cases action before <;> simp

/-- A run that fails is known by its two parts, since it leaves a store as well. -/
theorem eq_error_iff {action : EStateM ε σ α} {before store : σ} {error : ε} :
    action before = .error error store ↔
      outcome action before = .error error ∧ after action before = store := by
  unfold outcome after
  cases action before <;> simp

/-- A sequence goes on after a value and stops at an error. -/
theorem outcome_bind (action : EStateM ε σ α) (next : α → EStateM ε σ β) (store : σ) :
    outcome (action >>= next) store =
      match outcome action store with
      | .ok value => outcome (next value) (after action store)
      | .error error => .error error := by
  change outcome (EStateM.bind action next) store = _
  unfold outcome after EStateM.bind
  cases action store <;> rfl

/-- The second of two actions runs on the store that the first leaves, unless the first fails. -/
theorem after_bind (action : EStateM ε σ α) (next : α → EStateM ε σ β) (store : σ) :
    after (action >>= next) store =
      match outcome action store with
      | .ok value => after (next value) (after action store)
      | .error _ => after action store := by
  change after (EStateM.bind action next) store = _
  unfold outcome after EStateM.bind
  cases action store <;> rfl

/-- After a step that succeeds, the rest runs on its value and on its store. -/
theorem bind_of_eq_ok {action : EStateM ε σ α} {next : α → EStateM ε σ β} {before middle : σ}
    {value : α} (run : action before = .ok value middle) :
    (action >>= next) before = next value middle := by
  change EStateM.bind action next before = _
  rw [EStateM.bind, run]

/-- A step that fails ends the run and leaves its store as it is. -/
theorem bind_of_eq_error {action : EStateM ε σ α} {next : α → EStateM ε σ β} {before middle : σ}
    {error : ε} (run : action before = .error error middle) :
    (action >>= next) before = .error error middle := by
  change EStateM.bind action next before = _
  rw [EStateM.bind, run]

/-- Dropping a value is a step of its own. -/
theorem discard_eq_bind (action : EStateM ε σ α) :
    discard action = (action >>= fun _ => pure ⟨⟩) := by
  funext store
  change EStateM.map _ action store = EStateM.bind action _ store
  unfold EStateM.map EStateM.bind
  cases action store <;> rfl

/-- An action that catches errors has none itself: the error becomes its value. -/
@[simp] theorem outcome_attempt (action : EStateM ε σ α) (store : σ) :
    outcome (attempt action) store = .ok (outcome action store) := by
  unfold outcome attempt
  cases action store <;> rfl

/-- Catching an error does not undo what was done before it. -/
@[simp] theorem after_attempt (action : EStateM ε σ α) (store : σ) :
    after (attempt action) store = after action store := by
  unfold after attempt
  cases action store <;> rfl

/-- An error of the store becomes an error of the engine. -/
@[simp] theorem outcome_access (request : StoreAccess σ α) (store : σ) :
    outcome (access request) store = (outcome request store).mapError .storage := by
  unfold outcome access EStateM.adaptExcept
  cases request store <;> rfl

/-- An access leaves what the call of the store leaves. -/
@[simp] theorem after_access (request : StoreAccess σ α) (store : σ) :
    after (access request) store = after request store := by
  unfold after access EStateM.adaptExcept
  cases request store <;> rfl

/-- A result without a store is its own outcome. -/
@[simp] theorem outcome_ofExcept (result : Except QuotaError α) (store : σ) :
    outcome (ofExcept result) store = result := by
  unfold outcome ofExcept
  cases result <;> rfl

/-- A result without a store changes no store. -/
@[simp] theorem after_ofExcept (result : Except QuotaError α) (store : σ) :
    after (ofExcept result) store = store := by
  unfold after ofExcept
  cases result <;> rfl

end HierarchicalQuota.Action
