import HierarchicalQuota.Engine.Propagation
import HierarchicalQuota.Proofs.Termination.Runs

namespace HierarchicalQuota

open HierarchicalQuota.Action (outcome after)

/-- A change of a child's quota is pending until the aggregates over the quota have been shifted.
The depth counts the changes that it follows from. -/
structure Pending where
  child : Entity
  quota : String
  measure : Measure
  delta : Amount
  depth : Nat

/-- The aggregates of a wave that moved are pending in turn, and the last one is on top. -/
def Wave.pending (wave : Wave) (depth : Nat) : List Pending :=
  wave.moved.reverse.map fun (aggregate, change) =>
    ⟨aggregate.scope, aggregate.field.name, .usage, change, depth⟩

namespace Action

variable {σ α ι κ : Type}

/-- Collecting over renamed items is collecting over the items with the name applied. -/
theorem collect_map (action : κ → Action σ (List α)) (name : ι → κ) (items : List ι) :
    collect action (items.map name) = collect (fun item => action (name item)) items := by
  induction items with
  | nil => rfl
  | cons item items inductionHypothesis =>
      rw [List.map_cons, collect, collect, inductionHypothesis]

end Action

variable {σ : Type} [QuotaStore σ]

namespace Engine

/-- The aggregates over one pending change are shifted, unless the change has come too far. -/
def pass (engine : Engine) (change : Pending) : Action σ Wave :=
  if change.delta = 0 then return {}
  else if maxHierarchyDepth ≤ change.depth then throw (.hierarchyTooDeep change.child)
  else shiftAll change.delta (engine.aggregatesOver change.child change.quota change.measure)

/-- The pending change on top is taken off, and what follows from it is put on top of the others.
Every step takes off one change, and the loop ends when none is left. -/
def drain (engine : Engine) : Nat → List Pending → List Aggregate → Run σ (List Aggregate)
  | _, [], missing => return missing
  | 0, _ :: _, _ => Run.stuck
  | steps + 1, change :: others, missing => do
      let wave ← Run.of (engine.pass change)
      engine.drain steps (wave.pending (change.depth + 1) ++ others) (missing ++ wave.missing)

end Engine

/-- A worklist that starts with one change spreads it. -/
def Bounded.spread (engine : Engine) (steps : Nat) (child : Entity) (quota : String)
    (measure : Measure) (delta : Amount) : Run σ (List Aggregate) :=
  engine.drain steps [⟨child, quota, measure, delta, 0⟩] []

namespace Engine

variable (engine : Engine)

/-- All that follows from a pending change, on as many levels as are left above its depth. -/
def follow (change : Pending) : Action σ (List Aggregate) :=
  engine.propagate (maxHierarchyDepth - change.depth) change.child change.quota change.measure
    change.delta

/-- A change is passed on, and then all that follows from it is followed in turn. -/
theorem follow_eq (change : Pending) :
    (engine.follow change : Action σ (List Aggregate)) = do
      let wave ← engine.pass change
      let missing ← Action.collect engine.follow (wave.pending (change.depth + 1))
      return wave.missing ++ missing := by
  unfold follow pass
  by_cases unchanged : change.delta = 0
  · unfold propagate
    rw [if_pos unchanged, if_pos unchanged]
    rfl
  rw [if_neg unchanged]
  by_cases tooDeep : maxHierarchyDepth ≤ change.depth
  · unfold propagate
    rw [if_pos tooDeep, if_neg unchanged, Nat.sub_eq_zero_of_le tooDeep]
    rfl
  · obtain ⟨levels, isLevels⟩ : ∃ levels, maxHierarchyDepth - change.depth = levels + 1 :=
      ⟨maxHierarchyDepth - change.depth - 1, by omega⟩
    have left : maxHierarchyDepth - (change.depth + 1) = levels := by omega
    rw [if_neg tooDeep, isLevels, propagate, if_neg unchanged]
    simp only [Wave.pending, Action.collect_map, left]

/-- Some changes on top of a worklist are cleared if they are all off after finitely many steps,
whatever lies below them, and if what was done until then is the action. -/
def Clears (changes : List Pending) (action : Action σ (List Aggregate)) : Prop :=
  ∀ (others : List Pending) (missing : List Aggregate) (store : σ), ∃ pops, ∀ steps,
    engine.drain (pops + steps) (changes ++ others) missing store =
      (Run.of action >>= fun found => engine.drain steps others (missing ++ found)) store

variable {engine}

/-- An empty worklist needs no step. -/
theorem clears_nil : engine.Clears [] (pure [] : Action σ (List Aggregate)) := by
  intro others missing store
  refine ⟨0, fun steps => ?_⟩
  rw [Run.of_pure, pure_bind, List.append_nil, Nat.zero_add, List.nil_append]

/-- The steps for a first change and those for the changes below it are added up. -/
theorem Clears.cons {change : Pending} {changes : List Pending}
    {first second : Action σ (List Aggregate)} (clearsFirst : engine.Clears [change] first)
    (clearsSecond : engine.Clears changes second) :
    engine.Clears (change :: changes) (do
      let found ← first
      let others ← second
      return found ++ others) := by
  intro others missing store
  obtain ⟨pops, cleared⟩ := clearsFirst (changes ++ others) missing store
  simp only [Run.of_bind, Run.of_pure, bind_assoc, pure_bind, ← List.append_assoc]
  cases result : outcome first store with
  | error error =>
      refine ⟨pops, fun steps => ?_⟩
      have failed := cleared steps
      rw [Run.of_bind_apply, result] at failed
      rw [Run.of_bind_apply, result]
      exact failed
  | ok found =>
      obtain ⟨more, clearedLater⟩ := clearsSecond others (missing ++ found) (after first store)
      refine ⟨pops + more, fun steps => ?_⟩
      have goesOn := cleared (more + steps)
      rw [Run.of_bind_apply, result, ← Nat.add_assoc] at goesOn
      rw [Run.of_bind_apply, result]
      exact goesOn.trans (clearedLater steps)

/-- A worklist becomes empty if each of its changes does, on its own. -/
theorem clears_all (changes : List Pending)
    (each : ∀ change ∈ changes, engine.Clears [change] (engine.follow (σ := σ) change)) :
    engine.Clears changes (Action.collect (engine.follow (σ := σ)) changes) := by
  induction changes with
  | nil => exact clears_nil
  | cons change changes inductionHypothesis =>
      obtain ⟨now, later⟩ := List.forall_mem_cons.1 each
      exact now.cons (inductionHypothesis later)

/-- One step takes off a change, and then what follows from it has to be cleared. -/
theorem clears_of_pending (change : Pending)
    (each : ∀ (store : σ) (wave : Wave), outcome (engine.pass change) store = .ok wave →
      ∀ next ∈ wave.pending (change.depth + 1),
        engine.Clears [next] (engine.follow (σ := σ) next)) :
    engine.Clears [change] (engine.follow (σ := σ) change) := by
  intro others missing store
  rw [follow_eq]
  simp only [Run.of_bind, Run.of_pure, bind_assoc, pure_bind, ← List.append_assoc]
  have step (steps : Nat) :
      engine.drain (1 + steps) ([change] ++ others) missing store =
        (Run.of (engine.pass change) >>= fun wave => engine.drain steps
          (wave.pending (change.depth + 1) ++ others) (missing ++ wave.missing)) store := by
    rw [Nat.add_comm]
    rfl
  cases result : outcome (engine.pass change) store with
  | error error =>
      refine ⟨1, fun steps => ?_⟩
      rw [step, Run.of_bind_apply, Run.of_bind_apply, result]
  | ok wave =>
      obtain ⟨pops, cleared⟩ := clears_all _ (each store wave result) others
        (missing ++ wave.missing) (after (engine.pass change) store)
      refine ⟨1 + pops, fun steps => ?_⟩
      rw [Nat.add_assoc, step, Run.of_bind_apply, Run.of_bind_apply, result]
      exact cleared steps

/-- A change at the greatest depth is not passed on. -/
theorem pending_of_tooDeep {change : Pending} (tooDeep : maxHierarchyDepth ≤ change.depth)
    {store : σ} {wave : Wave} (passed : outcome (engine.pass change) store = .ok wave)
    (depth : Nat) : wave.pending depth = [] := by
  unfold pass at passed
  rw [if_pos tooDeep] at passed
  split at passed
  · obtain rfl := Except.ok.inj passed
    rfl
  · cases passed

/-- Every pending change is cleared. The induction is on the levels that are left above its depth.
What follows from a change has one level less, so it does not matter how many changes these are. -/
theorem clears_follow (levels : Nat) (change : Pending)
    (enough : maxHierarchyDepth ≤ change.depth + levels) :
    engine.Clears [change] (engine.follow (σ := σ) change) := by
  induction levels generalizing change with
  | zero =>
      apply clears_of_pending
      intro store wave passed next member
      rw [pending_of_tooDeep enough passed] at member
      cases member
  | succ levels inductionHypothesis =>
      apply clears_of_pending
      intro store wave _ next member
      apply inductionHypothesis
      obtain ⟨entry, _, rfl⟩ := List.mem_map.1 member
      dsimp only
      omega

end Engine

/-- Every worklist becomes empty or fails after finitely many steps, in a graph with loops too, and
until then it does what the recursion over levels does. -/
theorem EndsAs.drain (engine : Engine) (changes : List Pending) (missing : List Aggregate) :
    EndsAs (fun steps => engine.drain steps changes missing) (do
      let found ← Action.collect (engine.follow (σ := σ)) changes
      return missing ++ found) := by
  intro store
  obtain ⟨pops, cleared⟩ := Engine.clears_all (σ := σ) changes (fun change _ =>
    engine.clears_follow maxHierarchyDepth change (Nat.le_add_left _ _)) [] missing store
  refine ⟨pops, fun steps more => ?_⟩
  obtain ⟨rest, rfl⟩ := Nat.exists_eq_add_of_le more
  have empty (found : List Aggregate) :
      engine.drain rest [] found = (Pure.pure found : Run σ (List Aggregate)) := by
    cases rest <;> rfl
  have ended := cleared rest
  simp only [List.append_nil, empty] at ended
  change engine.drain (pops + rest) changes missing store = Run.of _ store
  rw [ended, Run.of_bind]
  rfl

/-- A change that spreads ends, since it is a worklist with one change. -/
theorem EndsAs.spread (engine : Engine) (child : Entity) (quota : String) (measure : Measure)
    (delta : Amount) :
    EndsAs (σ := σ) (fun steps => Bounded.spread engine steps child quota measure delta)
      (engine.spread child quota measure delta) := by
  have drained := EndsAs.drain (σ := σ) engine [⟨child, quota, measure, delta, 0⟩] []
  simp only [Action.collect, pure_bind, bind_pure, List.append_nil, List.nil_append] at drained
  exact drained

end HierarchicalQuota
