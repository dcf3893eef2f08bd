import HierarchicalQuota.Proofs.Exactness
import HierarchicalQuota.Proofs.Hierarchy
import Mathlib.Algebra.BigOperators.Ring.List
import Mathlib.Tactic.Linarith
import Mathlib.Tactic.Ring

namespace HierarchicalQuota

open HierarchicalQuota.Action (Ensures)
open LawfulStore (lookup put)

variable {σ : Type} [QuotaStore σ] [LawfulStore σ]

/-- This flag tells whether a record is stored. -/
def stored (store : σ) (scope : Entity) (name : String) : Bool := (lookup store scope name).isSome

/-- A store has moved to another by some amounts if both hold the same records and limits, and every
usage has changed by its amount. -/
def Moved (before after : σ) (amount : Entity → String → Int) : Prop :=
  ∀ scope name, (lookup after scope name).map (fun quota => (quota.limit, quota.usage.value)) =
    (lookup before scope name).map fun quota =>
      (quota.limit, quota.usage.value + amount scope name)

namespace Moved

variable {before middle after : σ} {first second amount : Entity → String → Int}

/-- A store has moved by nothing from itself. -/
theorem refl (store : σ) : Moved store store fun _ _ => 0 := by
  intro scope name
  simp only [add_zero]

/-- Stores move by the sum of what they move by in two parts. -/
theorem trans (start : Moved before middle first) (rest : Moved middle after second) :
    Moved before after fun scope name => first scope name + second scope name := by
  intro scope name
  have start := start scope name
  rw [rest scope name]
  cases found : lookup middle scope name with
  | none =>
      rw [found] at start
      cases earlier : lookup before scope name with
      | none => rfl
      | some quota => simp [earlier] at start
  | some quota =>
      rw [found] at start
      cases earlier : lookup before scope name with
      | none => simp [earlier] at start
      | some origin =>
          rw [earlier] at start
          simp only [Option.map_some, Option.some.injEq, Prod.mk.injEq] at start ⊢
          exact ⟨start.1, by rw [start.2, add_assoc]⟩

/-- Only the amounts at stored records matter. -/
theorem congr (moved : Moved before after first)
    (same : ∀ scope name, stored before scope name → first scope name = second scope name) :
    Moved before after second := by
  intro scope name
  rw [moved scope name]
  cases found : lookup before scope name with
  | none => rfl
  | some quota =>
      simp only [Option.map_some]
      rw [same scope name (by rw [stored, found]; rfl)]

/-- Stores that only move neither gain nor lose a record. -/
theorem stored_eq (moved : Moved before after amount) : stored after = stored before := by
  funext scope name
  have same := congrArg Option.isSome (moved scope name)
  simpa only [stored, Option.isSome_map] using same

/-- A record that was missing is still missing after a move. -/
theorem lookup_none (moved : Moved before after amount) {scope : Entity} {name : String}
    (absent : lookup before scope name = none) : lookup after scope name = none := by
  have same := moved scope name
  rw [absent] at same
  exact Option.map_eq_none_iff.1 same

/-- A record that moves keeps its limit, and its usage becomes the sum. -/
theorem lookup_some (moved : Moved before after amount) {scope : Entity} {name : String}
    {quota : Quota} (found : lookup before scope name = some quota) :
    ∃ later, lookup after scope name = some later ∧ later.limit = quota.limit ∧
      later.usage.value = quota.usage.value + amount scope name := by
  have same := moved scope name
  rw [found, Option.map_some] at same
  obtain ⟨later, laterFound, equal⟩ := Option.map_eq_some_iff.1 same
  exact ⟨later, laterFound, congrArg Prod.fst equal, congrArg Prod.snd equal⟩

/-- Every record after a move was there before it. -/
theorem lookup_before (moved : Moved before after amount) {scope : Entity} {name : String}
    {later : Quota} (laterFound : lookup after scope name = some later) :
    ∃ quota, lookup before scope name = some quota ∧
      later.usage.value = quota.usage.value + amount scope name := by
  cases found : lookup before scope name with
  | none =>
      rw [moved.lookup_none found] at laterFound
      cases laterFound
  | some quota =>
      obtain ⟨same, sameFound, -, usage⟩ := moved.lookup_some found
      obtain rfl := Option.some.inj (laterFound.symm.trans sameFound)
      exact ⟨quota, rfl, usage⟩

/-- A record that moves by nothing stays the same. -/
theorem lookup_eq (moved : Moved before after amount) {scope : Entity} {name : String}
    (still : amount scope name = 0) : lookup after scope name = lookup before scope name := by
  cases found : lookup before scope name with
  | none => exact moved.lookup_none found
  | some quota =>
      obtain ⟨later, laterFound, limit, usage⟩ := moved.lookup_some found
      rw [still, add_zero] at usage
      rw [laterFound, Quota.ext limit (Amount.ext usage)]

/-- Writing a usage moves one record. -/
theorem of_put {store : σ} {scope : Entity} {name : String} {quota : Quota}
    (found : lookup store scope name = some quota) (usage : Amount) :
    Moved store (put store scope name { quota with usage }) fun other label =>
      if scope = other ∧ name = label then usage.value - quota.usage.value else 0 := by
  intro other label
  rw [LawfulStore.lookup_put]
  by_cases same : scope = other ∧ name = label
  · rw [← same.1, ← same.2, found]
    simp
  · simp [same]

end Moved

/-- An aggregate stands once at its own scope and name and nowhere else. -/
def Aggregate.count (aggregate : Aggregate) (scope : Entity) (name : String) : Nat :=
  if aggregate.scope = scope ∧ aggregate.field.name = name then 1 else 0

/-- A fitting shift is exact. -/
def ShiftsExactly (fit : StoreCall → σ → Prop) : Prop :=
  ∀ store scope name delta quota, fit (.shiftUsage scope name delta) store →
    lookup store scope name = some quota → quota.usage.AddsExactly delta

/-- What is between two amounts is an amount, so a part of a change fits where the whole does. -/
theorem Amount.exists_of_part {start final : Amount} {delta : Int} {part whole : Nat}
    (reaches : final.value = start.value + delta * whole) (within : part ≤ whole) :
    ∃ middle : Amount, middle.value = start.value + delta * part := by
  have startRange := And.intro start.lower start.upper
  have finalRange := And.intro final.lower final.upper
  have within : (part : Int) ≤ whole := Int.ofNat_le.2 within
  rcases Int.le_total 0 delta with rises | falls
  · have lower := mul_nonneg rises (Int.natCast_nonneg part)
    have upper := mul_le_mul_of_nonneg_left within rises
    exact ⟨⟨_, by omega, by omega⟩, rfl⟩
  · have upper := mul_nonpos_of_nonpos_of_nonneg falls (Int.natCast_nonneg part)
    have lower := mul_le_mul_of_nonpos_left within falls
    exact ⟨⟨_, by omega, by omega⟩, rfl⟩

/-- A store has room for a change if every usage stays in range when the change is made as often as
it comes up there. -/
def HasRoom (store : σ) (delta : Amount) (times : Entity → String → Nat) : Prop :=
  ∀ scope name quota, lookup store scope name = some quota →
    ∃ final : Amount, final.value = quota.usage.value + delta.value * times scope name

/-- A change is shiftable if fitting shifts are exact, or if there is room for it. -/
def Shiftable (fit : StoreCall → σ → Prop) (store : σ) (delta : Amount)
    (times : Entity → String → Nat) : Prop :=
  ShiftsExactly fit ∨ HasRoom store delta times

namespace Shiftable

variable {fit : StoreCall → σ → Prop} {before after store : σ} {delta : Amount}
  {first rest times : Entity → String → Nat}

/-- What has been made of a change took no more than its part of the room, and it went in the same
direction as the rest. -/
theorem of_moved (shiftable : Shiftable fit before delta times)
    (moved : Moved before after fun scope name => delta.value * first scope name)
    (within : ∀ scope name, first scope name + rest scope name ≤ times scope name) :
    Shiftable fit after delta rest := by
  refine shiftable.imp id fun room scope name later laterFound => ?_
  obtain ⟨quota, found, usage⟩ := moved.lookup_before laterFound
  obtain ⟨final, reaches⟩ := room scope name quota found
  rw [usage, add_assoc, ← mul_add, ← Nat.cast_add]
  exact Amount.exists_of_part reaches (within scope name)

/-- A change that is made less often needs less room. -/
theorem mono (shiftable : Shiftable fit store delta times)
    (within : ∀ scope name, rest scope name ≤ times scope name) :
    Shiftable fit store delta rest := by
  refine shiftable.imp id fun room scope name quota found => ?_
  obtain ⟨final, reaches⟩ := room scope name quota found
  exact Amount.exists_of_part reaches (within scope name)

/-- A change that comes up at a record can be added to it. -/
theorem addsExactly (shiftable : Shiftable fit store delta times) {scope : Entity} {name : String}
    {quota : Quota} (fits : fit (.shiftUsage scope name delta) store)
    (found : lookup store scope name = some quota) (once : 1 ≤ times scope name) :
    quota.usage.AddsExactly delta := by
  rcases shiftable with exact | room
  · exact exact store scope name delta quota fits found
  · obtain ⟨final, reaches⟩ := room scope name quota found
    obtain ⟨sum, isSum⟩ := Amount.exists_of_part reaches once
    have lower := sum.lower
    have upper := sum.upper
    rw [Amount.AddsExactly, Amount.value_add]
    omega

end Shiftable

namespace Engine

/-- This number counts the chains of at most some levels that lead from a child's measure to the
aggregate of a name. Every step of a chain goes to a stored aggregate over the one before. -/
def chains (engine : Engine) (stored : Entity → String → Bool) :
    Nat → Entity → String → Measure → Entity → String → Nat
  | 0, _, _, _, _, _ => 0
  | levels + 1, child, quota, measure, scope, name =>
      (((engine.aggregatesOver child quota measure).filter fun aggregate =>
        stored aggregate.scope aggregate.field.name).map fun aggregate =>
          aggregate.count scope name +
            engine.chains stored levels aggregate.scope aggregate.field.name .usage scope name).sum

variable {fit : StoreCall → σ → Prop}

/-- Shifting a list of aggregates moves the stored ones. -/
theorem ensures_shiftAll (delta : Amount) (aggregates : List Aggregate) (store : σ)
    (shiftable : Shiftable fit store delta fun scope name => ((aggregates.filter fun aggregate =>
      stored store aggregate.scope aggregate.field.name).map (·.count scope name)).sum) :
    Ensures fit (shiftAll delta aggregates) store fun result after => ∃ wave,
      result = .ok wave ∧
      wave.moved = (aggregates.filter fun aggregate =>
        stored store aggregate.scope aggregate.field.name).map (·, delta) ∧
      (wave.missing = aggregates.filter fun aggregate =>
        !stored store aggregate.scope aggregate.field.name) ∧
      Moved store after fun scope name => delta.value * ((aggregates.filter fun aggregate =>
        stored store aggregate.scope aggregate.field.name).map (·.count scope name)).sum := by
  induction aggregates generalizing store with
  | nil =>
      refine Action.ensures_pure ⟨_, rfl, rfl, rfl, ?_⟩
      simpa using Moved.refl store
  | cons aggregate rest inductionHypothesis =>
      unfold shiftAll
      refine Action.ensures_bind (fun result => ?_) (Action.ensures_attempt
        (Action.ensures_shiftUsage (fun quota found fits => ?_) fun absent => ?_))
      · rcases result with (_ | _ | _ | _) | (_ | _) <;> infer_instance
      · have present : stored store aggregate.scope aggregate.field.name = true := by
          rw [stored, found]
          rfl
        rw [List.filter_cons_of_pos (by simpa using present)] at shiftable
        simp only [List.map_cons, List.sum_cons] at shiftable
        -- Whether the call is fit or there is room for the shift, the sum is exact.
        have sum : quota.usage.AddsExactly delta := by
          apply shiftable.addsExactly fits found
          rw [Aggregate.count, if_pos ⟨rfl, rfl⟩]
          omega
        have moved : Moved store (put store aggregate.scope aggregate.field.name
            { quota with usage := quota.usage + delta }) fun scope name =>
              delta.value * aggregate.count scope name := by
          refine (Moved.of_put found (quota.usage + delta)).congr fun scope name _ => ?_
          rw [show (quota.usage + delta).value = _ from sum, Aggregate.count]
          split <;> push_cast <;> ring
        refine Action.ensures_bind (fun _ => inferInstance) ((inductionHypothesis _ ?_).mono ?_)
        · rw [moved.stored_eq]
          exact shiftable.of_moved moved fun _ _ => le_rfl
        rintro _ after ⟨wave, rfl, shifted, missing, further⟩
        rw [moved.stored_eq] at shifted missing further
        refine Action.ensures_pure ⟨_, rfl, ?_, ?_, (moved.trans further).congr ?_⟩
        · rw [List.filter_cons_of_pos (by simpa using present), List.map_cons, shifted,
            sum.add_sub_cancel]
        · rw [List.filter_cons_of_neg (by simpa using present), missing]
        · intro scope name _
          rw [List.filter_cons_of_pos (by simpa using present), List.map_cons, List.sum_cons]
          push_cast
          ring
      · have absent' : stored store aggregate.scope aggregate.field.name = false := by
          rw [stored, absent]
          rfl
        rw [List.filter_cons_of_neg (by simpa using absent')] at shiftable
        refine Action.ensures_bind (fun _ => inferInstance)
          ((inductionHypothesis _ shiftable).mono ?_)
        rintro _ after ⟨wave, rfl, shifted, missing, further⟩
        refine Action.ensures_pure ⟨_, rfl, ?_, ?_, further.congr ?_⟩
        · rw [List.filter_cons_of_neg (by simpa using absent'), shifted]
        · rw [List.filter_cons_of_pos (by simpa using absent'), missing]
        · intro scope name _
          rw [List.filter_cons_of_neg (by simpa using absent')]

/-- What propagation does, from one child on and within some levels. -/
def Propagates (engine : Engine) (levels : Nat) (child : Entity) (quota : String)
    (measure : Measure) (delta : Amount) (before : σ)
    (result : Except QuotaError (List Aggregate)) (after : σ) : Prop :=
  ∃ missing, result = .ok missing ∧
    Moved before after (fun scope name =>
      delta.value * engine.chains (stored before) levels child quota measure scope name) ∧
    ∀ aggregate ∈ missing, engine.AggregateAbove child aggregate ∧
      lookup before aggregate.scope aggregate.field.name = none

/-- The moved aggregates pass their common change on one after the other. -/
theorem ensures_collect_propagate {engine : Engine} {levels : Nat} {delta : Amount}
    (each : ∀ (aggregate : Aggregate) (store : σ),
      ¬ engine.graph.Climbs levels aggregate.scope →
      Shiftable fit store delta
        (engine.chains (stored store) levels aggregate.scope aggregate.field.name .usage) →
      Ensures fit (engine.propagate levels aggregate.scope aggregate.field.name .usage delta) store
        (engine.Propagates levels aggregate.scope aggregate.field.name .usage delta store))
    (aggregates : List Aggregate)
    (low : ∀ aggregate ∈ aggregates, ¬ engine.graph.Climbs levels aggregate.scope) (store : σ)
    (shiftable : Shiftable fit store delta fun scope name => (aggregates.map fun aggregate =>
      engine.chains (stored store) levels aggregate.scope aggregate.field.name .usage scope
        name).sum) :
    Ensures fit (Action.collect (fun (aggregate, change) =>
        engine.propagate levels aggregate.scope aggregate.field.name .usage change)
      (aggregates.map (·, delta))) store fun result after => ∃ missing, result = .ok missing ∧
        Moved store after (fun scope name => delta.value * ((aggregates.map fun aggregate =>
          engine.chains (stored store) levels aggregate.scope aggregate.field.name .usage scope
            name).sum)) ∧
        ∀ aggregate ∈ missing, (∃ start ∈ aggregates, engine.AggregateAbove start.scope aggregate) ∧
          lookup store aggregate.scope aggregate.field.name = none := by
  induction aggregates generalizing store with
  | nil =>
      refine Action.ensures_pure ⟨_, rfl, ?_, by simp⟩
      simpa using Moved.refl store
  | cons start rest inductionHypothesis =>
      simp only [List.map_cons, List.sum_cons] at shiftable
      refine Action.ensures_bind (fun _ => inferInstance) ((each start store (low start (by simp))
        (shiftable.mono fun _ _ => Nat.le_add_right _ _)).mono ?_)
      rintro _ middle ⟨missing, rfl, moved, found⟩
      refine Action.ensures_bind (fun _ => inferInstance) ((inductionHypothesis
        (fun aggregate member => low aggregate (List.mem_cons_of_mem _ member)) _ ?_).mono ?_)
      · rw [moved.stored_eq]
        exact shiftable.of_moved moved fun _ _ => le_rfl
      rintro _ after ⟨others, rfl, further, othersFound⟩
      rw [moved.stored_eq] at further
      refine Action.ensures_pure ⟨_, rfl, (moved.trans further).congr ?_, ?_⟩
      · intro scope name _
        rw [List.map_cons, List.sum_cons]
        push_cast
        ring
      · intro aggregate member
        rcases List.mem_append.1 member with member | member
        · exact ⟨⟨start, by simp, (found aggregate member).1⟩, (found aggregate member).2⟩
        · obtain ⟨⟨origin, originMember, above⟩, absent⟩ := othersFound aggregate member
          refine ⟨⟨origin, List.mem_cons_of_mem _ originMember, above⟩, ?_⟩
          cases earlier : lookup store aggregate.scope aggregate.field.name with
          | none => rfl
          | some quota =>
              obtain ⟨later, laterFound, -⟩ := moved.lookup_some earlier
              simp [laterFound] at absent

/-- A change within a bounded hierarchy reaches every aggregate along all its chains. -/
theorem ensures_propagate (engine : Engine) (levels : Nat) (child : Entity) (quota : String)
    (measure : Measure) (delta : Amount) (store : σ) (low : ¬ engine.graph.Climbs levels child)
    (shiftable : Shiftable fit store delta
      (engine.chains (stored store) levels child quota measure)) :
    Ensures fit (engine.propagate levels child quota measure delta) store
      (engine.Propagates levels child quota measure delta store) := by
  induction levels generalizing child quota measure delta store with
  | zero => exact absurd trivial low
  | succ levels inductionHypothesis =>
      unfold propagate
      split
      · rename_i zero
        refine Action.ensures_pure ⟨[], rfl, ?_, by simp⟩
        simpa [zero] using Moved.refl store
      · -- The chains count the shifts of this level and those of the levels above it.
        refine Action.ensures_bind (fun _ => inferInstance)
          ((ensures_shiftAll _ _ _ (shiftable.mono fun scope name => ?_)).mono ?_)
        · rw [chains, List.sum_map_add]
          exact Nat.le_add_right _ _
        rintro _ middle ⟨wave, rfl, shifted, missing, moved⟩
        have above : ∀ aggregate ∈ (engine.aggregatesOver child quota measure).filter
            (fun aggregate => stored store aggregate.scope aggregate.field.name),
            aggregate.scope ∈ engine.graph.quotaParents child := fun aggregate member =>
          (mem_aggregatesOver.1 (List.mem_filter.1 member).1).1
        refine Action.ensures_bind (fun _ => inferInstance) ?_
        rw [shifted, ← List.map_reverse]
        refine (ensures_collect_propagate
          (fun aggregate store low room => inductionHypothesis _ _ _ _ store low room) _
          (fun aggregate member climbs => low ⟨aggregate.scope,
            above aggregate (List.mem_reverse.1 member), climbs⟩) middle ?_).mono ?_
        · refine shiftable.of_moved moved fun scope name => ?_
          rw [moved.stored_eq, List.map_reverse, List.sum_reverse, chains, List.sum_map_add]
        rintro _ after ⟨others, rfl, further, othersFound⟩
        rw [moved.stored_eq] at further
        refine Action.ensures_pure ⟨_, rfl, (moved.trans further).congr ?_, ?_⟩
        · intro scope name _
          rw [chains, List.map_reverse, List.sum_reverse, List.sum_map_add]
          push_cast
          ring
        · intro aggregate member
          rcases List.mem_append.1 member with member | member
          · rw [missing] at member
            obtain ⟨member, absent⟩ := List.mem_filter.1 member
            refine ⟨aggregateAbove_of_mem member, ?_⟩
            simpa [stored] using absent
          · obtain ⟨⟨start, startMember, higher⟩, absent⟩ := othersFound aggregate member
            refine ⟨.trans (.single (above start (List.mem_reverse.1 startMember))) higher, ?_⟩
            -- No record goes missing on the way, so what is absent now was absent before.
            cases earlier : lookup store aggregate.scope aggregate.field.name with
            | none => rfl
            | some quota =>
                obtain ⟨later, laterFound, -⟩ := moved.lookup_some earlier
                simp [laterFound] at absent

end Engine

end HierarchicalQuota
