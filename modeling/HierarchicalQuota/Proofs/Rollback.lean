import HierarchicalQuota.Proofs.Coverage
import HierarchicalQuota.Proofs.Operations

namespace HierarchicalQuota

open HierarchicalQuota.Action (Ensures)
open LawfulStore (lookup put drop list)

variable {σ : Type} [QuotaStore σ] [LawfulStore σ]

section Listing

/-- No record of a scope is listed twice, because no name is. -/
theorem nodup_records (store : σ) (scope : Entity) : (list store scope).Nodup :=
  List.Nodup.of_map Record.name (LawfulStore.nodup_list store scope)

/-- Equal lookups list equal records. -/
theorem perm_list {before after : σ} {scope : Entity}
    (same : ∀ name, lookup after scope name = lookup before scope name) :
    (list after scope).Perm (list before scope) := by
  apply (List.perm_ext_iff_of_nodup (nodup_records after scope) (nodup_records before scope)).2
  intro record
  rw [LawfulStore.mem_list, LawfulStore.mem_list, same]

/-- A written record takes the place of the one with its name. -/
theorem perm_list_put (store : σ) (scope : Entity) (name : String) (quota : Quota) :
    (list (put store scope name quota) scope).Perm
      (⟨scope, name, quota⟩ :: (list store scope).filter fun record => record.name ≠ name) := by
  have fresh : (⟨scope, name, quota⟩ :: (list store scope).filter fun record =>
      record.name ≠ name).Nodup := by
    apply List.nodup_cons.2
    refine ⟨fun member => ?_, (nodup_records store scope).filter _⟩
    simpa using (List.mem_filter.1 member).2
  apply (List.perm_ext_iff_of_nodup (nodup_records _ scope) fresh).2
  intro record
  rw [LawfulStore.mem_list, LawfulStore.lookup_put, List.mem_cons, List.mem_filter,
    LawfulStore.mem_list]
  obtain ⟨place, label, other⟩ := record
  by_cases same : name = label
  · simp only [same, and_true, if_true, Record.mk.injEq, true_and, Option.some.injEq, ne_eq,
      not_true_eq_false, decide_false, Bool.false_eq_true, and_false, or_false]
    constructor
    · rintro ⟨rfl, rfl⟩
      exact ⟨rfl, rfl⟩
    · rintro ⟨rfl, rfl⟩
      exact ⟨rfl, rfl⟩
  · simp [same, Ne.symm same]

/-- Writing one record exchanges its part of a sum over all records of its scope. -/
theorem sum_list_put (store : σ) (scope : Entity) (name : String) (quota : Quota)
    (value : Record → Int) :
    ((list (put store scope name quota) scope).map value).sum =
      ((list store scope).map value).sum + (value ⟨scope, name, quota⟩ -
        (lookup store scope name).elim 0 fun old => value ⟨scope, name, old⟩) := by
  rw [((perm_list_put store scope name quota).map value).sum_eq, List.map_cons, List.sum_cons]
  cases found : lookup store scope name with
  | none =>
      have all : (list store scope).filter (fun record => record.name ≠ name) =
          list store scope := by
        apply List.filter_eq_self.2
        intro record member
        rw [decide_eq_true_eq]
        rintro rfl
        rw [(LawfulStore.mem_list.1 member).2] at found
        cases found
      rw [all, Option.elim_none]
      omega
  | some old =>
      have same := ((perm_list_put store scope name old).map value).sum_eq
      rw [LawfulStore.put_of_lookup found, List.map_cons, List.sum_cons] at same
      rw [same, Option.elim_some]
      omega

end Listing

/-- A balance sheet shows a limit and a usage for every record. -/
abbrev Sheet := Entity → String → Option (Amount × Int)

/-- A shifted sheet shows usages that have changed by some amounts. -/
def Sheet.shift (sheet : Sheet) (amount : Entity → String → Int) : Sheet := fun scope name =>
  (sheet scope name).map fun entry => (entry.1, entry.2 + amount scope name)

/-- Two shifts of a sheet are one shift by the sum. -/
theorem Sheet.shift_add (sheet : Sheet) (first second : Entity → String → Int) :
    (sheet.shift first).shift second =
      sheet.shift fun scope name => first scope name + second scope name := by
  funext scope name
  unfold shift
  cases sheet scope name with
  | none => rfl
  | some entry => simp [add_assoc]

/-- A shift by nothing leaves the sheet as it is. -/
theorem Sheet.shift_zero (sheet : Sheet) {amount : Entity → String → Int}
    (still : ∀ scope name, amount scope name = 0) : sheet.shift amount = sheet := by
  funext scope name
  unfold shift
  cases sheet scope name with
  | none => rfl
  | some entry => simp [still]

/-- Opposite shifts cancel. -/
theorem Sheet.shift_shift (sheet : Sheet) {first second : Entity → String → Int}
    (opposite : ∀ scope name, first scope name + second scope name = 0) :
    (sheet.shift first).shift second = sheet := by
  rw [shift_add, shift_zero sheet opposite]

namespace Engine

variable {engine : Engine} {fresh : Option Entity}

section Remainder

/-- What the records of a fresh scope have added to an aggregate. -/
def shares (engine : Engine) (fresh : Option Entity) (store : σ) (scope : Entity) (name : String) :
    Int :=
  ((fresh.elim [] (list store)).map fun record => engine.share record scope name).sum

/-- This sheet shows what would remain if the fresh scope were removed. -/
def remainder (engine : Engine) (fresh : Option Entity) (store : σ) : Sheet := fun scope name =>
  if fresh = some scope then none
  else (lookup store scope name).map fun quota =>
    (quota.limit, quota.usage.value - engine.shares fresh store scope name)

/-- The fresh scope has no share in what it does not reach. -/
theorem shares_eq_zero {store : σ} {scope : Entity} {name : String}
    (unreached : ∀ place, fresh = some place → ¬ engine.Reaches place scope name) :
    engine.shares fresh store scope name = 0 := by
  cases fresh with
  | none => rfl
  | some place =>
      apply sum_map_eq_zero
      intro record member
      obtain ⟨rfl, -⟩ := LawfulStore.mem_list.1 member
      exact share_eq_zero (unreached record.scope rfl)

/-- The shares depend only on the records of the fresh scope. -/
theorem shares_congr {before after : σ}
    (same : ∀ place, fresh = some place →
      ∀ name, lookup after place name = lookup before place name)
    (scope : Entity) (name : String) :
    engine.shares fresh after scope name = engine.shares fresh before scope name := by
  cases fresh with
  | none => rfl
  | some place => exact ((perm_list (same place rfl)).map _).sum_eq

/-- What the fresh scope does not reach remains as it is stored. -/
theorem remainder_of_unreached {store : σ} {scope : Entity} {name : String}
    (elsewhere : fresh ≠ some scope)
    (unreached : ∀ place, fresh = some place → ¬ engine.Reaches place scope name) :
    engine.remainder fresh store scope name =
      (lookup store scope name).map fun quota => (quota.limit, quota.usage.value) := by
  rw [remainder, if_neg elsewhere, shares_eq_zero unreached]
  simp only [sub_zero]

/-- Where nothing is left out, the sheet shows the whole store. -/
theorem remainder_none (store : σ) (scope : Entity) (name : String) :
    engine.remainder none store scope name =
      (lookup store scope name).map fun quota => (quota.limit, quota.usage.value) :=
  remainder_of_unreached (by simp) (by simp)

/-- Without a fresh scope the sheet tells all of the store. -/
theorem eq_of_remainder {before after : σ}
    (same : engine.remainder none after = engine.remainder none before) : after = before := by
  apply LawfulStore.ext_lookup
  intro scope name
  have entry := congrFun (congrFun same scope) name
  rw [remainder_none, remainder_none] at entry
  apply Option.map_injective ?_ entry
  intro first second equal
  exact Quota.ext (congrArg Prod.fst equal) (Amount.ext (congrArg Prod.snd equal))

/-- A store moves its sheet if the records of the fresh scope stay the same. -/
theorem remainder_moved {before after : σ} {amount : Entity → String → Int}
    (moved : Moved before after amount)
    (aside : ∀ place, fresh = some place → ∀ name, amount place name = 0) :
    engine.remainder fresh after = (engine.remainder fresh before).shift amount := by
  funext scope name
  have same : engine.shares fresh after scope name = engine.shares fresh before scope name :=
    shares_congr (fun place isFresh label => moved.lookup_eq (aside place isFresh label)) scope name
  unfold Sheet.shift remainder
  rw [same]
  by_cases elsewhere : fresh = some scope
  · simp [elsewhere]
  rw [if_neg elsewhere, if_neg elsewhere]
  cases found : lookup before scope name with
  | none =>
      rw [moved.lookup_none found]
      rfl
  | some quota =>
      obtain ⟨later, laterFound, limit, usage⟩ := moved.lookup_some found
      rw [laterFound, Option.map_some, Option.map_some, Option.map_some, limit, usage]
      congr 2
      omega

/-- Writing a record of the fresh scope leaves the sheet alone if its share is passed on. -/
theorem remainder_put (shallow : engine.graph.Shallow) {scope : Entity} (name : String)
    (quota : Quota) {store after : σ}
    (moved : Moved (put store scope name quota) after fun other label =>
      engine.share ⟨scope, name, quota⟩ other label -
        (lookup store scope name).elim 0 fun old =>
          engine.share ⟨scope, name, old⟩ other label) :
    engine.remainder (some scope) after = engine.remainder (some scope) store := by
  have own : ∀ label, lookup after scope label =
      lookup (put store scope name quota) scope label := by
    intro label
    apply moved.lookup_eq
    have still (record : Quota) : engine.share ⟨scope, name, record⟩ scope label = 0 :=
      share_eq_zero (not_reaches_self shallow scope label)
    cases lookup store scope name with
    | none => simp [still]
    | some old => simp [still]
  funext other label
  have sum : engine.shares (some scope) after other label =
      engine.shares (some scope) store other label + (engine.share ⟨scope, name, quota⟩ other label -
        (lookup store scope name).elim 0 fun old => engine.share ⟨scope, name, old⟩ other label) := by
    have listed : engine.shares (some scope) after other label =
        engine.shares (some scope) (put store scope name quota) other label := by
      apply shares_congr
      rintro _ ⟨⟩
      exact own
    rw [listed]
    exact sum_list_put store scope name quota fun record => engine.share record other label
  unfold remainder
  by_cases elsewhere : scope = other
  · rw [if_pos (congrArg some elsewhere), if_pos (congrArg some elsewhere)]
  have elsewhere' : some scope ≠ some other := fun same => elsewhere (Option.some.inj same)
  have rest : lookup (put store scope name quota) other label = lookup store other label := by
    rw [LawfulStore.lookup_put, if_neg fun same => elsewhere same.1]
  rw [if_neg elsewhere', if_neg elsewhere', sum]
  cases found : lookup store other label with
  | none => rw [moved.lookup_none (rest.trans found)]; rfl
  | some record =>
      obtain ⟨later, laterFound, limit, usage⟩ := moved.lookup_some (rest.trans found)
      rw [laterFound, Option.map_some, Option.map_some, limit, usage]
      congr 2
      omega

end Remainder

section Batch

/-- A usage can be adjusted if it is stored and not summed, has not sunk below zero outside the
fresh scope, and lies below covered scopes that are not fresh. -/
structure Adjustable (engine : Engine) (fresh : Option Entity) (store : σ) (scope : Entity)
    (name : String) : Prop where
  connected : ∃ field ∈ engine.registry.field? scope.kind name,
    field.isConnected scope engine.graph = true
  plain : engine.Plain scope name
  present : ∃ quota ∈ lookup store scope name, fresh ≠ some scope → 0 ≤ quota.usage.value
  covered : engine.Covered store scope
  aside : ∀ aggregate, engine.AggregateAbove scope aggregate → fresh ≠ some aggregate.scope

/-- No change of another record reaches a usage that is not summed. -/
theorem Plain.unreached {scope : Entity} {name : String} (plain : engine.Plain scope name)
    (place : Entity) : ¬ engine.Reaches place scope name := by
  rintro ⟨aggregate, above, rfl, rfl⟩
  exact plain.ne_name aggregate.field above.toHasAggregate rfl

/-- A change outside the fresh scope has an effect on the sheet. -/
def effect (engine : Engine) (fresh : Option Entity) (change : Change) (scope : Entity)
    (name : String) : Int :=
  if fresh = some change.scope then 0
  else change.amount.value * engine.impact change.scope change.name scope name

/-- All usages of some names are adjustable. -/
def AllAdjustable (engine : Engine) (fresh : Option Entity) (targets : Entity → String → Prop)
    (store : σ) : Prop :=
  ∀ scope name, targets scope name → engine.Adjustable fresh store scope name

variable (shallow : engine.graph.Shallow)

include shallow

/-- An adjusted usage of the fresh scope leaves the sheet alone. -/
theorem remainder_adjusted {scope : Entity} {name : String} {quota : Quota} {amount : Int}
    {store after : σ} (found : lookup store scope name = some quota)
    (moved : Moved store after fun other label => amount * engine.impact scope name other label) :
    engine.remainder (some scope) after = engine.remainder (some scope) store := by
  obtain ⟨later, laterFound, limit, usage⟩ := moved.lookup_some found
  rw [impact_self shallow, mul_one] at usage
  apply remainder_put shallow name later
  intro other label
  beta_reduce
  rw [found, Option.elim_some, LawfulStore.lookup_put, share, share]
  dsimp only
  by_cases same : scope = other ∧ name = label
  · obtain ⟨rfl, rfl⟩ := same
    rw [if_pos ⟨rfl, rfl⟩, laterFound, paths_eq_zero (not_reaches_self shallow scope name),
      paths_eq_zero (not_reaches_self shallow scope name)]
    simp
  · rw [if_neg same, moved other label]
    beta_reduce
    rw [impact, if_neg same, limit, usage]
    congr 1
    funext record
    congr 1
    ring

/-- Usages stay adjustable if one of them moves and has not sunk below zero. -/
theorem AllAdjustable.of_moved {targets : Entity → String → Prop} {store after : σ}
    (adjustable : engine.AllAdjustable fresh targets store) {scope : Entity} {name : String}
    {amount : Int}
    (floor : fresh ≠ some scope → ∀ quota ∈ lookup store scope name,
      0 ≤ quota.usage.value + amount)
    (moved : Moved store after fun other label => amount * engine.impact scope name other label) :
    engine.AllAdjustable fresh targets after := by
  intro other label target
  have before := adjustable other label target
  have covered : engine.Covered after other :=
    before.covered.mono fun _ _ present => by rwa [moved.stored_eq]
  refine ⟨before.connected, before.plain, ?_, covered, before.aside⟩
  obtain ⟨quota, found, enough⟩ := before.present
  by_cases same : scope = other ∧ name = label
  · obtain ⟨rfl, rfl⟩ := same
    obtain ⟨later, laterFound, -, usage⟩ := moved.lookup_some found
    rw [impact_self shallow, mul_one] at usage
    exact ⟨later, laterFound, fun elsewhere => usage ▸ floor elsewhere quota found⟩
  · rw [moved.lookup_eq (by rw [impact_eq_zero same (before.plain.unreached scope), mul_zero])]
    exact ⟨quota, found, enough⟩

/-- One adjustment changes the sheet by its effect, or is refused and changes nothing. -/
theorem ensures_applyDelta_adjustable {targets : Entity → String → Prop} {store : σ}
    (adjustable : engine.AllAdjustable fresh targets store) {scope : Entity} {name : String}
    (target : targets scope name) (delta : Amount) (validate : Bool) :
    Ensures StoreCall.Exact (engine.applyDelta scope name delta validate) store
      fun result after => engine.AllAdjustable fresh targets after ∧ stored after = stored store ∧
        match result with
        | .ok amount =>
            (∀ quota ∈ lookup store scope name, amount.value = applied quota delta) ∧
            engine.remainder fresh after =
              (engine.remainder fresh store).shift (engine.effect fresh ⟨scope, name, amount⟩)
        | .error error => after = store ∧ validate = true ∧ 0 < delta ∧
            ∃ limit requested, error = .limitExceeded ⟨scope, name, limit, requested⟩ := by
  have own := adjustable scope name target
  obtain ⟨field, known, connected⟩ := own.connected
  obtain ⟨quota, found, -⟩ := own.present
  refine (ensures_applyDelta_covered shallow known connected found own.covered delta
    validate).mono ?_
  rintro (error | amount) after applies
  · obtain ⟨rfl, refused⟩ := applies
    exact ⟨adjustable, rfl, rfl, refused⟩
  obtain ⟨value, moved⟩ := applies
  refine ⟨adjustable.of_moved shallow (fun elsewhere other otherFound => ?_) moved,
    moved.stored_eq, ?_, ?_⟩
  · obtain rfl := Option.some.inj (found.symm.trans otherFound)
    obtain ⟨same, sameFound, enough⟩ := own.present
    obtain rfl := Option.some.inj (found.symm.trans sameFound)
    have floor := enough elsewhere
    rw [value, applied]
    split <;> omega
  · intro other otherFound
    obtain rfl := Option.some.inj (found.symm.trans otherFound)
    exact value
  · unfold effect
    -- A change of the fresh scope does not show on the sheet, since it would be removed with it.
    by_cases isFresh : fresh = some scope
    · subst isFresh
      rw [remainder_adjusted shallow found moved, Sheet.shift_zero]
      intro other label
      rw [if_pos rfl]
    · rw [remainder_moved moved]
      · simp only [if_neg isFresh]
      · rintro place rfl label
        have different : ¬ (scope = place ∧ name = label) :=
          fun same => isFresh (congrArg some same.1.symm)
        have unreached : ¬ engine.Reaches scope place label := by
          rintro ⟨aggregate, above, rfl, -⟩
          exact own.aside aggregate above rfl
        rw [impact_eq_zero different unreached, mul_zero]

omit shallow in
/-- Applied changes can be undone, the latest first, until the sheet is the first one again. -/
def Undoable (engine : Engine) (fresh : Option Entity) (start : Sheet) : List Change → σ → Prop
  | [], store => engine.remainder fresh store = start
  | change :: earlier, store => ∃ before : σ, engine.Undoable fresh start earlier before ∧
      (fresh ≠ some change.scope →
        ∃ quota ∈ lookup before change.scope change.name, 0 ≤ quota.usage.value) ∧
      engine.remainder fresh store =
        (engine.remainder fresh before).shift (engine.effect fresh change)

omit shallow in
/-- Only the sheet decides whether changes can be undone. -/
theorem Undoable.congr {start : Sheet} {changes : List Change} {before after : σ}
    (undoable : engine.Undoable fresh start changes before)
    (same : engine.remainder fresh after = engine.remainder fresh before) :
    engine.Undoable fresh start changes after := by
  cases changes with
  | nil => exact same.trans undoable
  | cons change earlier =>
      obtain ⟨origin, rest, floor, shifted⟩ := undoable
      exact ⟨origin, rest, floor, same.trans shifted⟩

/-- The change that is stored for the negative of a change cancels it. -/
theorem effect_cancels {before store : σ} {change : Change} {amount : Amount}
    (adjustable : engine.Adjustable fresh store change.scope change.name)
    (floor : fresh ≠ some change.scope →
      ∃ quota ∈ lookup before change.scope change.name, 0 ≤ quota.usage.value)
    (shifted : engine.remainder fresh store =
      (engine.remainder fresh before).shift (engine.effect fresh change))
    (value : ∀ quota ∈ lookup store change.scope change.name,
      amount.value = applied quota (-change.amount)) (scope : Entity) (name : String) :
    engine.effect fresh change scope name +
      engine.effect fresh ⟨change.scope, change.name, amount⟩ scope name = 0 := by
  unfold effect
  by_cases isFresh : fresh = some change.scope
  · simp [isFresh]
  obtain ⟨earlier, earlierFound, positive⟩ := floor isFresh
  obtain ⟨now, nowFound, nowPositive⟩ := adjustable.present
  have unreached : ∀ place, fresh = some place →
      ¬ engine.Reaches place change.scope change.name := fun place _ => adjustable.plain.unreached place
  have entry := congrFun (congrFun shifted change.scope) change.name
  rw [Sheet.shift, remainder_of_unreached isFresh unreached,
    remainder_of_unreached isFresh unreached, earlierFound, nowFound, effect, if_neg isFresh,
    impact_self shallow, mul_one] at entry
  have usage : now.usage.value = earlier.usage.value + change.amount.value :=
    congrArg Prod.snd (Option.some.inj entry)
  have opposite : amount.value = -change.amount.value := by
    rw [value now nowFound, applied]
    have range := earlier.usage.upper
    have amountRange := change.amount.upper
    have nowRange := nowPositive isFresh
    split
    · rename_i zero
      rw [Amount.eq_zero_of_neg zero]
      rfl
    · rw [Amount.value_neg]
      omega
  rw [if_neg isFresh, if_neg isFresh, opposite]
  ring

omit shallow in
/-- Targeted changes are logged if all of them can be undone, and if all targets are still adjustable
and no record was added or removed. -/
structure UndoLog (engine : Engine) (fresh : Option Entity) (targets : Entity → String → Prop)
    (origin : σ) (changes : List Change) (store : σ) : Prop where
  targeted : ∀ change ∈ changes, targets change.scope change.name
  adjustable : engine.AllAdjustable fresh targets store
  sameStored : stored store = stored origin
  undoable : engine.Undoable fresh (engine.remainder fresh origin) changes store

/-- A validated batch on targets logs what it applies, and the latest change is undone by taking it
back. Only an exceeded limit can stop it. -/
theorem logs_undoable {targets : Entity → String → Prop}
    {requests : List (Except QuotaError Change)}
    (targeted : ∀ request, .ok request ∈ requests → targets request.scope request.name)
    (origin : σ) :
    engine.Logs StoreCall.Exact true requests
      (fun error => ∃ violation, error = .limitExceeded violation ∧
        targets violation.scope violation.name)
      (engine.UndoLog fresh targets origin) where
  apply {request changes store} member logged := by
    have target := targeted request member
    refine (ensures_applyDelta_adjustable shallow logged.adjustable target request.amount
      true).mono ?_
    rintro (error | amount) after ⟨adjustable, sameStored, applies⟩
    · obtain ⟨rfl, -, -, limit, requested, rfl⟩ := applies
      exact ⟨logged, _, rfl, target⟩
    · obtain ⟨quota, found, enough⟩ := (logged.adjustable _ _ target).present
      exact ⟨List.forall_mem_cons.2 ⟨target, logged.targeted⟩, adjustable,
        sameStored.trans logged.sameStored, store, logged.undoable,
        fun elsewhere => ⟨quota, found, enough elsewhere⟩, applies.2⟩
  takeBack {change changes store} logged := by
    obtain ⟨target, earlierTargeted⟩ := List.forall_mem_cons.1 logged.targeted
    obtain ⟨before, earlier, floor, shifted⟩ := logged.undoable
    refine (ensures_applyDelta_adjustable shallow logged.adjustable target (-change.amount)
      false).mono ?_
    rintro (error | amount) after ⟨adjustable, sameStored, applies⟩
    · obtain ⟨-, validated, -⟩ := applies
      cases validated
    · obtain ⟨value, shiftedBack⟩ := applies
      refine ⟨earlierTargeted, adjustable, sameStored.trans logged.sameStored, earlier.congr ?_⟩
      rw [shiftedBack, shifted]
      exact Sheet.shift_shift _
        (effect_cancels shallow (logged.adjustable _ _ target) floor shifted value)

/-- A batch that fails is undone, and it fails only for an exceeded limit or a bad request. -/
theorem ensures_applyAll_undoable {targets : Entity → String → Prop}
    {requests : List (Except QuotaError Change)}
    (targeted : ∀ request, .ok request ∈ requests → targets request.scope request.name)
    {store : σ} (adjustable : engine.AllAdjustable fresh targets store) :
    Ensures StoreCall.Exact (engine.applyAll true requests []) store fun result after =>
      stored after = stored store ∧ ∀ error, result = .error error →
        engine.remainder fresh after = engine.remainder fresh store ∧
          (.error error ∈ requests ∨ ∃ violation, error = .limitExceeded violation ∧
            targets violation.scope violation.name) := by
  have started : engine.UndoLog fresh targets store [] store :=
    ⟨List.forall_mem_nil _, adjustable, rfl, rfl⟩
  refine (ensures_applyAll_logged (logs_undoable shallow targeted store) [] started).mono ?_
  rintro (error | done) after kept
  · obtain ⟨undone, cause⟩ := kept
    refine ⟨undone.sameStored, ?_⟩
    rintro _ ⟨⟩
    exact ⟨undone.undoable, cause⟩
  · obtain ⟨changes, logged⟩ := kept
    refine ⟨logged.sameStored, ?_⟩
    rintro _ ⟨⟩

end Batch

end Engine

end HierarchicalQuota
