import HierarchicalQuota.Proofs.Acceptance
import HierarchicalQuota.Proofs.Retracing
import HierarchicalQuota.Proofs.Rollback

namespace HierarchicalQuota

open HierarchicalQuota.Action (Ensures)
open LawfulStore (lookup put)

variable {σ : Type} [QuotaStore σ] [LawfulStore σ]

section Stems

/-- A usage stems from an earlier one through some amounts, the latest first, if these lead back to
it and taking them off one by one never passes zero. -/
structure Stems (start : Amount) (amounts : List Amount) (usage : Amount) : Prop where
  retraces : Quota.Retraces amounts ⟨.unlimited, usage⟩
  sum : usage.value = start.value + (amounts.map Amount.value).sum

variable {start usage amount : Amount} {amounts : List Amount}

/-- A usage that is not negative stems from itself. -/
theorem stems_nil (floor : 0 ≤ usage) : Stems usage [] usage :=
  ⟨⟨floor, .inl rfl⟩, by simp⟩

/-- A usage from which all amounts were taken off is the one it stems from. -/
theorem Stems.eq_start (stems : Stems start [] usage) : usage = start := by
  apply Amount.ext
  simpa using stems.sum

/-- Usages that stem from others are not negative. -/
theorem Stems.nonneg (stems : Stems start amounts usage) : 0 ≤ usage :=
  stems.retraces.withinLimit.1

/-- The amount that a change has stored is added in front. -/
theorem Stems.change (stems : Stems start amounts usage) (delta : Amount) :
    Stems start ((max (usage + delta) 0 - usage) :: amounts) (max (usage + delta) 0) := by
  have validated : true = true ∨ delta ≤ 0 := .inl rfl
  refine ⟨stems.retraces.change validated fun refused => refused.2.2.1 rfl, ?_⟩
  have difference := Amount.subtractsExactly_max_zero (usage + delta) stems.nonneg
  rw [List.map_cons, List.sum_cons,
    show (max (usage + delta) 0 - usage).value = _ from difference]
  have sum := stems.sum
  omega

/-- The negative of the latest amount takes it away again. -/
theorem Stems.takeBack (stems : Stems start (amount :: amounts) usage) :
    Stems start amounts (max (usage + -amount) 0) := by
  refine ⟨stems.retraces.takeBack, ?_⟩
  have lower := stems.retraces.value_takeBack
  have sum := stems.sum
  rw [List.map_cons, List.sum_cons] at sum
  dsimp only at lower
  omega

end Stems

namespace Engine

variable {engine : Engine} {fit : StoreCall → σ → Prop}

section Records

/-- A record is borne by a store if it has its limit there, and its usage, too, unless some changes
of a scope can reach it. -/
def Bears (engine : Engine) (place scope : Entity) (name : String) (quota : Quota) (store : σ) :
    Prop :=
  ∃ usage, lookup store scope name = some { quota with usage } ∧
    (¬ engine.Reaches place scope name → usage = quota.usage)

variable {place scope : Entity} {label name : String} {quota : Quota} {store : σ}

/-- A store bears its own records. -/
theorem bears_of_lookup (place : Entity) (found : lookup store scope name = some quota) :
    engine.Bears place scope name quota store :=
  ⟨quota.usage, found, fun _ => rfl⟩

/-- A write of another record does not matter to the one that is borne. -/
theorem Bears.put_of_ne (bears : engine.Bears place scope name quota store)
    (other : ¬ (place = scope ∧ label = name)) (written : Quota) :
    engine.Bears place scope name quota (put store place label written) := by
  obtain ⟨usage, found, still⟩ := bears
  refine ⟨usage, ?_, still⟩
  rw [LawfulStore.lookup_put, if_neg other, found]

/-- Whatever spreads from a scope keeps limits, and usages that it cannot reach. -/
theorem spreads_bears :
    engine.Spreads fit (fun child _ => child = place ∨ engine.graph.Above place child)
      (engine.Bears place scope name quota : σ → Prop) := by
  constructor
  · rintro aggregate shifted delta store meets ⟨usage, found, still⟩ present -
    have above := meets.aggregateAbove
    refine ⟨?_, fun _ => .inr above.above⟩
    by_cases own : aggregate.scope = scope ∧ aggregate.field.name = name
    · obtain ⟨rfl, rfl⟩ := own
      rw [found] at present
      obtain rfl := Option.some.inj present
      exact ⟨_, by rw [LawfulStore.lookup_put, if_pos ⟨rfl, rfl⟩],
        fun unreached => absurd ⟨aggregate, above, rfl, rfl⟩ unreached⟩
    · exact ⟨usage, by rw [LawfulStore.lookup_put, if_neg own, found], still⟩
  · rintro aggregate store meets ⟨usage, found, still⟩ absent -
    refine ⟨⟨usage, ?_, still⟩, .inr meets.aggregateAbove.above⟩
    rw [LawfulStore.lookup_put, if_neg, found]
    rintro ⟨rfl, rfl⟩
    rw [absent] at found
    cases found

/-- A usage that was written stays, unless its own spreading reaches it, and the spreading fails only
if the usage has changed. -/
theorem ensures_childChanged_bears (found : lookup store scope name = some quota) (old : Amount) :
    Ensures fit (engine.childChanged scope name .usage old quota.usage) store fun result after =>
      engine.Bears scope scope name quota after ∧
        ∀ error, result = .error error → quota.usage ≠ old := by
  by_cases changed : quota.usage = old
  · have zero : quota.usage - old = 0 := by
      apply Amount.ext
      rw [changed, Amount.value_sub, Amount.value_zero]
      omega
    unfold childChanged
    refine Action.ensures_bind (fun _ => inferInstance)
      ((ensures_spread_nowhere (.inl zero) store).mono ?_)
    rintro _ after ⟨rfl, rfl⟩
    exact Action.ensures_pure ⟨bears_of_lookup scope found, by rintro _ ⟨⟩⟩
  · exact (ensures_childChanged_kept spreads_bears .usage (fun _ => .inl rfl)
      (bears_of_lookup scope found)).mono fun _ _ kept => ⟨kept.1, fun _ _ => changed⟩

/-- A change of a usage is written as far as the floor at zero allows, and it is reported if it also
spreads. A change that fails without being written fails for another cause than the hierarchy. -/
def Writes (engine : Engine) (scope : Entity) (name : String) (delta : Amount) (validate : Bool)
    (old new : Amount) : Except QuotaError Amount → Prop
  | .ok amount => new = max (old + delta) 0 ∧ amount = new - old
  | .error error => (new = max (old + delta) 0 ∧ new ≠ old) ∨
      (delta ≠ 0 ∧ (engine.Available scope name → validate = true) ∧
        ∀ deep, error ≠ .hierarchyTooDeep deep)

/-- A change of a stored usage that it cannot reach from above writes it once. -/
theorem ensures_applyDelta_writes (found : lookup store scope name = some quota) (delta : Amount)
    (validate : Bool) :
    Ensures fit (engine.applyDelta scope name delta validate) store fun result after =>
      ∃ usage, lookup after scope name = some { quota with usage } ∧
        (¬ engine.Reaches scope scope name → 0 ≤ quota.usage →
          engine.Writes scope name delta validate quota.usage usage result) := by
  refine ensures_applyDelta_of_steps (fun zero => ⟨quota.usage, found, fun _ floor => ?_⟩)
    fun nonzero => ?_
  · rw [zero]
    refine ⟨Amount.ext ?_, Amount.ext ?_⟩
    · rw [Amount.le_iff, Amount.value_zero] at floor
      have upper := quota.usage.upper
      rw [Amount.value_max, Amount.value_add, Amount.value_zero]
      omega
    · rw [Amount.value_sub, Amount.value_zero]
      omega
  by_cases available : engine.Available scope name
  · obtain ⟨field, known, connected⟩ := id available
    refine (ensures_getOrCreate_stored known connected found).mono ?_
    rintro _ middle ⟨rfl, rfl⟩
    refine Action.ensures_addUsage (fun stored same _ _ => ?_) (fun _ _ validated _ => ?_)
      fun absent => ?_
    · rw [found] at same
      obtain rfl := Option.some.inj same
      -- The usage stays as written, unless its own spreading comes back to it.
      let written : Quota := { quota with usage := max (quota.usage + delta) 0 }
      have present : lookup (put middle scope name written) scope name = some written := by
        rw [LawfulStore.lookup_put, if_pos ⟨rfl, rfl⟩]
      refine (ensures_childChanged_bears present quota.usage).mono ?_
      rintro (error | done) after ⟨⟨usage, kept, still⟩, changed⟩
      · refine ⟨usage, kept, fun unreached _ => .inl ?_⟩
        rw [still unreached]
        exact ⟨rfl, changed error rfl⟩
      · refine ⟨usage, kept, fun unreached _ => ?_⟩
        rw [still unreached]
        exact ⟨rfl, rfl⟩
    · exact ⟨quota.usage, found, fun _ _ => .inr ⟨nonzero, fun _ => validated, by rintro _ ⟨⟩⟩⟩
    · rw [found] at absent
      cases absent
  · refine (ensures_getOrCreate_refused available).mono ?_
    rintro _ after ⟨rfl, error, rfl, other⟩
    exact ⟨quota.usage, found,
      fun _ _ => .inr ⟨nonzero, fun isAvailable => absurd isAvailable available, other⟩⟩

/-- A change that has been made or has failed keeps a record and its limit. It keeps the usage unless
it touches the record. -/
def ChangesRecord (engine : Engine) (change : Change) (validate : Bool) (scope : Entity)
    (name : String) (quota : Quota) (result : Except QuotaError Amount) (after : σ) : Prop :=
  ∃ usage, lookup after scope name = some { quota with usage } ∧
    (¬ engine.Touches change.scope change.name scope name → usage = quota.usage) ∧
    (change.scope = scope ∧ change.name = name → ¬ engine.Reaches scope scope name →
      0 ≤ quota.usage → engine.Writes scope name change.amount validate quota.usage usage result)

/-- A change keeps every record that is stored, with its limit. -/
theorem ensures_applyDelta_record (found : lookup store scope name = some quota) (change : Change)
    (validate : Bool) :
    Ensures fit (engine.applyDelta change.scope change.name change.amount validate) store
      (engine.ChangesRecord change validate scope name quota) := by
  obtain ⟨place, label, delta⟩ := change
  by_cases own : place = scope ∧ label = name
  · obtain ⟨rfl, rfl⟩ := own
    refine (ensures_applyDelta_writes found delta validate).mono ?_
    rintro result after ⟨usage, kept, writes⟩
    exact ⟨usage, kept, fun untouched => absurd (.inl ⟨rfl, rfl⟩) untouched, fun _ => writes⟩
  · refine (ensures_applyDelta_kept spreads_bears (fun _ => .inl rfl)
      (fun _ written bears => bears.put_of_ne own written) delta validate
      (bears_of_lookup place found)).mono ?_
    rintro result after ⟨usage, kept, still⟩
    exact ⟨usage, kept, fun untouched => still fun reaches => untouched (.inr reaches),
      fun same => absurd same own⟩

/-- All stored records are changed as one of them is, and only an available quota reports that it has
changed. -/
structure ChangedBy (engine : Engine) (change : Change) (validate : Bool) (before : σ)
    (result : Except QuotaError Amount) (after : σ) : Prop where
  available : ∀ amount, result = .ok amount → amount ≠ 0 →
    engine.Available change.scope change.name
  records : ∀ scope name quota, lookup before scope name = some quota →
    engine.ChangesRecord change validate scope name quota result after

/-- A change of any quota changes each stored record as it should. -/
theorem ensures_applyDelta_changedBy (change : Change) (validate : Bool) (store : σ) :
    Ensures fit (engine.applyDelta change.scope change.name change.amount validate) store
      (engine.ChangedBy change validate store) := by
  have reports : Ensures fit (engine.applyDelta change.scope change.name change.amount validate)
      store fun result _ => ∀ amount, result = .ok amount → amount ≠ 0 →
        engine.Available change.scope change.name := by
    by_cases available : engine.Available change.scope change.name
    · exact fun _ _ _ _ _ => available
    · refine (ensures_applyDelta_unavailable available change.amount validate).mono ?_
      rintro result after ⟨-, zero⟩ amount isAmount nonzero
      exact absurd (zero amount isAmount) nonzero
  have records : Ensures fit (engine.applyDelta change.scope change.name change.amount validate)
      store fun result after => ∀ scope name quota, lookup store scope name = some quota →
        engine.ChangesRecord change validate scope name quota result after :=
    Action.ensures_forall fun scope => Action.ensures_forall fun name =>
      Action.ensures_forall fun quota => Action.ensures_forall fun found =>
        ensures_applyDelta_record found change validate
  exact (reports.and records).mono fun _ _ both => ⟨both.1, both.2⟩

end Records

section Batch

/-- A log unwinds to some goals if taking back its changes, the latest first, leads every quota from
before that is not summed to its goal. Each change of the log was requested, and only requested
changes have touched the records from before. -/
structure Unwinds (engine : Engine) (before : σ) (requests : List Change)
    (goal : Entity → String → Quota → Amount → Prop) (changes : List Change) (store : σ) : Prop where
  requested : ∀ change ∈ changes,
    ∃ request ∈ requests, request.scope = change.scope ∧ request.name = change.name
  available : ∀ change ∈ changes, change.amount ≠ 0 → engine.Available change.scope change.name
  records : ∀ scope name quota, lookup before scope name = some quota →
    ∃ usage, lookup store scope name = some { quota with usage } ∧
      ((∀ request ∈ requests, ¬ engine.Touches request.scope request.name scope name) →
        usage = quota.usage) ∧
      (engine.Plain scope name → 0 ≤ quota.usage → ∀ start, goal scope name quota start →
        Stems start (amounts changes scope name) usage)

/-- Before a batch is interrupted, it can still be taken back as a whole. -/
def RestoresAll (_ : Entity) (_ : String) (quota : Quota) (start : Amount) : Prop :=
  start = quota.usage

/-- The usage of a failing change stands if no earlier request was about it, and all others are still
taken back. -/
def RestoresOthers (failing : Change) (earlier : List Change) (scope : Entity) (name : String)
    (quota : Quota) (start : Amount) : Prop :=
  if failing.scope = scope ∧ failing.name = name then
    (∀ request ∈ earlier, ¬ (request.scope = scope ∧ request.name = name)) ∧
      start = max (quota.usage + failing.amount) 0
  else start = quota.usage

/-- A failing change has moved its usage if no earlier request was about it. -/
def Moves (engine : Engine) (before : σ) (failing : Change) (earlier : List Change) : Prop :=
  ∀ quota, engine.Plain failing.scope failing.name →
    lookup before failing.scope failing.name = some quota → 0 ≤ quota.usage →
    (∀ request ∈ earlier, ¬ (request.scope = failing.scope ∧ request.name = failing.name)) →
    max (quota.usage + failing.amount) 0 ≠ quota.usage

variable {before store : σ} {requests changes : List Change} {validate : Bool}
  {goal : Entity → String → Quota → Amount → Prop}

/-- A change of one quota touches no other that is not summed. -/
theorem Plain.not_touches {scope place : Entity} {name label : String}
    (plain : engine.Plain scope name) (other : ¬ (place = scope ∧ label = name)) :
    ¬ engine.Touches place label scope name := by
  rintro (⟨rfl, rfl⟩ | reaches)
  · exact other ⟨rfl, rfl⟩
  · exact plain.unreached place reaches

/-- Before the first change there is nothing to take back. -/
theorem unwinds_nil (engine : Engine) (before : σ) :
    engine.Unwinds before [] RestoresAll [] before where
  requested := List.forall_mem_nil _
  available := List.forall_mem_nil _
  records scope name quota found := by
    refine ⟨quota.usage, found, fun _ => rfl, fun _ floor start isUsage => ?_⟩
    rw [isUsage]
    exact stems_nil floor

/-- A quota that was not requested has no amounts in the log. -/
theorem Unwinds.amounts_eq_nil (log : engine.Unwinds before requests goal changes store)
    {scope : Entity} {name : String}
    (none : ∀ request ∈ requests, ¬ (request.scope = scope ∧ request.name = name)) :
    amounts changes scope name = [] := by
  rw [amounts, List.map_eq_nil_iff, List.filter_eq_nil_iff]
  intro change member same
  obtain ⟨request, listed, sameScope, sameName⟩ := log.requested change member
  rw [decide_eq_true_eq, ← sameScope, ← sameName] at same
  exact none request listed same

variable {request change failing : Change} {result : Except QuotaError Amount} {after : σ}

/-- A change that succeeds is added to the log. -/
theorem Unwinds.add (log : engine.Unwinds before requests RestoresAll changes store)
    {amount : Amount} (changed : engine.ChangedBy request validate store (.ok amount) after) :
    engine.Unwinds before (request :: requests) RestoresAll ({ request with amount } :: changes)
      after where
  requested := by
    refine List.forall_mem_cons.2 ⟨⟨request, List.mem_cons_self, rfl, rfl⟩, fun change member => ?_⟩
    obtain ⟨other, listed, same⟩ := log.requested change member
    exact ⟨other, List.mem_cons_of_mem _ listed, same⟩
  available := List.forall_mem_cons.2 ⟨changed.available amount rfl, log.available⟩
  records scope name quota found := by
    obtain ⟨usage, here, untouched, unwinds⟩ := log.records scope name quota found
    obtain ⟨later, kept, still, writes⟩ := changed.records scope name _ here
    refine ⟨later, kept, fun none => ?_, fun plain floor start restores => ?_⟩
    · obtain ⟨first, others⟩ := List.forall_mem_cons.1 none
      exact (still first).trans (untouched others)
    have stems := unwinds plain floor start restores
    by_cases own : request.scope = scope ∧ request.name = name
    · obtain ⟨isLater, isAmount⟩ := writes own (plain.unreached scope) stems.nonneg
      obtain ⟨rfl, rfl⟩ := own
      rw [amounts_cons_self, isAmount, isLater]
      exact stems.change request.amount
    · rw [still (plain.not_touches own)]
      rwa [← amounts_cons_of_ne (show ¬ ((⟨request.scope, request.name, amount⟩ : Change).scope =
        scope ∧ _) from own)] at stems

/-- A change that fails for the hierarchy has been written, and without an earlier request about its
quota it started from the usage before the batch. -/
theorem Unwinds.written (log : engine.Unwinds before requests RestoresAll changes store)
    {deep : Entity}
    (changed : engine.ChangedBy failing validate store (.error (.hierarchyTooDeep deep)) after)
    {quota : Quota} (plain : engine.Plain failing.scope failing.name)
    (found : lookup before failing.scope failing.name = some quota) (floor : 0 ≤ quota.usage)
    (none : ∀ request ∈ requests,
      ¬ (request.scope = failing.scope ∧ request.name = failing.name)) :
    lookup after failing.scope failing.name =
        some { quota with usage := max (quota.usage + failing.amount) 0 } ∧
      max (quota.usage + failing.amount) 0 ≠ quota.usage := by
  obtain ⟨usage, here, -, unwinds⟩ := log.records _ _ quota found
  obtain ⟨later, kept, -, writes⟩ := changed.records _ _ _ here
  have stems := unwinds plain floor quota.usage rfl
  rw [log.amounts_eq_nil none] at stems
  obtain rfl := stems.eq_start
  rcases writes ⟨rfl, rfl⟩ (plain.unreached failing.scope) floor with ⟨rfl, moved⟩ | ⟨-, -, other⟩
  · exact ⟨kept, moved⟩
  · exact absurd rfl (other deep)

/-- A change that fails for the hierarchy interrupts the log, because its usage stays as written. -/
theorem Unwinds.interrupt (log : engine.Unwinds before requests RestoresAll changes store)
    {deep : Entity}
    (changed : engine.ChangedBy failing validate store (.error (.hierarchyTooDeep deep)) after) :
    engine.Unwinds before (failing :: requests) (RestoresOthers failing requests) changes
      after where
  requested change member := by
    obtain ⟨other, listed, same⟩ := log.requested change member
    exact ⟨other, List.mem_cons_of_mem _ listed, same⟩
  available := log.available
  records scope name quota found := by
    obtain ⟨usage, here, untouched, unwinds⟩ := log.records scope name quota found
    obtain ⟨later, kept, still, -⟩ := changed.records scope name _ here
    refine ⟨later, kept, fun none => ?_, fun plain floor start restores => ?_⟩
    · obtain ⟨first, others⟩ := List.forall_mem_cons.1 none
      exact (still first).trans (untouched others)
    unfold RestoresOthers at restores
    split at restores
    · rename_i own
      obtain ⟨rfl, rfl⟩ := own
      obtain ⟨none, rfl⟩ := restores
      have stands := (log.written changed plain found floor none).1
      rw [kept] at stands
      obtain rfl : later = max (quota.usage + failing.amount) 0 :=
        congrArg Quota.usage (Option.some.inj stands)
      rw [log.amounts_eq_nil none]
      exact stems_nil (Amount.zero_le_value_max_zero _)
    · rename_i other
      rw [still (plain.not_touches other)]
      exact unwinds plain floor start restores

/-- Taking back the latest change removes it from the log, whether this is reported as a success or
not. -/
theorem Unwinds.remove (log : engine.Unwinds before requests goal (change :: changes) store)
    (changed : engine.ChangedBy { change with amount := -change.amount } false store result after) :
    engine.Unwinds before requests goal changes after where
  requested := (List.forall_mem_cons.1 log.requested).2
  available := (List.forall_mem_cons.1 log.available).2
  records scope name quota found := by
    obtain ⟨usage, here, untouched, unwinds⟩ := log.records scope name quota found
    obtain ⟨later, kept, still, writes⟩ := changed.records scope name _ here
    refine ⟨later, kept, fun none => ?_, fun plain floor start restores => ?_⟩
    · obtain ⟨request, listed, sameScope, sameName⟩ :=
        log.requested change List.mem_cons_self
      refine (still ?_).trans (untouched none)
      rw [← sameScope, ← sameName]
      exact none request listed
    have stems := unwinds plain floor start restores
    by_cases own : change.scope = scope ∧ change.name = name
    · have isLater : later = max (usage + -change.amount) 0 := by
        have wrote := writes own (plain.unreached scope) stems.nonneg
        rcases result with error | amount
        · rcases wrote with ⟨isLater, -⟩ | ⟨nonzero, refusable, -⟩
          · exact isLater
          · -- A change that has been applied is of an available quota, and is taken back unchecked.
            obtain ⟨rfl, rfl⟩ := own
            have available := log.available change List.mem_cons_self fun zero =>
              nonzero (by rw [zero]; rfl)
            cases refusable available
        · exact wrote.1
      obtain ⟨scope, name, amount⟩ := change
      obtain ⟨rfl, rfl⟩ := own
      rw [amounts_cons_self] at stems
      rw [isLater]
      exact stems.takeBack
    · rw [amounts_cons_of_ne own] at stems
      rw [still (plain.not_touches own)]
      exact stems

/-- Taking back all changes of a log leads the quotas to their goals. -/
theorem ensures_compensate_unwinds (log : engine.Unwinds before requests goal changes store) :
    Ensures fit (engine.compensate changes) store fun _ after =>
      engine.Unwinds before requests goal [] after :=
  (ensures_compensate_of_takeBack (engine.Unwinds before requests goal)
    (fun {change} {_} {store} log =>
      (ensures_applyDelta_changedBy { change with amount := -change.amount } false store).mono
        fun _ _ changed => log.remove changed) changes log).mono fun _ _ unwound => unwound.2

/-- A batch that is interrupted has applied some requests, and it has taken back all of them. -/
theorem ensures_applyAll_interrupted (remaining : List Change)
    (log : engine.Unwinds before requests RestoresAll changes store) :
    Ensures fit (engine.applyAll validate (remaining.map .ok) changes) store fun result after =>
      ∀ deep, result = .error (.hierarchyTooDeep deep) →
        ∃ earlier failing later, remaining = earlier ++ failing :: later ∧
          engine.Unwinds before (failing :: (earlier.reverse ++ requests))
            (RestoresOthers failing (earlier.reverse ++ requests)) [] after ∧
          engine.Moves before failing (earlier.reverse ++ requests) := by
  induction remaining generalizing requests changes store with
  | nil => exact Action.ensures_pure (by rintro _ ⟨⟩)
  | cons request remaining inductionHypothesis =>
      rw [List.map_cons]
      refine ensures_applyAll_of_steps
        ((ensures_applyDelta_changedBy request validate store).mono ?_)
      rintro (error | amount) middle changed
      · by_cases tooDeep : ∃ deep, error = .hierarchyTooDeep deep
        · obtain ⟨deep, rfl⟩ := tooDeep
          refine (ensures_compensate_unwinds (log.interrupt changed)).mono ?_
          intro _ after unwound _ _
          exact ⟨[], request, remaining, rfl, unwound,
            fun quota plain found floor none => (log.written changed plain found floor none).2⟩
        · refine (ensures_compensate_ok changes).mono fun _ after _ deep failed => ?_
          exact absurd ⟨deep, Except.error.inj failed⟩ tooDeep
      · refine (inductionHypothesis (log.add changed)).mono ?_
        intro result after interrupts deep failed
        obtain ⟨earlier, failing, later, rfl, unwound, moves⟩ := interrupts deep failed
        refine ⟨request :: earlier, failing, later, rfl, ?_⟩
        rw [List.reverse_cons, List.append_assoc]
        exact ⟨unwound, moves⟩

/-- A batch was interrupted by a failing change if no record has lost its limit or was changed from
afar, and if of the quotas that are not summed only the failing one was not taken back. -/
structure Interrupted (engine : Engine) (earlier : List Change) (failing : Change)
    (before after : σ) : Prop where
  limits : ∀ scope name quota, lookup before scope name = some quota →
    ∃ usage, lookup after scope name = some { quota with usage }
  elsewhere : ∀ scope name quota, lookup before scope name = some quota →
    (∀ request ∈ failing :: earlier, ¬ engine.Touches request.scope request.name scope name) →
    lookup after scope name = some quota
  restored : ∀ scope name quota, lookup before scope name = some quota →
    engine.Plain scope name → 0 ≤ quota.usage →
    ¬ (failing.scope = scope ∧ failing.name = name) → lookup after scope name = some quota
  standing : ∀ quota, lookup before failing.scope failing.name = some quota →
    engine.Plain failing.scope failing.name → 0 ≤ quota.usage →
    (∀ request ∈ earlier, ¬ (request.scope = failing.scope ∧ request.name = failing.name)) →
    lookup after failing.scope failing.name =
        some { quota with usage := max (quota.usage + failing.amount) 0 } ∧
      max (quota.usage + failing.amount) 0 ≠ quota.usage

/-- Once its log is empty, an interrupted batch has left what it promised to leave. -/
theorem Unwinds.interrupted {earlier : List Change}
    (log : engine.Unwinds before (failing :: requests) (RestoresOthers failing requests) [] after)
    (moves : engine.Moves before failing requests) (listed : requests ⊆ earlier) :
    engine.Interrupted earlier failing before after where
  limits scope name quota found := by
    obtain ⟨usage, kept, -⟩ := log.records scope name quota found
    exact ⟨usage, kept⟩
  elsewhere scope name quota found none := by
    obtain ⟨usage, kept, untouched, -⟩ := log.records scope name quota found
    rw [kept, untouched fun request member =>
      none request (List.cons_subset_cons failing listed member)]
  restored scope name quota found plain floor other := by
    obtain ⟨usage, kept, -, unwinds⟩ := log.records scope name quota found
    have restores : RestoresOthers failing requests scope name quota quota.usage := by
      rw [RestoresOthers, if_neg other]
    rw [kept, (unwinds plain floor _ restores).eq_start]
  standing quota found plain floor none := by
    have fresh := fun request member => none request (listed member)
    obtain ⟨usage, kept, -, unwinds⟩ := log.records _ _ quota found
    have restores : RestoresOthers failing requests failing.scope failing.name quota
        (max (quota.usage + failing.amount) 0) := by
      rw [RestoresOthers, if_pos ⟨rfl, rfl⟩]
      exact ⟨fresh, rfl⟩
    rw [kept, (unwinds plain floor _ restores).eq_start]
    exact ⟨rfl, moves quota plain found floor fresh⟩

/-- A batch that fails for the hierarchy was interrupted by one of its requests, and leaves the
usage of that request changed. A change is written before it spreads, so the one whose spreading
fails stands, while those before it are taken back. -/
theorem applyChanges_interrupted (engine : Engine) (scopes : List Entity)
    (deltas : List (String × Amount)) (multiplier : Amount) (validate : Bool) (store : σ)
    (deep : Entity)
    (failed : Action.outcome (engine.applyChanges scopes deltas multiplier validate) store =
      .error (.hierarchyTooDeep deep)) :
    ∃ earlier failing later,
      Engine.requests scopes deltas multiplier = earlier ++ failing :: later ∧
      engine.Interrupted earlier failing store
        (Action.after (engine.applyChanges scopes deltas multiplier validate) store) := by
  have fits : RecordedStore.AllFit (fun _ _ => True)
      (Action.history (engine.applyChanges scopes deltas multiplier validate) store) :=
    fun _ _ => trivial
  have interrupts :=
    (ensures_applyAll_interrupted (Engine.requests scopes deltas multiplier)
      (unwinds_nil engine store)).of_allFit
      (RecordedStore.answersAlike.applyChanges engine scopes deltas multiplier validate) fits
  obtain ⟨earlier, failing, later, split, unwound, moves⟩ := interrupts deep failed
  refine ⟨earlier, failing, later, split, unwound.interrupted moves ?_⟩
  rw [List.append_nil]
  exact fun _ member => List.mem_reverse.1 member

end Batch

end Engine

section Sample

/-- Only the storage of teams is summed. -/
def storageRegistry : Registry where
  registrations :=
    [⟨"organization", sampleSum "storage" .usage⟩, ⟨"team", { name := "storage" }⟩,
      ⟨"team", { name := "seats" }⟩]
  distinct := by decide

def loopEngine : Engine := ⟨storageRegistry, loopGraph⟩

/-- Both usages are stored before the change. -/
def stockedStore : MemoryStore :=
  ((MemoryStore.empty.put sampleOrganization "storage" ⟨.unlimited, 1⟩).put sampleTeam "storage"
    ⟨10, 1⟩).put sampleTeam "seats" ⟨10, 4⟩

/-- The first change is taken back, and the second one, which meets the loop, stands. -/
theorem applyChanges_interrupted_sample :
    Action.outcome (loopEngine.applyChanges [sampleTeam] [("seats", 2), ("storage", 3)] 1 true)
        stockedStore = .error (.hierarchyTooDeep sampleOrganization) ∧
      ∃ earlier failing later,
        Engine.requests [sampleTeam] [("seats", 2), ("storage", 3)] 1 =
            earlier ++ failing :: later ∧
          loopEngine.Interrupted earlier failing stockedStore (Action.after
            (loopEngine.applyChanges [sampleTeam] [("seats", 2), ("storage", 3)] 1 true)
            stockedStore) := by
  have failed : Action.outcome (loopEngine.applyChanges [sampleTeam]
      [("seats", 2), ("storage", 3)] 1 true) stockedStore =
        .error (.hierarchyTooDeep sampleOrganization) := by decide +kernel
  exact ⟨failed, Engine.applyChanges_interrupted loopEngine [sampleTeam]
    [("seats", 2), ("storage", 3)] 1 true stockedStore sampleOrganization failed⟩

/-- A batch that fails for the hierarchy is not taken back as a whole. -/
theorem interrupted_not_restored :
    ¬ ∀ (engine : Engine) (scopes : List Entity) (deltas : List (String × Amount))
      (multiplier : Amount) (validate : Bool) (store : MemoryStore) (deep : Entity),
      Action.outcome (engine.applyChanges scopes deltas multiplier validate) store =
        .error (.hierarchyTooDeep deep) →
      ∀ scope name quota, store.lookup scope name = some quota →
        (Action.after (engine.applyChanges scopes deltas multiplier validate) store).lookup scope
          name = some quota := by
  intro claimed
  let store : MemoryStore :=
    (MemoryStore.empty.put sampleOrganization "storage" ⟨.unlimited, 0⟩).put sampleTeam "storage"
      ⟨.unlimited, 0⟩
  have restored := claimed loopEngine [sampleTeam] [("storage", 3)] 1 true store sampleOrganization
    (by decide +kernel) sampleTeam "storage" ⟨.unlimited, 0⟩ (by decide +kernel)
  have stands : (Action.after (loopEngine.applyChanges [sampleTeam] [("storage", 3)] 1 true)
      store).lookup sampleTeam "storage" = some ⟨.unlimited, 3⟩ := by decide +kernel
  rw [restored] at stands
  exact absurd stands (by decide)

end Sample

end HierarchicalQuota
