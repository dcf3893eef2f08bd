import HierarchicalQuota.Proofs.Updates

namespace HierarchicalQuota

open HierarchicalQuota.Action (Ensures)
open LawfulStore (lookup put drop list)

variable {σ : Type} [QuotaStore σ] [LawfulStore σ]

namespace Engine

variable {engine : Engine} {fit : StoreCall → σ → Prop}

/-- A scope is covered if every aggregate above it is stored. -/
def Covered (engine : Engine) (store : σ) (scope : Entity) : Prop :=
  ∀ aggregate, engine.AggregateAbove scope aggregate →
    stored store aggregate.scope aggregate.field.name = true

/-- A scope stays covered when more records are stored. -/
theorem Covered.mono {before after : σ} {scope : Entity} (covered : engine.Covered before scope)
    (kept : ∀ other label, stored before other label = true → stored after other label = true) :
    engine.Covered after scope :=
  fun aggregate above => kept _ _ (covered aggregate above)

/-- A scope is covered if its parents are and have all their aggregates. -/
theorem covered_of_parents {store : σ} {scope : Entity}
    (parents : ∀ parent ∈ engine.graph.quotaParents scope, engine.Covered store parent ∧
      ∀ field ∈ engine.registry.fields parent.kind, field.aggregator?.isSome →
        field.isConnected parent engine.graph → stored store parent field.name = true) :
    engine.Covered store scope := by
  rintro ⟨place, field⟩ ⟨present, above⟩
  rcases Relation.TransGen.head'_iff.1 above with ⟨parent, hop, rest⟩
  obtain ⟨covered, aggregates⟩ := parents parent hop
  rcases Relation.reflTransGen_iff_eq_or_transGen.1 rest with same | higher
  · obtain rfl : place = parent := same
    exact aggregates field present.registered present.aggregator present.connected
  · exact covered ⟨place, field⟩ ⟨present, higher⟩

/-- All scopes are covered where the quota parents in the graph have all their aggregates. -/
theorem covered_of_stored {store : σ}
    (aggregates : ∀ child ∈ engine.graph.nodes.keys, ∀ parent ∈ engine.graph.quotaParents child,
      ∀ field ∈ engine.registry.fields parent.kind, field.aggregator?.isSome →
        field.isConnected parent engine.graph → stored store parent field.name = true)
    (scope : Entity) : engine.Covered store scope := by
  rintro aggregate ⟨present, above⟩
  obtain ⟨child, hop⟩ := Graph.Above.exists_child above
  exact aggregates child (Graph.mem_keys_of_mem_quotaParents hop) _ hop _ present.registered
    present.aggregator present.connected

/-- This number counts the paths that lead from a child's measure to an aggregate. -/
def paths (engine : Engine) (child : Entity) (quota : String) (measure : Measure) (scope : Entity)
    (name : String) : Nat :=
  engine.chains (fun _ _ => true) maxHierarchyDepth child quota measure scope name

/-- No path leads to an aggregate out of reach. -/
theorem paths_eq_zero {child scope : Entity} {quota name : String} {measure : Measure}
    (unreached : ¬ engine.Reaches child scope name) :
    engine.paths child quota measure scope name = 0 := chains_eq_zero unreached

/-- Where everything above is stored, no chain is interrupted. -/
theorem chains_of_covered {store : σ} {levels : Nat} {child scope : Entity} {quota name : String}
    {measure : Measure} (covered : engine.Covered store child) :
    engine.chains (stored store) levels child quota measure scope name =
      engine.chains (fun _ _ => true) levels child quota measure scope name := by
  induction levels generalizing child quota measure with
  | zero => rfl
  | succ levels inductionHypothesis =>
      have all : (engine.aggregatesOver child quota measure).filter (fun aggregate =>
          stored store aggregate.scope aggregate.field.name) =
            (engine.aggregatesOver child quota measure).filter fun _ => true :=
        List.filter_congr fun aggregate member => covered aggregate (aggregateAbove_of_mem member)
      rw [chains, chains, all]
      congr 1
      apply List.map_congr_left
      intro aggregate member
      have above := aggregateAbove_of_mem (List.mem_filter.1 member).1
      rw [inductionHypothesis fun other higher => covered other (.trans above.above higher)]

/-- A shift that is exact adds exactly. -/
theorem shiftsExactly_storeExact : ShiftsExactly (StoreCall.Exact : StoreCall → σ → Prop) :=
  fun _ _ _ _ quota exact found => exact quota found

variable (shallow : engine.graph.Shallow)

include shallow

/-- A change that spreads from a covered scope finds no aggregate missing. -/
theorem ensures_spread_covered {child : Entity} {quota : String} {measure : Measure}
    {delta : Amount} {store : σ} (covered : engine.Covered store child)
    (shiftable : Shiftable fit store delta (engine.paths child quota measure)) :
    Ensures fit (engine.spread child quota measure delta) store fun result after =>
      result = .ok [] ∧ Moved store after fun scope name =>
        delta.value * engine.paths child quota measure scope name := by
  refine (ensures_propagate engine maxHierarchyDepth child quota measure delta store
    (shallow child) (shiftable.mono fun _ _ => (chains_of_covered covered).le)).mono ?_
  rintro _ after ⟨missing, rfl, moved, above⟩
  constructor
  · congr 1
    apply List.eq_nil_iff_forall_not_mem.2
    intro aggregate member
    obtain ⟨higher, absent⟩ := above aggregate member
    have present := covered aggregate higher
    rw [stored, absent] at present
    cases present
  · apply moved.congr
    intro scope name _
    rw [chains_of_covered covered, paths]

/-- A change is passed on as it was stored, along all paths. -/
theorem ensures_childChanged_covered {scope : Entity} {name : String} {measure : Measure}
    {old new : Amount} {store : σ} (covered : engine.Covered store scope)
    (shiftable : Shiftable fit store (new - old) (engine.paths scope name measure)) :
    Ensures fit (engine.childChanged scope name measure old new) store
      fun result after => result = .ok ⟨⟩ ∧ Moved store after fun other label =>
        (new - old).value * engine.paths scope name measure other label := by
  unfold childChanged
  refine Action.ensures_bind (fun _ => inferInstance)
    ((ensures_spread_covered shallow covered shiftable).mono ?_)
  rintro _ after ⟨rfl, moved⟩
  exact Action.ensures_pure ⟨rfl, moved⟩

omit shallow in
/-- A quota that is stored and connected is only read. -/
theorem ensures_getOrCreate_stored {scope : Entity} {name : String} {field : Field} {quota : Quota}
    {store : σ}
    (known : engine.registry.field? scope.kind name = some field)
    (connected : field.isConnected scope engine.graph = true)
    (found : lookup store scope name = some quota) :
    Ensures fit (engine.getOrCreate scope name) store fun result after =>
      result = .ok quota ∧ after = store := by
  obtain ⟨registered, rfl⟩ := Registry.field?_eq_some_iff.1 known
  refine ensures_getOrCreate_of_ensure registered connected
    (ensures_ensure_of_steps (fun other otherFound => ?_) fun absent => ?_)
  · obtain rfl := Option.some.inj (otherFound.symm.trans found)
    exact ⟨rfl, rfl⟩
  · rw [found] at absent
    cases absent

/-- A usage that is set below covered scopes passes on its change, and nothing is created. -/
theorem ensures_setUsage_covered (exact : ShiftsExactly fit) {scope : Entity} {name : String}
    {field : Field} {quota : Quota} {store : σ}
    (known : engine.registry.field? scope.kind name = some field)
    (connected : field.isConnected scope engine.graph = true)
    (found : lookup store scope name = some quota) (covered : engine.Covered store scope)
    (usage : Amount) :
    Ensures fit (engine.setUsage scope name usage) store fun result after =>
      result = .ok ⟨⟩ ∧ Moved (put store scope name { quota with usage := max usage 0 }) after
        fun other label =>
          (max usage 0 - quota.usage).value * engine.paths scope name .usage other label := by
  unfold setUsage
  refine Action.ensures_bind (fun _ => inferInstance) (Action.ensures_discard
    ((ensures_getOrCreate_stored known connected found).mono ?_))
  rintro _ store ⟨rfl, rfl⟩
  refine Action.ensures_bind (fun _ => inferInstance) (Action.ensures_access
    (Action.ensures_setUsage (fun other otherFound _ => ?_) fun absent => ?_))
  · obtain rfl := Option.some.inj (found.symm.trans otherFound)
    refine ensures_childChanged_covered shallow ?_ (.inl exact)
    apply covered.mono
    intro other label present
    rwa [(Moved.of_put found _).stored_eq]
  · rw [found] at absent
    cases absent

/-- A changed usage moves its own record once and the aggregates above along all paths. -/
def impact (engine : Engine) (scope : Entity) (name : String) (other : Entity) (label : String) :
    Int :=
  (if scope = other ∧ name = label then 1 else 0) + engine.paths scope name .usage other label

/-- In a shallow hierarchy no path leads back, so a usage moves its own record once. -/
theorem impact_self (scope : Entity) (name : String) :
    engine.impact scope name scope name = 1 := by
  rw [impact, if_pos ⟨rfl, rfl⟩, paths_eq_zero (not_reaches_self shallow scope name)]
  rfl

omit shallow in
/-- A change has no impact on other records out of its reach. -/
theorem impact_eq_zero {scope other : Entity} {name label : String}
    (different : ¬ (scope = other ∧ name = label))
    (unreached : ¬ engine.Reaches scope other label) :
    engine.impact scope name other label = 0 := by
  rw [impact, if_neg different, paths_eq_zero unreached]
  rfl

/-- This number is the change that is stored when a change is asked for. -/
def applied (quota : Quota) (delta : Amount) : Int :=
  if delta = 0 then 0 else max (quota.usage.value + delta.value) 0 - quota.usage.value

/-- A change of a stored usage below covered scopes is either passed on to all levels as it was
stored, or refused. -/
theorem ensures_applyDelta_stored {scope : Entity} {name : String} {field : Field} {quota : Quota}
    {store : σ}
    (known : engine.registry.field? scope.kind name = some field)
    (connected : field.isConnected scope engine.graph = true)
    (found : lookup store scope name = some quota) (covered : engine.Covered store scope)
    (delta : Amount) (validate : Bool)
    (shiftable : Shiftable fit (put store scope name
      { quota with usage := max (quota.usage + delta) 0 })
      (max (quota.usage + delta) 0 - quota.usage) (engine.paths scope name .usage))
    (difference : fit (.addUsage scope name delta validate) store →
      (max (quota.usage + delta) 0).SubtractsExactly quota.usage) :
    Ensures fit (engine.applyDelta scope name delta validate) store fun result after =>
      match result with
      | .ok amount =>
          amount = (if delta = 0 then 0 else max (quota.usage + delta) 0 - quota.usage) ∧
            (delta ≠ 0 → fit (.addUsage scope name delta validate) store) ∧
            Moved store after fun other label =>
              amount.value * engine.impact scope name other label
      | .error error => after = store ∧ validate = true ∧ 0 < delta ∧
          ∃ limit requested, error = .limitExceeded ⟨scope, name, limit, requested⟩ := by
  refine ensures_applyDelta_of_steps (fun zero => ?_) fun nonzero =>
    (ensures_getOrCreate_stored known connected found).mono ?_
  · refine ⟨(if_pos zero).symm, fun nonzero => absurd zero nonzero, (Moved.refl store).congr ?_⟩
    intro other label _
    rw [Amount.value_zero, zero_mul]
  rintro _ store ⟨rfl, rfl⟩
  rw [if_neg nonzero]
  refine Action.ensures_addUsage (fun other otherFound fits _ => ?_) (fun _ _ validated rises => ?_)
    fun absent => ?_
  · obtain rfl := Option.some.inj (found.symm.trans otherFound)
    -- The write loses no record, so all aggregates above are still stored.
    have covers : engine.Covered (put store scope name
        { quota with usage := max (quota.usage + delta) 0 }) scope := by
      apply covered.mono
      intro other label present
      rwa [(Moved.of_put found _).stored_eq]
    refine (ensures_childChanged_covered shallow covers shiftable).mono ?_
    rintro _ after ⟨rfl, moved⟩
    refine ⟨rfl, fun _ => fits, ((Moved.of_put found _).trans moved).congr ?_⟩
    intro other label _
    rw [show (max (quota.usage + delta) 0 - quota.usage).value = _ from difference fits, impact]
    split <;> ring
  · exact ⟨rfl, validated, rises, _, _, rfl⟩
  · rw [found] at absent
    cases absent

/-- A change of a stored usage below covered scopes is either applied at all levels or refused. -/
theorem ensures_applyDelta_covered {scope : Entity} {name : String} {field : Field}
    {quota : Quota} {store : σ} (known : engine.registry.field? scope.kind name = some field)
    (connected : field.isConnected scope engine.graph = true)
    (found : lookup store scope name = some quota) (covered : engine.Covered store scope)
    (delta : Amount) (validate : Bool) :
    Ensures StoreCall.Exact (engine.applyDelta scope name delta validate) store
      fun result after =>
        match result with
        | .ok amount => amount.value = applied quota delta ∧ Moved store after fun other label =>
            amount.value * engine.impact scope name other label
        | .error error => after = store ∧ validate = true ∧ 0 < delta ∧
            ∃ limit requested, error = .limitExceeded ⟨scope, name, limit, requested⟩ := by
  refine (ensures_applyDelta_stored shallow known connected found covered delta validate
    (.inl shiftsExactly_storeExact) fun exact => (exact quota found).2).mono ?_
  rintro (error | amount) after applies
  · exact applies
  obtain ⟨value, exact, moved⟩ := applies
  refine ⟨?_, moved⟩
  rw [value, applied]
  split
  · rfl
  · rename_i nonzero
    obtain ⟨sum, difference⟩ := exact nonzero quota found
    rw [show (max (quota.usage + delta) 0 - quota.usage).value = _ from difference,
      Amount.value_max, show (quota.usage + delta).value = _ from sum, Amount.value_zero]

/-- What a record has added to an aggregate along all paths. -/
def share (engine : Engine) (record : Record) (scope : Entity) (name : String) : Int :=
  record.quota.usage.value * engine.paths record.scope record.name .usage scope name +
    record.quota.limit.value * engine.paths record.scope record.name .limit scope name

omit shallow in
/-- A record has no share in aggregates out of its reach. -/
theorem share_eq_zero {record : Record} {scope : Entity} {name : String}
    (unreached : ¬ engine.Reaches record.scope scope name) :
    engine.share record scope name = 0 := by
  rw [share, paths_eq_zero unreached, paths_eq_zero unreached]
  simp

/-- What is announced from a covered scope adds its share to every aggregate above. -/
theorem ensures_announce_covered {scope : Entity} {name : String} {store : σ}
    (covered : engine.Covered store scope) (quota : Quota) :
    Ensures StoreCall.Exact (engine.announce scope name quota) store fun result after =>
      result = .ok [] ∧ Moved store after (engine.share ⟨scope, name, quota⟩) := by
  refine Action.ensures_bind (fun _ => inferInstance)
    ((ensures_spread_covered shallow covered (.inl shiftsExactly_storeExact)).mono ?_)
  rintro _ middle ⟨rfl, usageMoved⟩
  have covers : engine.Covered middle scope := by
    apply covered.mono
    intro other label present
    rwa [usageMoved.stored_eq]
  refine Action.ensures_bind (fun _ => inferInstance)
    ((ensures_spread_covered shallow covers (.inl shiftsExactly_storeExact)).mono ?_)
  rintro _ after ⟨rfl, limitMoved⟩
  exact Action.ensures_pure ⟨rfl, usageMoved.trans limitMoved⟩

/-- A record that is created below covered scopes adds its share to every aggregate above. -/
theorem ensures_ensure_covered {scope : Entity} {field : Field} {store : σ}
    (covered : engine.Covered store scope) (absent : lookup store scope field.name = none) :
    Ensures StoreCall.Exact (engine.ensure scope field) store fun result after =>
      result = .ok (engine.starting store scope field) ∧
        Moved (put store scope field.name (engine.starting store scope field)) after
          (engine.share ⟨scope, field.name, engine.starting store scope field⟩) := by
  have covers : engine.Covered (put store scope field.name (engine.starting store scope field))
      scope := by
    apply covered.mono
    intro other label present
    rw [stored, LawfulStore.lookup_put]
    split
    · rfl
    · exact present
  refine ensures_ensure_of_steps (fun quota found => ?_) fun _ => ?_
  · rw [absent] at found
    cases found
  rw [← engine.length_aggregateKeys]
  refine ensures_create_of_announce _ ⟨scope, field⟩ absent fun _ =>
    (ensures_announce_covered shallow covers _).mono ?_
  rintro _ after ⟨rfl, moved⟩
  exact Action.ensures_pure ⟨rfl, moved⟩

/-- Removed records take their shares back. -/
theorem ensures_collect_withdraw_covered {scope : Entity} (records : List Record)
    (ofScope : ∀ record ∈ records, record.scope = scope)
    (exact : ∀ record ∈ records,
      record.quota.usage.NegatesExactly ∧ record.quota.limit.NegatesExactly) {store : σ}
    (covered : engine.Covered store scope) :
    Ensures StoreCall.Exact (Action.collect (engine.withdraw scope) records) store fun result after =>
      result = .ok [] ∧ Moved store after fun other label =>
        -(records.map fun record => engine.share record other label).sum := by
  induction records generalizing store with
  | nil =>
      apply Action.ensures_pure
      refine ⟨rfl, (Moved.refl store).congr ?_⟩
      simp
  | cons record records inductionHypothesis =>
      obtain rfl := ofScope record List.mem_cons_self
      obtain ⟨usageExact, limitExact⟩ := exact record List.mem_cons_self
      unfold Action.collect
      rw [withdraw_eq_announce]
      refine Action.ensures_bind (fun _ => inferInstance)
        ((ensures_announce_covered shallow covered _).mono ?_)
      rintro _ middle ⟨rfl, withdrawn⟩
      have covers : engine.Covered middle record.scope := by
        apply covered.mono
        intro other label present
        rwa [withdrawn.stored_eq]
      refine Action.ensures_bind (fun _ => inferInstance)
        ((inductionHypothesis (fun other member => ofScope other (List.mem_cons_of_mem _ member))
          (fun other member => exact other (List.mem_cons_of_mem _ member)) covers).mono ?_)
      rintro _ after ⟨rfl, moved⟩
      refine Action.ensures_pure ⟨rfl, (withdrawn.trans moved).congr ?_⟩
      intro other label _
      rw [List.map_cons, List.sum_cons, share, share,
        show (-record.quota.usage).value = _ from usageExact,
        show (-record.quota.limit).value = _ from limitExact]
      ring

/-- A covered scope is removed with everything it has added to the aggregates above. -/
theorem ensures_childDeleted_covered {scope : Entity} {store : σ}
    (covered : engine.Covered store scope) :
    Ensures StoreCall.Exact (engine.childDeleted scope) store fun result after =>
      result = .ok ⟨⟩ ∧ Moved (drop store scope) after fun other label =>
        -((list store scope).map fun record => engine.share record other label).sum := by
  unfold childDeleted
  refine Action.ensures_bind (fun _ => inferInstance) (Action.ensures_access
    (Action.ensures_deleteScope fun exact => ?_))
  have covers : engine.Covered (drop store scope) scope := by
    intro aggregate above
    have elsewhere : scope ≠ aggregate.scope := by
      rintro rfl
      exact shallow.not_above_self _ above.above
    rw [stored, LawfulStore.lookup_drop, if_neg elsewhere]
    exact covered aggregate above
  refine Action.ensures_bind (fun _ => inferInstance) ((ensures_collect_withdraw_covered shallow _
    (fun record member => (LawfulStore.mem_list.1 member).1) exact covers).mono ?_)
  rintro _ after ⟨rfl, moved⟩
  exact Action.ensures_pure ⟨rfl, moved⟩

end Engine

end HierarchicalQuota
