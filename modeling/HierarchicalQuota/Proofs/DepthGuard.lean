import HierarchicalQuota.Proofs.Chains

namespace HierarchicalQuota

open HierarchicalQuota.Action (Ensures)
open LawfulStore (lookup put)

namespace Engine

variable {engine : Engine}

/-- A child's measure climbs to a scope if a chain of exactly that many hops ends there. -/
def ClimbsTo (engine : Engine) (levels : Nat) (child : Entity) (quota : String)
    (measure : Measure) (deep : Entity) : Prop :=
  ∃ hops name, hops.length = levels ∧ engine.Chain child quota measure hops deep name

/-- Without a hop a change is at its own scope. -/
theorem climbsTo_zero (child : Entity) (quota : String) (measure : Measure) :
    engine.ClimbsTo 0 child quota measure child :=
  ⟨[], quota, rfl, .nil⟩

/-- The first hop of a chain goes to an aggregate right above, and the others start there. -/
theorem climbsTo_succ_iff {levels : Nat} {child deep : Entity} {quota : String}
    {measure : Measure} :
    engine.ClimbsTo (levels + 1) child quota measure deep ↔
      ∃ aggregate ∈ engine.aggregatesOver child quota measure,
        engine.ClimbsTo levels aggregate.scope aggregate.field.name .usage deep := by
  simp only [← map_snd_hopsFrom, List.mem_map, Prod.exists, exists_eq_right, mem_hopsFrom]
  constructor
  · rintro ⟨hops, name, length, chain⟩
    cases chain with
    | nil => cases length
    | cons first rest => exact ⟨_, ⟨_, first⟩, _, name, Nat.succ.inj length, rest⟩
  · rintro ⟨aggregate, ⟨hop, first⟩, hops, name, rfl, rest⟩
    exact ⟨hop :: hops, name, rfl, .cons first rest⟩

/-- A long chain can be cut after any number of hops. -/
theorem Chain.climbsTo {child scope : Entity} {quota name : String} {measure : Measure}
    {hops : List Hop} (chain : engine.Chain child quota measure hops scope name) {levels : Nat}
    (long : levels ≤ hops.length) : ∃ deep, engine.ClimbsTo levels child quota measure deep := by
  induction chain generalizing levels with
  | nil =>
      obtain rfl := Nat.le_zero.1 long
      exact ⟨_, climbsTo_zero _ _ _⟩
  | cons first _ inductionHypothesis =>
      cases levels with
      | zero => exact ⟨_, climbsTo_zero _ _ _⟩
      | succ levels =>
          obtain ⟨deep, hops, name, length, rest⟩ :=
            inductionHypothesis (Nat.le_of_succ_le_succ long)
          exact ⟨deep, _ :: hops, name, congrArg Nat.succ length, .cons first rest⟩

variable {σ : Type} [QuotaStore σ] [LawfulStore σ] {fit : StoreCall → σ → Prop}

/-- A scope that is covered has covered aggregates above it. -/
theorem Covered.aggregate {store : σ} {child : Entity} {quota : String} {measure : Measure}
    {aggregate : Aggregate} (covered : engine.Covered store child)
    (member : aggregate ∈ engine.aggregatesOver child quota measure) :
    engine.Covered store aggregate.scope :=
  fun _ above => covered _ (.trans (aggregateAbove_of_mem member).above above)

/-- A walk is guarded if it fails at the end of a chain that is too long, and otherwise finds nothing
missing. It adds and removes no records in either case. -/
structure GuardedWalk (tooLong : Entity → Prop) (before : σ)
    (result : Except QuotaError (List Aggregate)) (after : σ) : Prop where
  sameStored : stored after = stored before
  succeeds : (∀ deep, ¬ tooLong deep) → result = .ok []
  fails : (∃ deep, tooLong deep) → ∃ deep, result = .error (.hierarchyTooDeep deep) ∧ tooLong deep

/-- A walk that succeeds with nothing missing is guarded if no chain is too long. -/
theorem guarded_of_ok {tooLong : Entity → Prop} {before after : σ}
    (sameStored : stored after = stored before) (short : ∀ deep, ¬ tooLong deep) :
    GuardedWalk tooLong before (.ok []) after :=
  ⟨sameStored, fun _ => rfl, fun ⟨deep, long⟩ => absurd long (short deep)⟩

/-- A walk that is too deep is guarded if there is such a chain. -/
theorem guarded_of_error {tooLong : Entity → Prop} {before after : σ} {deep : Entity}
    (sameStored : stored after = stored before) (long : tooLong deep) :
    GuardedWalk tooLong before (.error (.hierarchyTooDeep deep)) after :=
  ⟨sameStored, fun short => absurd long (short deep), fun _ => ⟨deep, rfl, long⟩⟩

/-- A guarded walk either succeeds or fails, so its two cases can be told from its outcome. -/
theorem GuardedWalk.cases {tooLong : Entity → Prop} {before after : σ}
    {result : Except QuotaError (List Aggregate)} (guarded : GuardedWalk tooLong before result after) :
    (result = .ok [] ∧ ∀ deep, ¬ tooLong deep) ∨
      ∃ deep, result = .error (.hierarchyTooDeep deep) ∧ tooLong deep := by
  by_cases long : ∃ deep, tooLong deep
  · exact .inr (guarded.fails long)
  · have short : ∀ deep, ¬ tooLong deep := fun deep tooLong => long ⟨deep, tooLong⟩
    exact .inl ⟨guarded.succeeds short, short⟩

/-- The walk over several aggregates stops at the first one that is too deep. -/
theorem ensures_collect_guarded {levels : Nat} {delta : Amount} (aggregates : List Aggregate)
    {store : σ}
    (each : ∀ aggregate ∈ aggregates, ∀ middle : σ, stored middle = stored store →
      Ensures fit (engine.propagate levels aggregate.scope aggregate.field.name .usage delta) middle
        (GuardedWalk (engine.ClimbsTo levels aggregate.scope aggregate.field.name .usage) middle)) :
    Ensures fit (Action.collect (fun (aggregate, change) =>
        engine.propagate levels aggregate.scope aggregate.field.name .usage change)
      (aggregates.map (·, delta))) store
      (GuardedWalk (fun deep => ∃ aggregate ∈ aggregates,
        engine.ClimbsTo levels aggregate.scope aggregate.field.name .usage deep) store) := by
  induction aggregates generalizing store with
  | nil => exact Action.ensures_pure (guarded_of_ok rfl (by simp))
  | cons aggregate rest inductionHypothesis =>
      refine Action.ensures_bind (fun _ => inferInstance)
        ((each aggregate List.mem_cons_self store rfl).mono ?_)
      intro result middle guarded
      rcases guarded.cases with ⟨rfl, short⟩ | ⟨deep, rfl, long⟩
      · refine Action.ensures_bind (fun _ => inferInstance) ((inductionHypothesis
          fun other member later same => each other (List.mem_cons_of_mem _ member) later
            (same.trans guarded.sameStored)).mono ?_)
        intro result after others
        have sameStored := others.sameStored.trans guarded.sameStored
        rcases others.cases with ⟨rfl, shortOthers⟩ | ⟨deep, rfl, other, member, long⟩
        · refine Action.ensures_pure (guarded_of_ok sameStored ?_)
          rintro deep ⟨other, member, long⟩
          rcases List.mem_cons.1 member with rfl | later
          · exact short deep long
          · exact shortOthers deep ⟨other, later, long⟩
        · exact guarded_of_error sameStored ⟨other, List.mem_cons_of_mem _ member, long⟩
      · exact guarded_of_error guarded.sameStored ⟨aggregate, List.mem_cons_self, long⟩

/-- Every aggregate above is stored and passes on the same change, so the walk fails exactly where a
chain is left when no levels are. The induction is on the levels. -/
theorem ensures_propagate_guarded (exact : ShiftsExactly fit) (levels : Nat) {child : Entity}
    {quota : String} {measure : Measure} {delta : Amount} (nonzero : delta ≠ 0) {store : σ}
    (covered : engine.Covered store child) :
    Ensures fit (engine.propagate levels child quota measure delta) store
      (GuardedWalk (engine.ClimbsTo levels child quota measure) store) := by
  induction levels generalizing child quota measure store with
  | zero =>
      unfold propagate
      rw [if_neg nonzero]
      exact Action.ensures_throw (guarded_of_error rfl (climbsTo_zero child quota measure))
  | succ levels inductionHypothesis =>
      -- Where everything is stored, all aggregates are shifted and none is found missing.
      have all : (engine.aggregatesOver child quota measure).filter (fun aggregate =>
          stored store aggregate.scope aggregate.field.name) =
            engine.aggregatesOver child quota measure :=
        List.filter_eq_self.2 fun aggregate member => covered aggregate (aggregateAbove_of_mem member)
      have none : (engine.aggregatesOver child quota measure).filter (fun aggregate =>
          !stored store aggregate.scope aggregate.field.name) = [] := by
        apply List.filter_eq_nil_iff.2
        intro aggregate member
        simp [covered aggregate (aggregateAbove_of_mem member)]
      unfold propagate
      rw [if_neg nonzero]
      refine Action.ensures_bind (fun _ => inferInstance) ((ensures_shiftAll _ _ _ (.inl exact)).mono ?_)
      rintro _ middle ⟨wave, rfl, shifted, missing, moved⟩
      rw [all] at shifted
      rw [none] at missing
      refine Action.ensures_bind (fun _ => inferInstance) ?_
      rw [shifted, ← List.map_reverse]
      refine (ensures_collect_guarded _ fun aggregate member later same =>
        inductionHypothesis ?_).mono ?_
      · refine (covered.aggregate (List.mem_reverse.1 member)).mono fun other label present => ?_
        rwa [same, moved.stored_eq]
      · intro result after guarded
        have sameStored := guarded.sameStored.trans moved.stored_eq
        rcases guarded.cases with ⟨rfl, short⟩ | ⟨deep, rfl, aggregate, member, long⟩
        · dsimp only
          rw [missing, List.append_nil]
          refine Action.ensures_pure (guarded_of_ok sameStored fun deep long => ?_)
          obtain ⟨aggregate, member, rest⟩ := climbsTo_succ_iff.1 long
          exact short deep ⟨aggregate, List.mem_reverse.2 member, rest⟩
        · exact guarded_of_error sameStored
            (climbsTo_succ_iff.2 ⟨aggregate, List.mem_reverse.1 member, long⟩)

/-- A usage that really changes spreads as far as its chains lead. -/
theorem ensures_setUsage_guarded (exact : ShiftsExactly fit) {scope : Entity} {name : String}
    {field : Field} {quota : Quota} {usage : Amount} {store : σ}
    (known : engine.registry.field? scope.kind name = some field)
    (connected : field.isConnected scope engine.graph = true)
    (found : lookup store scope name = some quota) (changes : max usage 0 ≠ quota.usage)
    (covered : engine.Covered store scope) :
    Ensures fit (engine.setUsage scope name usage) store fun result _ =>
      (∃ deep, result = .error (.hierarchyTooDeep deep) ∧
        engine.ClimbsTo maxHierarchyDepth scope name .usage deep) ∨
      (result = .ok ⟨⟩ ∧ ∀ deep, ¬ engine.ClimbsTo maxHierarchyDepth scope name .usage deep) := by
  unfold setUsage
  refine Action.ensures_bind (fun _ => inferInstance) (Action.ensures_discard
    ((ensures_getOrCreate_stored known connected found).mono ?_))
  rintro _ store ⟨rfl, rfl⟩
  refine Action.ensures_bind (fun _ => inferInstance) (Action.ensures_access
    (Action.ensures_setUsage (fun other otherFound _ => ?_) fun absent => ?_))
  · obtain rfl := Option.some.inj (found.symm.trans otherFound)
    have covers : engine.Covered (put store scope name { quota with usage := max usage 0 }) scope :=
      covered.mono fun other label present => by rwa [(Moved.of_put found _).stored_eq]
    unfold childChanged
    refine Action.ensures_bind (fun _ => inferInstance) ((ensures_propagate_guarded exact
      maxHierarchyDepth (Amount.sub_ne_zero changes) covers).mono ?_)
    intro result after guarded
    rcases guarded.cases with ⟨rfl, short⟩ | ⟨deep, rfl, long⟩
    · exact Action.ensures_pure (.inr ⟨rfl, short⟩)
    · exact .inl ⟨deep, rfl, long⟩
  · rw [found] at absent
    cases absent

/-- The guard is exact. Where all aggregates above are stored, setting a usage to another value fails
for the hierarchy if a chain has at least as many hops as the bound, and it succeeds otherwise, as
long as no aggregate is cut off. The error names the end of a chain of exactly that many hops. -/
theorem setUsage_tooDeep_iff_chain (engine : Engine) (scope : Entity) (name : String) (field : Field)
    (quota : Quota) (usage : Amount) (store : σ)
    (known : engine.registry.field? scope.kind name = some field)
    (connected : field.isConnected scope engine.graph = true)
    (found : lookup store scope name = some quota) (changes : max usage 0 ≠ quota.usage)
    (covered : engine.Covered store scope)
    (exact : RecordedStore.AllFit StoreCall.ExactShift
      (Action.history (engine.setUsage scope name usage) store)) :
    ((∃ hops other label, maxHierarchyDepth ≤ hops.length ∧
        engine.Chain scope name .usage hops other label) →
      ∃ deep, Action.outcome (engine.setUsage scope name usage) store =
          .error (.hierarchyTooDeep deep) ∧
        ∃ hops label, hops.length = maxHierarchyDepth ∧
          engine.Chain scope name .usage hops deep label) ∧
    ((∀ hops other label, engine.Chain scope name .usage hops other label →
        hops.length < maxHierarchyDepth) →
      Action.outcome (engine.setUsage scope name usage) store = .ok ⟨⟩) := by
  have guarded := (ensures_setUsage_guarded shiftsExactly_exactShift known connected found changes
    covered).of_allFit (RecordedStore.answersAlike.setQuotaUsage engine scope name usage) exact
  constructor
  · rintro ⟨hops, other, label, long, chain⟩
    obtain ⟨deep, climbs⟩ := chain.climbsTo long
    rcases guarded with ⟨deepest, failed, ends⟩ | ⟨-, short⟩
    · exact ⟨deepest, failed, ends⟩
    · exact absurd climbs (short deep)
  · intro short
    rcases guarded with ⟨deep, -, hops, label, length, chain⟩ | ⟨succeeded, -⟩
    · exact absurd length (short hops deep label chain).ne
    · exact succeeded

end Engine

section Sample

/-- The organization sums the storage of its teams. -/
def storageSum : Aggregate := ⟨sampleOrganization, sampleSum "storage" .usage⟩

/-- The organization is its own parent, so every chain to it can be made longer. -/
theorem chain_loopEngine (more : Nat) :
    loopEngine.Chain sampleTeam "storage" .usage (List.replicate (more + 1) ⟨0, "storage"⟩)
      sampleOrganization "storage" := by
  have loop (hops : Nat) : loopEngine.Chain sampleOrganization "storage" .usage
      (List.replicate hops ⟨0, "storage"⟩) sampleOrganization "storage" := by
    induction hops with
    | zero => exact .nil
    | succ hops inductionHypothesis =>
        have hop : loopEngine.HopsTo sampleOrganization "storage" .usage ⟨0, "storage"⟩ storageSum :=
          ⟨by decide +kernel, List.mem_cons_self, rfl, rfl, rfl, rfl⟩
        exact .cons hop inductionHypothesis
  have first : loopEngine.HopsTo sampleTeam "storage" .usage ⟨0, "storage"⟩ storageSum :=
    ⟨by decide +kernel, List.mem_cons_self, rfl, rfl, rfl, rfl⟩
  exact .cons first (loop more)

/-- The change of the team's storage never leaves the loop of its organization, and where there is no
loop it comes to an end. -/
theorem setUsage_tooDeep_iff_chain_sample :
    (∃ deep, Action.outcome (loopEngine.setUsage sampleTeam "storage" 4) stockedStore =
        .error (.hierarchyTooDeep deep)) ∧
      Action.outcome (sponsoredEngine.setUsage sampleTeam "storage" 4) stockedStore = .ok ⟨⟩ := by
  have looping := Engine.setUsage_tooDeep_iff_chain loopEngine sampleTeam "storage"
    { name := "storage" } ⟨10, 1⟩ 4 stockedStore rfl (by decide) (by decide +kernel) (by decide)
    (Engine.covered_of_stored (by decide +kernel) sampleTeam) (by decide +kernel)
  have ending := Engine.setUsage_tooDeep_iff_chain sponsoredEngine sampleTeam "storage"
    { name := "storage" } ⟨10, 1⟩ 4 stockedStore rfl (by decide) (by decide +kernel) (by decide)
    (Engine.covered_of_stored (by decide +kernel) sampleTeam) (by decide +kernel)
  constructor
  · obtain ⟨deep, failed, -⟩ := looping.1 ⟨_, _, _, (by rw [List.length_replicate]; decide),
      chain_loopEngine maxHierarchyDepth⟩
    exact ⟨deep, failed⟩
  · apply ending.2
    intro hops other label chain
    by_contra long
    exact shallow_sponsoredGraph sampleTeam (chain.climbs.of_le (Nat.le_of_not_lt long))

end Sample

end HierarchicalQuota
