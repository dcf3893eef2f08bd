import HierarchicalQuota.Proofs.Depth
import HierarchicalQuota.Proofs.Exactness
import HierarchicalQuota.Proofs.Registered

namespace HierarchicalQuota

open HierarchicalQuota.Action (Ensures)
open LawfulStore (lookup put)

variable {σ : Type} [QuotaStore σ] [LawfulStore σ]

/-- This number counts what a report tells of, records that were created or updated. -/
def Report.changes (report : Report) : Nat := report.created + report.updated

/-- A report is clean if it counts no change. -/
theorem Report.isClean_iff (report : Report) : report.isClean = true ↔ report.changes = 0 := by
  rw [isClean, decide_eq_true_eq, changes]
  omega

/-- The usage of a stored record. -/
def storedUsage? (store : σ) (scope : Entity) (name : String) : Option Amount :=
  (lookup store scope name).map Quota.usage

namespace Engine

/-- The usage that follows from the graph or from the stored children. A direct usage has none. -/
def expectedUsage? (engine : Engine) (store : σ) (scope : Entity) (field : Field) :
    Option Amount :=
  match field.rule with
  | .direct => none
  | .counter _ | .total _ => field.targetUsage? scope engine.graph
  | .aggregator _ => some (engine.childSum store scope field)

/-- A record that is missing is recalculated from the defaults. -/
def original (engine : Engine) (store : σ) (scope : Entity) (field : Field) : Quota :=
  (lookup store scope field.name).getD (field.initial scope engine.graph)

/-- A recalculation keeps the limit and replaces the usage if another one is expected. -/
def recalculated (engine : Engine) (store : σ) (scope : Entity) (field : Field) : Quota :=
  let quota := engine.original store scope field
  let usage? := engine.expectedUsage? (put store scope field.name quota) scope field
  { quota with usage := usage?.getD quota.usage }

/-- This number counts the repairs of one record, its creation and its update. -/
def repairs (engine : Engine) (store : σ) (scope : Entity) (field : Field) : Nat :=
  (if (lookup store scope field.name).isSome then 0 else 1) +
    if (engine.recalculated store scope field).usage = (engine.original store scope field).usage
    then 0 else 1

variable (engine : Engine) (scope : Entity) (field : Field)

/-- The engine reads the usage that is expected, and changes nothing. -/
theorem ensures_trueUsage (store : σ) :
    Ensures (fun _ _ => True) (engine.trueUsage? scope field) store fun result after =>
      result = .ok (engine.expectedUsage? store scope field) ∧ after = store := by
  unfold trueUsage? expectedUsage?
  cases field.rule with
  | direct => exact Action.ensures_pure ⟨rfl, rfl⟩
  | counter rule => exact Action.ensures_pure ⟨rfl, rfl⟩
  | total rule => exact Action.ensures_pure ⟨rfl, rfl⟩
  | aggregator rule =>
      refine Action.ensures_bind (fun _ => inferInstance)
        ((ensures_sumChildren engine scope field store).mono ?_)
      rintro _ after ⟨rfl, rfl⟩
      exact Action.ensures_pure ⟨rfl, rfl⟩

/-- Of two writes of one record the second one counts. -/
theorem put_put (store : σ) (scope : Entity) (name : String) (first second : Quota) :
    put (put store scope name first) scope name second = put store scope name second := by
  apply LawfulStore.ext_lookup
  intro other label
  rw [LawfulStore.lookup_put, LawfulStore.lookup_put, LawfulStore.lookup_put]
  split <;> rfl

/-- The second part of the recalculation of a field compares the usage with the expected one. -/
theorem ensures_update (report : Report) (store : σ) (quota : Quota)
    (found : lookup store scope field.name = some quota) :
    Ensures (fun _ _ => True) (do
        match ← engine.trueUsage? scope field with
        | none => return report
        | some usage =>
            if usage = quota.usage then return report
            else
              discard (Action.access (QuotaStore.setUsage scope field.name usage))
              return { report with updated := report.updated + 1 }) store
      fun result after => ∃ later, result = .ok later ∧
        after = put store scope field.name { quota with
          usage := (engine.expectedUsage? store scope field).getD quota.usage } ∧
        later.changes = report.changes +
          if (engine.expectedUsage? store scope field).getD quota.usage = quota.usage
          then 0 else 1 := by
  have unchanged : store = put store scope field.name { quota with usage := quota.usage } :=
    (LawfulStore.put_of_lookup found).symm
  refine Action.ensures_bind (fun result => ?_)
    ((ensures_trueUsage engine scope field store).mono ?_)
  · cases result <;> infer_instance
  rintro _ store ⟨rfl, rfl⟩
  generalize engine.expectedUsage? store scope field = expected
  cases expected with
  | none => exact Action.ensures_pure ⟨report, rfl, unchanged, by simp⟩
  | some usage =>
      dsimp only [Option.getD_some]
      by_cases same : usage = quota.usage
      · rw [if_pos same, if_pos same, same]
        exact Action.ensures_pure ⟨report, rfl, unchanged, rfl⟩
      · rw [if_neg same, if_neg same]
        refine Action.ensures_bind (fun _ => inferInstance) (Action.ensures_discard
          (Action.ensures_access (Action.ensures_setUsage (fun earlier present _ => ?_)
            fun absent => ?_)))
        · rw [found] at present
          obtain rfl := Option.some.inj present
          exact Action.ensures_pure ⟨_, rfl, rfl, by simp only [Report.changes]; omega⟩
        · rw [found] at absent
          cases absent

/-- A field's record becomes the recalculated one, and the report counts the repairs. -/
theorem ensures_recalculateField (report : Report) (store : σ) :
    Ensures (fun _ _ => True) (engine.recalculateField scope field report) store
      fun result after => ∃ later, result = .ok later ∧
        after = put store scope field.name (engine.recalculated store scope field) ∧
        later.changes = report.changes + engine.repairs store scope field := by
  unfold recalculateField
  refine Action.ensures_bind (fun answer => ?_) (Action.ensures_access
    (Action.ensures_getOrCreate (fun quota found => ?_) fun absent _ => ?_))
  · exact @Action.extends_bind _ _ _ _ _ _ _ fun usage => by cases usage <;> infer_instance
  · have start : engine.original store scope field = quota := by
      rw [original, found, Option.getD_some]
    have same : put store scope field.name quota = store := LawfulStore.put_of_lookup found
    refine (ensures_update engine scope field report store quota found).mono ?_
    rintro _ after ⟨later, rfl, rfl, changes⟩
    refine ⟨later, rfl, ?_, ?_⟩
    · rw [recalculated, start, same]
    · rw [changes, repairs, found, recalculated, start, same]
      simp
  · have start : engine.original store scope field = field.initial scope engine.graph := by
      rw [original, absent, Option.getD_none]
    have present : lookup (put store scope field.name (field.initial scope engine.graph)) scope
        field.name = some (field.initial scope engine.graph) := by
      rw [LawfulStore.lookup_put, if_pos ⟨rfl, rfl⟩]
    refine (ensures_update engine scope field { report with created := report.created + 1 } _ _
      present).mono ?_
    rintro _ after ⟨later, rfl, rfl, changes⟩
    refine ⟨later, rfl, ?_, ?_⟩
    · rw [recalculated, start, put_put]
    · rw [changes, repairs, absent, recalculated, start]
      simp only [Report.changes, Option.isSome_none, Bool.false_eq_true, if_false]
      omega

omit [QuotaStore σ] [LawfulStore σ] in
/-- The fields that are recalculated, scope by scope, are those that are connected. -/
def steps (engine : Engine) (scopes : List Entity) : List (Entity × Field) :=
  scopes.flatMap fun scope =>
    ((engine.registry.fields scope.kind).filter fun field =>
      field.isConnected scope engine.graph).map fun field => (scope, field)

/-- The store after some steps. -/
def recalculateSteps (engine : Engine) : List (Entity × Field) → σ → σ
  | [], store => store
  | (scope, field) :: steps, store =>
      engine.recalculateSteps steps
        (put store scope field.name (engine.recalculated store scope field))

/-- The number of repairs that some steps make. -/
def totalRepairs (engine : Engine) : List (Entity × Field) → σ → Nat
  | [], _ => 0
  | (scope, field) :: steps, store =>
      engine.repairs store scope field + engine.totalRepairs steps
        (put store scope field.name (engine.recalculated store scope field))

/-- Steps can be made in two parts. -/
theorem recalculateSteps_append (first second : List (Entity × Field)) (store : σ) :
    engine.recalculateSteps (first ++ second) store =
      engine.recalculateSteps second (engine.recalculateSteps first store) := by
  induction first generalizing store with
  | nil => rfl
  | cons step first inductionHypothesis => exact inductionHypothesis _

/-- The repairs of two parts are added up. -/
theorem totalRepairs_append (first second : List (Entity × Field)) (store : σ) :
    engine.totalRepairs (first ++ second) store = engine.totalRepairs first store +
      engine.totalRepairs second (engine.recalculateSteps first store) := by
  induction first generalizing store with
  | nil => exact (Nat.zero_add _).symm
  | cons step first inductionHypothesis =>
      change engine.repairs store step.1 step.2 + engine.totalRepairs (first ++ second) _ =
        engine.repairs store step.1 step.2 + engine.totalRepairs first _ +
          engine.totalRepairs second _
      rw [inductionHypothesis, Nat.add_assoc]
      rfl

/-- What a recalculation of some steps does to a store and to a report. -/
def Recalculates (engine : Engine) (steps : List (Entity × Field)) (report : Report) (before : σ)
    (result : Except QuotaError Report) (after : σ) : Prop :=
  ∃ later, result = .ok later ∧ after = engine.recalculateSteps steps before ∧
    later.changes = report.changes + engine.totalRepairs steps before

/-- The fields of a scope are recalculated step by step. -/
theorem ensures_recalculateFields (fields : List Field) (report : Report) (store : σ) :
    Ensures (fun _ _ => True) (engine.recalculateFields scope fields report) store
      (engine.Recalculates ((fields.filter fun field =>
        field.isConnected scope engine.graph).map fun field => (scope, field)) report store) := by
  induction fields generalizing report store with
  | nil => exact Action.ensures_pure ⟨report, rfl, rfl, rfl⟩
  | cons field fields inductionHypothesis =>
      unfold recalculateFields
      split
      · rename_i connected
        rw [List.filter_cons_of_pos (by exact connected)]
        refine Action.ensures_bind (fun _ => inferInstance)
          ((ensures_recalculateField engine scope field report store).mono ?_)
        rintro _ middle ⟨between, rfl, rfl, first⟩
        refine (inductionHypothesis between _).mono ?_
        rintro _ after ⟨later, rfl, rfl, rest⟩
        exact ⟨later, rfl, rfl, by rw [rest, first, Nat.add_assoc]; rfl⟩
      · rename_i unconnected
        rw [List.filter_cons_of_neg (by exact unconnected)]
        exact inductionHypothesis report store

/-- The scopes are recalculated step by step. -/
theorem ensures_recalculateScopes (scopes : List Entity) (report : Report) (store : σ) :
    Ensures (fun _ _ => True) (engine.recalculateScopes scopes report) store
      (engine.Recalculates (engine.steps scopes) report store) := by
  induction scopes generalizing report store with
  | nil => exact Action.ensures_pure ⟨report, rfl, rfl, rfl⟩
  | cons scope scopes inductionHypothesis =>
      unfold recalculateScopes
      rw [steps, List.flatMap_cons]
      refine Action.ensures_bind (fun _ => inferInstance)
        ((ensures_recalculateFields engine scope _ report store).mono ?_)
      rintro _ middle ⟨between, rfl, rfl, first⟩
      refine (inductionHypothesis between _).mono ?_
      rintro _ after ⟨later, rfl, rfl, rest⟩
      refine ⟨later, rfl, (recalculateSteps_append engine _ _ store).symm, ?_⟩
      rw [rest, first, totalRepairs_append, Nat.add_assoc]
      rfl

section Settled

variable {engine scope field}

/-- A record is settled if it is stored and has the usage that is expected of it. -/
def Settled (engine : Engine) (store : σ) (scope : Entity) (field : Field) : Prop :=
  ∃ quota, lookup store scope field.name = some quota ∧
    ∀ usage ∈ engine.expectedUsage? store scope field, quota.usage = usage

/-- A settled record has the usage that is expected of it. -/
theorem Settled.storedUsage? {store : σ} (settled : engine.Settled store scope field)
    {usage : Amount} (expected : engine.expectedUsage? store scope field = some usage) :
    storedUsage? store scope field.name = some usage := by
  obtain ⟨quota, found, same⟩ := settled
  rw [HierarchicalQuota.storedUsage?, found, Option.map_some, same usage expected]

/-- One step reads another if it sums the record that the other one writes. -/
def Reads (engine : Engine) (step other : Entity × Field) : Prop :=
  ∃ rule ∈ step.2.aggregator?, other.1 ∈ rule.children step.1 engine.graph ∧
    step.2.childQuota? = some other.2.name

omit [QuotaStore σ] [LawfulStore σ] in
theorem aggregator?_of_rule {rule : AggregatorRule} (isRule : field.rule = .aggregator rule) :
    field.aggregator? = some rule := by
  rw [Field.aggregator?, isRule]

/-- The expected usage depends only on the graph and on the records that are summed. -/
theorem expectedUsage?_congr {before after : σ}
    (same : ∀ rule ∈ field.aggregator?, ∀ quota ∈ field.childQuota?,
      ∀ child ∈ rule.children scope engine.graph,
        lookup after child quota = lookup before child quota) :
    engine.expectedUsage? after scope field = engine.expectedUsage? before scope field := by
  unfold expectedUsage?
  cases field.rule with
  | direct => rfl
  | counter rule => rfl
  | total rule => rfl
  | aggregator rule => exact congrArg some (childSum_congr same)

/-- Without a repair a step leaves the store as it is. -/
theorem put_recalculated_of_repairs {store : σ} (none : engine.repairs store scope field = 0) :
    put store scope field.name (engine.recalculated store scope field) = store := by
  obtain ⟨created, updated⟩ := Nat.add_eq_zero_iff.1 none
  cases found : lookup store scope field.name with
  | none =>
      rw [found] at created
      cases created
  | some quota =>
      have start : engine.original store scope field = quota := by
        rw [original, found, Option.getD_some]
      have same : (engine.recalculated store scope field).usage =
          (engine.original store scope field).usage := by
        by_contra different
        rw [if_neg different] at updated
        cases updated
      have unchanged : engine.recalculated store scope field = quota :=
        Quota.ext (by rw [recalculated, start]) (by rw [same, start])
      rw [unchanged, LawfulStore.put_of_lookup found]

/-- A settled record needs no repair. -/
theorem Settled.repairs_eq_zero {store : σ} (settled : engine.Settled store scope field) :
    engine.repairs store scope field = 0 := by
  obtain ⟨quota, found, expected⟩ := settled
  have start : engine.original store scope field = quota := by
    rw [original, found, Option.getD_some]
  have same : (engine.recalculated store scope field).usage = quota.usage := by
    rw [recalculated, start, LawfulStore.put_of_lookup found]
    cases usage : engine.expectedUsage? store scope field with
    | none => rfl
    | some usage' => exact (expected usage' usage).symm
  rw [repairs, found, same, start]
  simp

/-- Steps without a repair leave the store as it is. -/
theorem recalculateSteps_of_totalRepairs {steps : List (Entity × Field)} {store : σ}
    (none : engine.totalRepairs steps store = 0) : engine.recalculateSteps steps store = store := by
  induction steps with
  | nil => rfl
  | cons step steps inductionHypothesis =>
      obtain ⟨first, rest⟩ := Nat.add_eq_zero_iff.1 none
      have unchanged := put_recalculated_of_repairs first
      unfold recalculateSteps
      rw [unchanged] at rest ⊢
      exact inductionHypothesis rest

/-- Settled records need no repair, one after the other. -/
theorem totalRepairs_of_settled {steps : List (Entity × Field)} {store : σ}
    (settled : ∀ step ∈ steps, engine.Settled store step.1 step.2) :
    engine.totalRepairs steps store = 0 := by
  induction steps with
  | nil => rfl
  | cons step steps inductionHypothesis =>
      have first := (settled step List.mem_cons_self).repairs_eq_zero
      have rest := inductionHypothesis fun other member => settled other (List.mem_cons_of_mem _ member)
      unfold totalRepairs
      rw [put_recalculated_of_repairs first, first, rest]

/-- A record that no step writes stays as it is. -/
theorem lookup_recalculateSteps {steps : List (Entity × Field)} {name : String} {store : σ}
    (unwritten : ∀ step ∈ steps, ¬ (step.1 = scope ∧ step.2.name = name)) :
    lookup (engine.recalculateSteps steps store) scope name = lookup store scope name := by
  induction steps generalizing store with
  | nil => rfl
  | cons step steps inductionHypothesis =>
      unfold recalculateSteps
      rw [inductionHypothesis fun other member => unwritten other (List.mem_cons_of_mem _ member),
        LawfulStore.lookup_put, if_neg (unwritten step List.mem_cons_self)]

/-- A record that was stored keeps its limit, and its usage, too, where the field is direct. -/
theorem kept_recalculateSteps {steps : List (Entity × Field)} {name : String} {store : σ}
    {quota : Quota} (found : lookup store scope name = some quota) :
    ∃ later, lookup (engine.recalculateSteps steps store) scope name = some later ∧
      later.limit = quota.limit ∧
      ((∀ step ∈ steps, step.1 = scope → step.2.name = name → step.2.rule = .direct) →
        later.usage = quota.usage) := by
  induction steps generalizing store quota with
  | nil => exact ⟨quota, found, rfl, fun _ => rfl⟩
  | cons step steps inductionHypothesis =>
      unfold recalculateSteps
      by_cases here : step.1 = scope ∧ step.2.name = name
      · have start : engine.original store step.1 step.2 = quota := by
          rw [original, here.1, here.2, found, Option.getD_some]
        have written : lookup (put store step.1 step.2.name
            (engine.recalculated store step.1 step.2)) scope name =
            some (engine.recalculated store step.1 step.2) := by
          rw [LawfulStore.lookup_put, if_pos here]
        obtain ⟨later, laterFound, limit, usage⟩ := inductionHypothesis written
        refine ⟨later, laterFound, ?_, fun direct => ?_⟩
        · rw [limit, recalculated, start]
        · have isDirect := direct step List.mem_cons_self here.1 here.2
          rw [usage fun other member => direct other (List.mem_cons_of_mem _ member), recalculated,
            start, expectedUsage?, isDirect]
          rfl
      · have unwritten : lookup (put store step.1 step.2.name
            (engine.recalculated store step.1 step.2)) scope name = some quota := by
          rw [LawfulStore.lookup_put, if_neg here, found]
        obtain ⟨later, laterFound, limit, usage⟩ := inductionHypothesis unwritten
        exact ⟨later, laterFound, limit, fun direct =>
          usage fun other member => direct other (List.mem_cons_of_mem _ member)⟩

/-- Where a direct usage starts from a default, a step keeps the usage or makes it start there. -/
theorem direct_recalculateSteps {steps : List (Entity × Field)} {name : String} {start : Amount}
    (direct : ∀ step ∈ steps, step.1 = scope → step.2.name = name →
      step.2.rule = .direct ∧ (step.2.initial scope engine.graph).usage = start) (store : σ) :
    (storedUsage? (engine.recalculateSteps steps store) scope name).getD start =
      (storedUsage? store scope name).getD start := by
  induction steps generalizing store with
  | nil => rfl
  | cons step steps inductionHypothesis =>
      unfold recalculateSteps
      rw [inductionHypothesis fun other member => direct other (List.mem_cons_of_mem _ member),
        storedUsage?, storedUsage?, LawfulStore.lookup_put]
      split
      · rename_i here
        obtain ⟨isDirect, starts⟩ := direct step List.mem_cons_self here.1 here.2
        have unexpected (later : σ) : engine.expectedUsage? later step.1 step.2 = none := by
          rw [expectedUsage?, isDirect]
        rw [Option.map_some, Option.getD_some, recalculated, unexpected, Option.getD_none, original,
          here.1, here.2]
        cases lookup store scope name with
        | none => exact starts
        | some quota => rfl
      · rfl

/-- Steps are in order if none is read by itself or by an earlier one, and all write different
records. -/
structure InOrder (engine : Engine) (steps : List (Entity × Field)) : Prop where
  pairwise : steps.Pairwise fun first second =>
    ¬ (second.1 = first.1 ∧ second.2.name = first.2.name) ∧ ¬ engine.Reads first second
  irreflexive : ∀ step ∈ steps, ¬ engine.Reads step step

/-- Steps that are in order settle all their records. -/
theorem settled_recalculateSteps {steps : List (Entity × Field)} (order : engine.InOrder steps)
    (store : σ) : ∀ step ∈ steps,
      engine.Settled (engine.recalculateSteps steps store) step.1 step.2 := by
  obtain ⟨pairwise, irreflexive⟩ := order
  induction steps generalizing store with
  | nil => simp
  | cons first steps inductionHypothesis =>
      obtain ⟨later, rest⟩ := List.pairwise_cons.1 pairwise
      have others := inductionHypothesis
        (put store first.1 first.2.name (engine.recalculated store first.1 first.2)) rest
        fun step member => irreflexive step (List.mem_cons_of_mem _ member)
      intro step member
      rcases List.mem_cons.1 member with rfl | member
      · refine ⟨engine.recalculated store step.1 step.2, ?_, fun usage expected => ?_⟩
        · unfold recalculateSteps
          rw [lookup_recalculateSteps fun other otherMember => (later other otherMember).1,
            LawfulStore.lookup_put, if_pos ⟨rfl, rfl⟩]
        · -- The children's records are as they were when they were summed.
          have same : engine.expectedUsage? (engine.recalculateSteps (step :: steps) store) step.1
              step.2 = engine.expectedUsage? (put store step.1 step.2.name
                (engine.original store step.1 step.2)) step.1 step.2 := by
            apply expectedUsage?_congr
            intro rule isRule quota isQuota child selected
            unfold recalculateSteps
            have unread : ∀ other, ¬ engine.Reads step other →
                ¬ (other.1 = child ∧ other.2.name = quota) := by
              rintro other unread ⟨rfl, rfl⟩
              exact unread ⟨rule, isRule, selected, isQuota⟩
            have own := unread step (irreflexive step List.mem_cons_self)
            rw [lookup_recalculateSteps fun other otherMember =>
                unread other (later other otherMember).2,
              LawfulStore.lookup_put, if_neg own, LawfulStore.lookup_put, if_neg own]
          rw [same] at expected
          rw [recalculated, Option.mem_def.1 expected]
          rfl
      · exact others step member

end Settled

section Order

omit scope field

variable {engine}

/-- Every child that an aggregator selects has the selecting scope among its quota parents. -/
def SelectsChildren (engine : Engine) : Prop :=
  ∀ parent : Entity, ∀ field ∈ engine.registry.fields parent.kind, ∀ rule ∈ field.aggregator?,
    ∀ child ∈ rule.children parent engine.graph, parent ∈ engine.graph.quotaParents child

omit [QuotaStore σ] [LawfulStore σ]

/-- Only entities of the graph are selected, so it is enough to look at each of these. -/
theorem selectsChildren_of_agree
    (agree : ∀ registration ∈ engine.registry.registrations,
      ∀ rule ∈ registration.field.aggregator?, ∀ child ∈ engine.graph.nodes.keys,
      child.kind = rule.childKind → ∀ parent ∈ engine.graph.resolve child rule.path,
      parent.kind = registration.kind → parent ∈ engine.graph.quotaParents child) :
    engine.SelectsChildren := by
  intro parent field registered rule isRule child selected
  obtain ⟨registration, member, rfl⟩ := List.mem_map.1 registered
  obtain ⟨listed, kind⟩ := List.mem_filter.1 member
  obtain ⟨instance', resolved⟩ := List.mem_filter.1 selected
  obtain ⟨isNode, childKind⟩ := List.mem_filter.1 instance'
  exact agree registration listed rule isRule child isNode (of_decide_eq_true childKind) parent
    (of_decide_eq_true resolved) (of_decide_eq_true kind).symm

/-- Entries are ordered by falling depth first. -/
theorem bottomUp_iff (first second : Nat × Entity) :
    bottomUp first second = true ↔ second.1 < first.1 ∨
      second.1 = first.1 ∧ (compare first.2 second.2).isLE = true := by
  rw [bottomUp]
  rcases Nat.lt_trichotomy second.1 first.1 with less | same | greater
  · rw [Nat.compare_eq_lt.2 less]
    simp [less]
  · rw [same, Nat.compare_eq_eq.2 rfl]
    simp
  · rw [Nat.compare_eq_gt.2 greater]
    simp
    omega

/-- Sorted entries put deeper scopes first. -/
theorem pairwise_bottomUp (entries : List (Nat × Entity)) :
    (entries.mergeSort bottomUp).Pairwise fun first second => second.1 ≤ first.1 := by
  have transitive : ∀ first second third : Nat × Entity, bottomUp first second = true →
      bottomUp second third = true → bottomUp first third = true := by
    intro first second third firstSecond secondThird
    rw [bottomUp_iff] at firstSecond secondThird ⊢
    rcases firstSecond with less | ⟨same, ordered⟩
    · rcases secondThird with further | ⟨sameThird, -⟩ <;> exact .inl (by omega)
    · rcases secondThird with further | ⟨sameThird, orderedThird⟩
      · exact .inl (by omega)
      · exact .inr ⟨by omega, Std.TransCmp.isLE_trans ordered orderedThird⟩
  have total : ∀ first second : Nat × Entity,
      (bottomUp first second || bottomUp second first) = true := by
    intro first second
    rw [Bool.or_eq_true, bottomUp_iff, bottomUp_iff]
    rcases Nat.lt_trichotomy second.1 first.1 with less | same | greater
    · exact .inl (.inl less)
    · cases order : compare first.2 second.2 with
      | lt => exact .inl (.inr ⟨same, rfl⟩)
      | eq => exact .inl (.inr ⟨same, rfl⟩)
      | gt => exact .inr (.inr ⟨same.symm, by rw [Std.OrientedCmp.gt_iff_lt.1 order]; rfl⟩)
    · exact .inr (.inl greater)
  refine (List.pairwise_mergeSort transitive total entries).imp fun {first second} ordered => ?_
  rcases (bottomUp_iff first second).1 ordered with less | same <;> omega

/-- No scope is visited twice, because its kind is listed once. -/
theorem nodup_registeredScopes (engine : Engine) : engine.registeredScopes.Nodup := by
  rw [registeredScopes, List.nodup_flatMap]
  refine ⟨fun kind _ => engine.graph.nodup_instances kind, ?_⟩
  refine (Std.ExtTreeSet.distinct_toList).imp fun {first second} different => ?_
  intro scope firstMember secondMember
  apply different
  have firstKind := of_decide_eq_true (List.mem_filter.1 firstMember).2
  have secondKind := of_decide_eq_true (List.mem_filter.1 secondMember).2
  rw [← firstKind, secondKind]
  exact Std.ReflCmp.compare_self

/-- Every existing scope with a registered field is visited. -/
theorem mem_registeredScopes {scope : Entity} {field : Field}
    (present : engine.graph.contains scope = true)
    (registered : field ∈ engine.registry.fields scope.kind) : scope ∈ engine.registeredScopes := by
  obtain ⟨registration, member, -⟩ := List.mem_map.1 registered
  obtain ⟨listed, isKind⟩ := List.mem_filter.1 member
  have kinds : scope.kind ∈ engine.registry.scopeKinds := by
    rw [Registry.scopeKinds, Std.ExtTreeSet.mem_toList, Std.ExtTreeSet.mem_ofList,
      List.contains_eq_mem, decide_eq_true_eq]
    exact List.mem_map.2 ⟨registration, listed, of_decide_eq_true isKind⟩
  refine List.mem_flatMap.2 ⟨scope.kind, kinds, List.mem_filter.2 ⟨?_, by simp⟩⟩
  exact Std.ExtTreeMap.mem_keys.2 present

/-- The steps of some scopes are their connected fields. -/
theorem mem_steps {scopes : List Entity} {step : Entity × Field} :
    step ∈ engine.steps scopes ↔ step.1 ∈ scopes ∧
      step.2 ∈ engine.registry.fields step.1.kind ∧
      step.2.isConnected step.1 engine.graph = true := by
  obtain ⟨scope, field⟩ := step
  simp only [steps, List.mem_flatMap, List.mem_map, List.mem_filter, Prod.mk.injEq]
  constructor
  · rintro ⟨other, member, kept, ⟨registered, connected⟩, rfl, rfl⟩
    exact ⟨member, registered, connected⟩
  · rintro ⟨member, registered, connected⟩
    exact ⟨scope, member, field, ⟨registered, connected⟩, rfl, rfl⟩

/-- What a step reads belongs to a child, which has the step's scope as a quota parent. -/
theorem Reads.hop (selects : engine.SelectsChildren) {step other : Entity × Field}
    (registered : step.2 ∈ engine.registry.fields step.1.kind) (reads : engine.Reads step other) :
    step.1 ∈ engine.graph.quotaParents other.1 := by
  obtain ⟨rule, isRule, selected, -⟩ := reads
  exact selects step.1 step.2 registered rule isRule other.1 selected

/-- Scopes that are ranked and listed the deepest first are recalculated in order. -/
theorem inOrder_steps (selects : engine.SelectsChildren) {entries : List (Nat × Entity)}
    {table : Table Entity Nat} (ranked : engine.graph.Ranked table)
    (listed : ∀ entry ∈ entries, table[entry.2]? = some entry.1)
    (sorted : entries.Pairwise fun first second => second.1 ≤ first.1)
    (distinct : (entries.map Prod.snd).Nodup) :
    engine.InOrder (engine.steps (entries.map Prod.snd)) where
  pairwise := by
    rw [steps, List.pairwise_flatMap]
    constructor
    · intro scope member
      obtain ⟨entry, entryMember, rfl⟩ := List.mem_map.1 member
      have names := List.pairwise_map.1 (engine.registry.nodup_names entry.2.kind)
      refine List.pairwise_map.2 (List.Pairwise.imp_of_mem ?_ (names.filter _))
      intro first second firstMember secondMember different
      refine ⟨fun same => different same.2.symm, fun reads => ?_⟩
      have above := reads.hop selects (List.mem_filter.1 firstMember).1
      exact ranked.not_above_self (listed entry entryMember) (.single above)
    · refine List.pairwise_map.2 (List.Pairwise.imp_of_mem ?_
        (sorted.and (List.pairwise_map.1 distinct)))
      rintro first second firstMember secondMember ⟨deeper, different⟩ step stepMember other
        otherMember
      obtain ⟨field, fieldMember, rfl⟩ := List.mem_map.1 stepMember
      obtain ⟨otherField, -, rfl⟩ := List.mem_map.1 otherMember
      refine ⟨fun same => different same.1.symm, fun reads => ?_⟩
      -- A scope that is read is deeper, but the deeper scopes come first.
      have hop := reads.hop selects (List.mem_filter.1 fieldMember).1
      obtain ⟨above, found, less⟩ := ranked second.2 second.1 (listed second secondMember) _ hop
      rw [listed first firstMember] at found
      obtain rfl := Option.some.inj found
      omega
  irreflexive step member reads := by
    obtain ⟨scopeMember, registered, -⟩ := mem_steps.1 member
    obtain ⟨entry, entryMember, same⟩ := List.mem_map.1 scopeMember
    have above := reads.hop selects registered
    exact ranked.not_above_self (listed entry entryMember) (same ▸ .single above)

end Order

omit scope field

/-- The order in which all scopes are recalculated follows from their depths. -/
def allSteps (engine : Engine) (entries : List (Nat × Entity)) : List (Entity × Field) :=
  engine.steps ((entries.mergeSort bottomUp).map Prod.snd)

/-- All connected fields of all scopes have a step. -/
theorem mem_allSteps {entries : List (Nat × Entity)}
    (depths : engine.graph.depths engine.registeredScopes ∅ = .ok entries)
    {step : Entity × Field} :
    step ∈ engine.allSteps entries ↔ step.1 ∈ engine.registeredScopes ∧
      step.2 ∈ engine.registry.fields step.1.kind ∧
      step.2.isConnected step.1 engine.graph = true := by
  obtain ⟨sameScopes, -⟩ := Graph.ranked_of_depths _ _ _ engine.graph.ranked_empty depths
  rw [allSteps, mem_steps, ← sameScopes,
    ((List.mergeSort_perm entries bottomUp).map Prod.snd).mem_iff]

/-- All steps are in order, because depths grow from a scope to its children. -/
theorem inOrder_allSteps (selects : engine.SelectsChildren) {entries : List (Nat × Entity)}
    (depths : engine.graph.depths engine.registeredScopes ∅ = .ok entries) :
    engine.InOrder (engine.allSteps entries) := by
  obtain ⟨sameScopes, table, ranked, -, listed⟩ :=
    Graph.ranked_of_depths _ _ _ engine.graph.ranked_empty depths
  have order := List.mergeSort_perm entries bottomUp
  refine inOrder_steps selects ranked (fun entry member => listed entry (order.mem_iff.1 member))
    (pairwise_bottomUp entries) ?_
  rw [(order.map Prod.snd).nodup_iff, sameScopes]
  exact engine.nodup_registeredScopes

/-- A recalculation of all scopes succeeds where the depths are found. -/
theorem recalculateAll_eq_ok {entries : List (Nat × Entity)}
    (depths : engine.graph.depths engine.registeredScopes ∅ = .ok entries) (store : σ) :
    ∃ report, engine.recalculateAll store =
        .ok report (engine.recalculateSteps (engine.allSteps entries) store) ∧
      report.changes = engine.totalRepairs (engine.allSteps entries) store := by
  have ensures : Ensures (fun _ _ => True) engine.recalculateAll store
      (engine.Recalculates (engine.allSteps entries) { scopes := entries.length } store) := by
    unfold recalculateAll
    rw [depths]
    refine Action.ensures_bind (fun _ => inferInstance) (Action.ensures_ofExcept ?_)
    refine (ensures_recalculateScopes engine _ _ store).mono ?_
    rintro _ after ⟨later, rfl, rfl, changes⟩
    exact ⟨later, rfl, rfl, changes⟩
  obtain ⟨report, returned, stores, changes⟩ := ensures.of_allFit
    (RecordedStore.answersAlike.recalculateAll engine) fun _ _ => trivial
  refine ⟨report, Action.eq_ok_iff.2 ⟨returned, stores⟩, ?_⟩
  rw [changes, Report.changes, Nat.zero_add, Nat.zero_add]

omit [LawfulStore σ] in
/-- A recalculation cannot succeed without the depths. -/
theorem depths_of_recalculateAll {store after : σ} {report : Report}
    (run : engine.recalculateAll store = .ok report after) :
    ∃ entries, engine.graph.depths engine.registeredScopes ∅ = .ok entries := by
  cases depths : engine.graph.depths engine.registeredScopes ∅ with
  | ok entries => exact ⟨entries, rfl⟩
  | error error =>
      have failed := (Action.eq_ok_iff.1 run).1
      rw [recalculateAll, Action.outcome_bind, Action.outcome_ofExcept, depths] at failed
      cases failed

/-- A recalculation that succeeds has found the depths, and it has made the steps in their order. -/
theorem steps_of_recalculateAll {store after : σ} {report : Report}
    (run : engine.recalculateAll store = .ok report after) :
    ∃ entries, engine.graph.depths engine.registeredScopes ∅ = .ok entries ∧
      after = engine.recalculateSteps (engine.allSteps entries) store ∧
      report.changes = engine.totalRepairs (engine.allSteps entries) store := by
  obtain ⟨entries, depths⟩ := depths_of_recalculateAll engine run
  obtain ⟨same, sameRun, changes⟩ := recalculateAll_eq_ok engine depths store
  rw [run] at sameRun
  obtain ⟨sameReport, sameStore⟩ := EStateM.Result.ok.inj sameRun
  exact ⟨entries, depths, sameStore, sameReport ▸ changes⟩

/-- A store in which everything is settled is left alone, and the report is clean. -/
theorem recalculateAll_of_settled {entries : List (Nat × Entity)}
    (depths : engine.graph.depths engine.registeredScopes ∅ = .ok entries) {store : σ}
    (settled : ∀ scope ∈ engine.registeredScopes, ∀ field ∈ engine.registry.fields scope.kind,
      field.isConnected scope engine.graph = true → engine.Settled store scope field) :
    ∃ report, engine.recalculateAll store = .ok report store ∧ report.isClean = true := by
  obtain ⟨report, run, changes⟩ := recalculateAll_eq_ok engine depths store
  have none : engine.totalRepairs (engine.allSteps entries) store = 0 := by
    apply totalRepairs_of_settled
    intro step member
    obtain ⟨scopeMember, registered, connected⟩ := (mem_allSteps engine depths).1 member
    exact settled step.1 scopeMember step.2 registered connected
  rw [recalculateSteps_of_totalRepairs none] at run
  exact ⟨report, run, report.isClean_iff.2 (changes.trans none)⟩

/-- A repaired store has the usages that follow from the graph. Apart from them, and from records
that were missing, it is the store from before. -/
structure Repaired (engine : Engine) (before : σ) (report : Report) (after : σ) : Prop where
  settled : ∀ scope ∈ engine.registeredScopes, ∀ field ∈ engine.registry.fields scope.kind,
    field.isConnected scope engine.graph = true → engine.Settled after scope field
  limits : ∀ scope name quota, lookup before scope name = some quota →
    ∃ later, lookup after scope name = some later ∧ later.limit = quota.limit
  direct : ∀ scope name field quota, engine.registry.field? scope.kind name = some field →
    field.rule = .direct → lookup before scope name = some quota →
    lookup after scope name = some quota
  outside : ∀ scope ∉ engine.registeredScopes, ∀ name,
    lookup after scope name = lookup before scope name
  clean : report.isClean = true ↔ after = before

/-- A recalculation that succeeds settles all records of registered and connected fields. -/
theorem settled_of_recalculateAll (selects : engine.SelectsChildren) {store after : σ}
    {report : Report} (run : engine.recalculateAll store = .ok report after) :
    ∀ scope ∈ engine.registeredScopes, ∀ field ∈ engine.registry.fields scope.kind,
      field.isConnected scope engine.graph = true → engine.Settled after scope field := by
  intro scope member field registered connected
  obtain ⟨entries, depths, rfl, -⟩ := steps_of_recalculateAll engine run
  exact settled_recalculateSteps (inOrder_allSteps engine selects depths) store (scope, field)
    ((mem_allSteps engine depths).2 ⟨member, registered, connected⟩)

/-- A recalculation keeps a direct usage, and a missing one starts from its default. -/
theorem direct_of_recalculateAll {store after : σ} {report : Report}
    (run : engine.recalculateAll store = .ok report after) {scope : Entity} {field : Field}
    (registered : field ∈ engine.registry.fields scope.kind) (isDirect : field.rule = .direct)
    {start : Amount} (starts : (field.initial scope engine.graph).usage = start) :
    (storedUsage? after scope field.name).getD start =
      (storedUsage? store scope field.name).getD start := by
  obtain ⟨entries, depths, rfl, -⟩ := steps_of_recalculateAll engine run
  apply direct_recalculateSteps
  intro step member sameScope sameName
  have listed := ((mem_allSteps engine depths).1 member).2.1
  rw [sameScope] at listed
  rw [Registry.eq_of_name_eq listed registered sameName]
  exact ⟨isDirect, starts⟩

/-- A recalculation that succeeds repairs the store, whatever it held, and a second one finds nothing
to do. -/
theorem recalculateAll_repairs (selects : engine.SelectsChildren) {store after : σ}
    {report : Report} (run : engine.recalculateAll store = .ok report after) :
    engine.Repaired store report after ∧
      ∃ second, engine.recalculateAll after = .ok second after ∧ second.isClean = true := by
  have settled := settled_of_recalculateAll engine selects run
  obtain ⟨entries, depths, rfl, changes⟩ := steps_of_recalculateAll engine run
  obtain ⟨second, secondRun, secondClean⟩ := recalculateAll_of_settled engine depths settled
  refine ⟨⟨settled, ?_, ?_, ?_, ?_, ?_⟩, second, secondRun, secondClean⟩
  · intro scope name quota found
    obtain ⟨later, laterFound, limit, -⟩ := kept_recalculateSteps found
    exact ⟨later, laterFound, limit⟩
  · intro scope name field quota registered isDirect found
    obtain ⟨later, laterFound, limit, usage⟩ := kept_recalculateSteps found
    have unchanged : later = quota := by
      refine Quota.ext limit (usage fun step member sameScope sameName => ?_)
      have isField := Registry.field?_eq_some_iff.2
        ⟨((mem_allSteps engine depths).1 member).2.1, rfl⟩
      rw [sameScope, sameName, registered] at isField
      rw [← Option.some.inj isField, isDirect]
    rw [laterFound, unchanged]
  · intro scope outside name
    apply lookup_recalculateSteps
    rintro step member ⟨rfl, -⟩
    exact outside ((mem_allSteps engine depths).1 member).1
  · intro clean
    exact recalculateSteps_of_totalRepairs (changes.symm.trans (report.isClean_iff.1 clean))
  · -- An unchanged store is settled, so the run has reported no change.
    intro unchanged
    rw [unchanged] at secondRun
    rw [run] at secondRun
    rw [(EStateM.Result.ok.inj secondRun).1]
    exact secondClean

end Engine

section Sample

/-- The team and its organization have drifted, and one record of each is missing. -/
def sampleDrift : MemoryStore :=
  ((MemoryStore.empty.put sampleTeam "storage" ⟨25, 4⟩).put sampleOrganization "seats" ⟨-1, 99⟩).put
    sampleUser "unknown" ⟨3, 5⟩

/-- The drifted store is recalculated successfully, and then it is repaired. -/
theorem recalculateAll_repairs_sample :
    ∃ report after, sampleEngine.recalculateAll sampleDrift = .ok report after ∧
      sampleEngine.Repaired sampleDrift report after := by
  have selects : sampleEngine.SelectsChildren :=
    Engine.selectsChildren_of_agree (by decide +kernel)
  obtain ⟨entries, depths⟩ :=
    Graph.depths_isOk shallow_sampleGraph sampleEngine.registeredScopes ∅
  obtain ⟨report, run, -⟩ := Engine.recalculateAll_eq_ok sampleEngine depths sampleDrift
  exact ⟨report, _, run, (Engine.recalculateAll_repairs sampleEngine selects run).1⟩

end Sample

end HierarchicalQuota
