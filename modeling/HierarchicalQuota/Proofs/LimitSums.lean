import HierarchicalQuota.Proofs.Measures

namespace HierarchicalQuota

namespace Amount

/-- A limit is proper if it is the mark for no limit, or not negative. -/
def IsProperLimit (limit : Amount) : Prop := limit = .unlimited ∨ 0 ≤ limit

/-- This compares two amounts. -/
instance (limit : Amount) : Decidable limit.IsProperLimit := inferInstanceAs (Decidable (_ ∨ _))

/-- Limits add up to no limit if one of them is none, and otherwise to their sum. -/
def totalLimit (limits : List Amount) : Amount :=
  if .unlimited ∈ limits then .unlimited else clamp (limits.map value).sum

/-- A finite limit is not negative. -/
theorem IsProperLimit.nonneg {limit : Amount} (proper : limit.IsProperLimit)
    (finite : limit ≠ .unlimited) : 0 ≤ limit.value :=
  proper.resolve_left finite

/-- Finite limits have a sum that is not negative. -/
theorem sum_nonneg {limits : List Amount} (proper : ∀ limit ∈ limits, limit.IsProperLimit)
    (finite : .unlimited ∉ limits) : 0 ≤ (limits.map value).sum := by
  induction limits with
  | nil => simp
  | cons limit limits inductionHypothesis =>
      rw [List.mem_cons, not_or] at finite
      have floor := (proper limit List.mem_cons_self).nonneg (Ne.symm finite.1)
      have others := inductionHypothesis (List.forall_mem_cons.1 proper).2 finite.2
      rw [List.map_cons, List.sum_cons]
      omega

/-- Finite limits add up to their sum, which is cut off only from above. -/
theorem value_totalLimit {limits : List Amount} (proper : ∀ limit ∈ limits, limit.IsProperLimit)
    (finite : .unlimited ∉ limits) :
    (totalLimit limits).value = min 9223372036854775807 (limits.map value).sum := by
  have floor := sum_nonneg proper finite
  rw [totalLimit, if_neg finite, value_clamp]
  omega

/-- Two finite limits add up to their sum, which is cut off only from above. -/
theorem value_addLimit {first second : Amount} (firstProper : first.IsProperLimit)
    (secondProper : second.IsProperLimit)
    (finite : ¬ (first = .unlimited ∨ second = .unlimited)) :
    (Engine.addLimit first second).value = min 9223372036854775807 (first.value + second.value) := by
  have firstFloor := firstProper.nonneg fun mark => finite (.inl mark)
  have secondFloor := secondProper.nonneg fun mark => finite (.inr mark)
  rw [Engine.addLimit, if_neg finite, value_add]
  omega

/-- A sum of finite limits is never the mark. -/
theorem addLimit_eq_unlimited_iff {first second : Amount} (firstProper : first.IsProperLimit)
    (secondProper : second.IsProperLimit) :
    Engine.addLimit first second = .unlimited ↔ first = .unlimited ∨ second = .unlimited := by
  constructor
  · intro mark
    by_contra finite
    have sum := value_addLimit firstProper secondProper finite
    have firstFloor := firstProper.nonneg fun mark => finite (.inl mark)
    have secondFloor := secondProper.nonneg fun mark => finite (.inr mark)
    rw [mark, value_unlimited] at sum
    omega
  · intro mark
    rw [Engine.addLimit, if_pos mark]

/-- The sum of two limits is a limit again. -/
theorem isProperLimit_addLimit {first second : Amount} (firstProper : first.IsProperLimit)
    (secondProper : second.IsProperLimit) : (Engine.addLimit first second).IsProperLimit := by
  by_cases mark : first = .unlimited ∨ second = .unlimited
  · exact .inl ((addLimit_eq_unlimited_iff firstProper secondProper).2 mark)
  · right
    have firstFloor := firstProper.nonneg fun isMark => mark (.inl isMark)
    have secondFloor := secondProper.nonneg fun isMark => mark (.inr isMark)
    rw [le_iff, value_addLimit firstProper secondProper mark, value_zero]
    omega

/-- Two limits may be added before they are added to the others. -/
theorem totalLimit_addLimit {first second : Amount} {limits : List Amount}
    (proper : ∀ limit ∈ first :: second :: limits, limit.IsProperLimit) :
    totalLimit (Engine.addLimit first second :: limits) = totalLimit (first :: second :: limits) := by
  obtain ⟨firstProper, rest⟩ := List.forall_mem_cons.1 proper
  obtain ⟨secondProper, others⟩ := List.forall_mem_cons.1 rest
  have marked : .unlimited ∈ Engine.addLimit first second :: limits ↔
      .unlimited ∈ first :: second :: limits := by
    simp only [List.mem_cons, @eq_comm _ unlimited,
      addLimit_eq_unlimited_iff firstProper secondProper, or_assoc]
  by_cases mark : .unlimited ∈ first :: second :: limits
  · rw [totalLimit, totalLimit, if_pos mark, if_pos (marked.2 mark)]
  · have finite : ¬ (first = .unlimited ∨ second = .unlimited) := by
      rintro (rfl | rfl) <;> simp at mark
    have listed : .unlimited ∉ limits := fun member => mark (by simp [member])
    have floor := sum_nonneg others listed
    have sum := value_addLimit firstProper secondProper finite
    have total := value_totalLimit proper mark
    apply Amount.ext
    rw [value_totalLimit (List.forall_mem_cons.2
      ⟨isProperLimit_addLimit firstProper secondProper, others⟩) (mt marked.1 mark), total]
    simp only [List.map_cons, List.sum_cons, sum]
    have firstFloor := firstProper.nonneg fun isMark => finite (.inl isMark)
    have secondFloor := secondProper.nonneg fun isMark => finite (.inr isMark)
    omega

/-- The running sum is the total of what it has added. -/
theorem foldl_addLimit {sum : Amount} {limits : List Amount}
    (proper : ∀ limit ∈ sum :: limits, limit.IsProperLimit) :
    limits.foldl Engine.addLimit sum = totalLimit (sum :: limits) := by
  induction limits generalizing sum with
  | nil =>
      by_cases mark : .unlimited = sum
      · simp [totalLimit, ← mark]
      · have lower := sum.lower
        have upper := sum.upper
        simp only [totalLimit, List.mem_singleton, mark, if_false]
        apply Amount.ext
        rw [value_clamp]
        simp only [List.foldl_nil, List.map_cons, List.map_nil, List.sum_cons, List.sum_nil]
        omega
  | cons limit limits inductionHypothesis =>
      obtain ⟨sumProper, rest⟩ := List.forall_mem_cons.1 proper
      obtain ⟨limitProper, others⟩ := List.forall_mem_cons.1 rest
      rw [List.foldl_cons, inductionHypothesis (List.forall_mem_cons.2
        ⟨isProperLimit_addLimit sumProper limitProper, others⟩), totalLimit_addLimit proper]

/-- A limit of zero adds nothing. -/
theorem totalLimit_zero_cons (limits : List Amount) : totalLimit (0 :: limits) = totalLimit limits := by
  have finite : ¬ .unlimited = (0 : Amount) := by decide
  simp [totalLimit, finite]

/-- The order of limits does not matter to their total. -/
theorem totalLimit_perm {first second : List Amount} (permuted : first.Perm second) :
    totalLimit first = totalLimit second := by
  rw [totalLimit, totalLimit, (permuted.map value).sum_eq]
  simp only [permuted.mem_iff]

end Amount

/-- These are the limits that some readings add under a name. -/
def limitsUnder (name : String) (readings : List (String × Quota)) : List Amount :=
  (readings.filter fun reading => reading.1 = name).map fun reading => reading.2.limit

/-- The sum under a name adds the limits that are read under this name. -/
theorem foldl_addAt_limit (name : String) (readings : List (String × Quota)) (sum : Option Amount) :
    readings.foldl (addAt name [.limit]) sum =
      if limitsUnder name readings = [] then sum
      else some ((limitsUnder name readings).foldl Engine.addLimit (sum.getD 0)) := by
  induction readings generalizing sum with
  | nil => rfl
  | cons reading readings inductionHypothesis =>
      rw [List.foldl_cons, inductionHypothesis]
      by_cases same : reading.1 = name
      · have added : addAt name [.limit] sum reading =
            some (Engine.addLimit (sum.getD 0) reading.2.limit) := by
          simp [addAt, sumKey, same, addReading]
        have limits : limitsUnder name (reading :: readings) =
            reading.2.limit :: limitsUnder name readings := by
          simp [limitsUnder, same]
        rw [added, limits]
        split
        · rename_i none
          simp [none]
        · simp
      · have still : addAt name [.limit] sum reading = sum := by
          simp [addAt, sumKey, same]
        have limits : limitsUnder name (reading :: readings) = limitsUnder name readings := by
          simp [limitsUnder, same]
        rw [still, limits]

/-- The table has a sum under a name if a limit was read under it, and it is the total of these
limits. -/
theorem getElem?_sumUp_limit {name : String} {readings : List (String × Quota)}
    (proper : ∀ reading ∈ readings, reading.2.limit.IsProperLimit) :
    (sumUp [.limit] readings ∅)[name]? =
      if limitsUnder name readings = [] then none
      else some (Amount.totalLimit (limitsUnder name readings)) := by
  have properLimits : ∀ limit ∈ 0 :: limitsUnder name readings, limit.IsProperLimit := by
    refine List.forall_mem_cons.2 ⟨.inr (by decide), fun limit member => ?_⟩
    obtain ⟨reading, listed, rfl⟩ := List.mem_map.1 member
    exact proper reading (List.mem_filter.1 listed).1
  have empty : (∅ : Table String Amount)[name]? = none := Std.ExtTreeMap.getElem?_empty
  rw [getElem?_sumUp, empty, foldl_addAt_limit, Option.getD_none,
    Amount.foldl_addLimit properLimits, Amount.totalLimit_zero_cons]

/-- Readings in another order have the same limits under a name, in another order. -/
theorem limitsUnder_perm {first second : List (String × Quota)} (permuted : first.Perm second)
    (name : String) : (limitsUnder name first).Perm (limitsUnder name second) :=
  (permuted.filter _).map _

/-- Readings in another order have the same sums. -/
theorem sumUp_limit_perm {first second : List (String × Quota)} (permuted : first.Perm second)
    (proper : ∀ reading ∈ second, reading.2.limit.IsProperLimit) :
    sumUp [.limit] first ∅ = sumUp [.limit] second ∅ := by
  have same (name : String) := limitsUnder_perm permuted name
  apply Std.ExtTreeMap.ext_getElem?
  intro name
  rw [getElem?_sumUp_limit fun reading member => proper reading (permuted.mem_iff.1 member),
    getElem?_sumUp_limit proper, Amount.totalLimit_perm (same name)]
  simp only [← List.length_eq_zero_iff, (same name).length_eq]

variable {σ : Type} [QuotaStore σ] [LawfulStore σ]

namespace Engine

/-- These are the readings of visited quotas, as far as they are registered. -/
def readings (engine : Engine) (store : σ) (visits : List (Entity × String)) :
    List (String × Quota) :=
  visits.filterMap fun visit => (engine.registry.field? visit.1.kind visit.2).map fun field =>
    (visit.2, engine.standing store visit.1 field)

variable {engine : Engine} {store : σ}

/-- A visit reads the stored record, or the defaults of a field without one. -/
theorem visited_eq (visit : Entity × String) :
    engine.visited store visit =
      match engine.registry.field? visit.1.kind visit.2 with
      | some field => .ok (visit.2, engine.standing store visit.1 field)
      | none => .error (.unknownQuota visit.1.kind visit.2) := by
  rw [visited, Engine.field, Registry.field]
  cases engine.registry.field? visit.1.kind visit.2 <;> rfl

/-- Visits of registered quotas are all read. -/
theorem mapM_visited_ok {visits : List (Entity × String)}
    (registered : ∀ visit ∈ visits, (engine.registry.field? visit.1.kind visit.2).isSome) :
    visits.mapM (engine.visited store) = .ok (engine.readings store visits) := by
  induction visits with
  | nil => rfl
  | cons visit visits inductionHypothesis =>
      obtain ⟨known, others⟩ := List.forall_mem_cons.1 registered
      obtain ⟨field, found⟩ := Option.isSome_iff_exists.1 known
      have listed : engine.readings store (visit :: visits) =
          (visit.2, engine.standing store visit.1 field) :: engine.readings store visits := by
        simp [readings, found]
      rw [List.mapM_cons, inductionHypothesis others, visited_eq, found, listed]
      rfl

/-- The first visit of a quota that is not registered ends the reading. -/
theorem mapM_visited_error (store : σ) {visits : List (Entity × String)}
    (unregistered : ∃ visit ∈ visits, engine.registry.field? visit.1.kind visit.2 = none) :
    ∃ visit ∈ visits, engine.registry.field? visit.1.kind visit.2 = none ∧
      visits.mapM (engine.visited store) = .error (.unknownQuota visit.1.kind visit.2) := by
  induction visits with
  | nil => simp at unregistered
  | cons visit visits inductionHypothesis =>
      rw [List.mapM_cons, visited_eq]
      cases found : engine.registry.field? visit.1.kind visit.2 with
      | none => exact ⟨visit, List.mem_cons_self, found, rfl⟩
      | some field =>
          obtain ⟨first, listed, unknown, read⟩ := inductionHypothesis (by
            simpa [found] using unregistered)
          exact ⟨first, List.mem_cons_of_mem _ listed, unknown, by rw [read]; rfl⟩

/-- These are the limits of the visited quotas of a name, stored or the default ones. -/
def visitedLimits (engine : Engine) (store : σ) (scopes : List Entity)
    (names : Option (List String)) (name : String) : List Amount :=
  (engine.visits scopes names).filterMap fun visit =>
    if visit.2 = name then
      (engine.registry.field? visit.1.kind visit.2).map fun field =>
        (engine.standing store visit.1 field).limit
    else none

/-- The limits that are read under a name are those of the visits with this name. -/
theorem limitsUnder_readings (scopes : List Entity) (names : Option (List String))
    (name : String) :
    limitsUnder name (engine.readings store (engine.visits scopes names)) =
      engine.visitedLimits store scopes names name := by
  rw [visitedLimits]
  induction engine.visits scopes names with
  | nil => rfl
  | cons visit visits inductionHypothesis =>
      rw [readings, List.filterMap_cons, List.filterMap_cons, ← readings]
      cases engine.registry.field? visit.1.kind visit.2 with
      | none => simpa using inductionHypothesis
      | some field =>
          by_cases same : visit.2 = name
          · simpa [limitsUnder, same] using inductionHypothesis
          · simpa [limitsUnder, same] using inductionHypothesis

/-- No limit is read under a name that is not visited. -/
theorem visitedLimits_eq_nil_iff (store : σ) {scopes : List Entity} {names : Option (List String)}
    (registered : ∀ visit ∈ engine.visits scopes names,
      (engine.registry.field? visit.1.kind visit.2).isSome) (name : String) :
    engine.visitedLimits store scopes names name = [] ↔
      ∀ visit ∈ engine.visits scopes names, visit.2 ≠ name := by
  rw [visitedLimits, List.filterMap_eq_nil_iff]
  refine forall₂_congr fun visit member => ?_
  obtain ⟨field, found⟩ := Option.isSome_iff_exists.1 (registered visit member)
  simp [found]

/-- Each scope is visited for each of the names. -/
theorem mem_visits {scopes : List Entity} {names : Option (List String)} {visit : Entity × String} :
    visit ∈ engine.visits scopes names ↔
      visit.1 ∈ scopes ∧ visit.2 ∈ names.getD (engine.registry.names visit.1.kind) := by
  rw [visits, List.mem_flatMap]
  constructor
  · rintro ⟨scope, listed, member⟩
    obtain ⟨name, named, rfl⟩ := List.mem_map.1 member
    exact ⟨listed, named⟩
  · rintro ⟨listed, named⟩
    exact ⟨visit.1, listed, List.mem_map.2 ⟨visit.2, named, rfl⟩⟩

/-- A quota that is not registered refuses the sums, whichever measures they are of. -/
theorem sums_refused (store : σ) {scopes : List Entity} {names : Option (List String)}
    (unregistered : ∃ visit ∈ engine.visits scopes names,
      engine.registry.field? visit.1.kind visit.2 = none) (measures : List Measure) :
    ∃ kind name, engine.sums scopes names measures store =
      .error (.unknownQuota kind name) store := by
  obtain ⟨visit, -, -, refused⟩ := mapM_visited_error store unregistered
  exact ⟨visit.1.kind, visit.2, by rw [sums_eq, refused]⟩

/-- Where all quotas are registered, their sums are formed out of their readings. -/
theorem sums_readings (store : σ) {scopes : List Entity} {names : Option (List String)}
    (registered : ∀ visit ∈ engine.visits scopes names,
      (engine.registry.field? visit.1.kind visit.2).isSome) (measures : List Measure) :
    engine.sums scopes names measures store =
      .ok (sumUp measures (engine.readings store (engine.visits scopes names)) ∅) store := by
  rw [sums_eq, mapM_visited_ok registered]

section Proper

variable {scopes : List Entity} {names : Option (List String)}
  (proper : ∀ visit ∈ engine.visits scopes names,
    ∀ field ∈ engine.registry.field? visit.1.kind visit.2,
      (engine.standing store visit.1 field).limit.IsProperLimit)

include proper

/-- The limits that are read are proper, whether they are stored or the defaults. -/
theorem isProperLimit_readings :
    ∀ reading ∈ engine.readings store (engine.visits scopes names),
      reading.2.limit.IsProperLimit := by
  intro reading member
  obtain ⟨visit, listed, read⟩ := List.mem_filterMap.1 member
  obtain ⟨field, known, rfl⟩ := Option.map_eq_some_iff.1 read
  exact proper visit listed field known

/-- The limits of all visits are proper. -/
theorem isProperLimit_visitedLimits (name : String) :
    ∀ limit ∈ engine.visitedLimits store scopes names name, limit.IsProperLimit := by
  intro limit member
  rw [← limitsUnder_readings] at member
  obtain ⟨reading, listed, rfl⟩ := List.mem_map.1 member
  exact isProperLimit_readings proper reading (List.mem_filter.1 listed).1

variable (registered : ∀ visit ∈ engine.visits scopes names,
  (engine.registry.field? visit.1.kind visit.2).isSome)

include registered

/-- Each visited name has a sum, the total of its limits. -/
theorem sums_visited :
    ∃ sums, engine.sums scopes names [.limit] store = .ok sums store ∧
      ∀ name, sums[name]? =
        if ∃ visit ∈ engine.visits scopes names, visit.2 = name then
          some (Amount.totalLimit (engine.visitedLimits store scopes names name))
        else none := by
  refine ⟨_, sums_readings store registered [.limit], fun name => ?_⟩
  rw [getElem?_sumUp_limit (isProperLimit_readings proper), limitsUnder_readings]
  have empty := visitedLimits_eq_nil_iff store registered name
  by_cases visited : ∃ visit ∈ engine.visits scopes names, visit.2 = name
  · obtain ⟨visit, member, same⟩ := id visited
    rw [if_pos visited, if_neg fun none => empty.1 none visit member same]
  · rw [if_neg visited, if_pos (empty.2 fun visit member same => visited ⟨visit, member, same⟩)]

/-- Scopes in another order have the same sums of limits. -/
theorem sums_permuted {permuted : List Entity} (same : permuted.Perm scopes) :
    engine.sums permuted names [.limit] store = engine.sums scopes names [.limit] store := by
  have visits : (engine.visits permuted names).Perm (engine.visits scopes names) :=
    same.flatMap_right _
  have readings : (engine.readings store (engine.visits permuted names)).Perm
      (engine.readings store (engine.visits scopes names)) := visits.filterMap _
  rw [sums_readings store registered,
    sums_readings store fun visit member => registered visit (visits.mem_iff.1 member),
    sumUp_limit_perm readings (isProperLimit_readings proper)]

end Proper

/-- Sums of limits are exact, and neither they nor a refusal of them depend on the order of the scopes.
They are refused exactly if a visited name is not registered for the kind of its scope. Otherwise there
is a sum for each visited name: no limit if one of its limits is none, and if not, the sum of its limits
as far as it fits. -/
theorem limitSums_exact (engine : Engine) (scopes : List Entity) (names : Option (List String))
    (store : σ)
    (proper : ∀ visit ∈ engine.visits scopes names,
      ∀ field ∈ engine.registry.field? visit.1.kind visit.2,
        (engine.standing store visit.1 field).limit.IsProperLimit) :
    ((∃ kind name after, engine.sums scopes names [.limit] store =
        .error (.unknownQuota kind name) after) ↔
      ∃ visit ∈ engine.visits scopes names,
        engine.registry.field? visit.1.kind visit.2 = none) ∧
    ((∀ visit ∈ engine.visits scopes names,
        (engine.registry.field? visit.1.kind visit.2).isSome) →
      ∃ sums, engine.sums scopes names [.limit] store = .ok sums store ∧
        (∀ name, name ∈ sums ↔ ∃ visit ∈ engine.visits scopes names, visit.2 = name) ∧
        ∀ name sum, sums[name]? = some sum →
          (.unlimited ∈ engine.visitedLimits store scopes names name → sum = .unlimited) ∧
          (.unlimited ∉ engine.visitedLimits store scopes names name →
            sum.value = min 9223372036854775807
              ((engine.visitedLimits store scopes names name).map Amount.value).sum)) ∧
    ∀ permuted : List Entity, permuted.Perm scopes →
      engine.sums permuted names [.limit] store = engine.sums scopes names [.limit] store ∨
      (∃ kind name, engine.sums permuted names [.limit] store =
          .error (.unknownQuota kind name) store) ∧
        ∃ kind name, engine.sums scopes names [.limit] store =
          .error (.unknownQuota kind name) store := by
  refine ⟨⟨?_, ?_⟩, fun registered => ?_, fun permuted same => ?_⟩
  · rintro ⟨kind, name, after, refused⟩
    by_contra all
    push Not at all
    have succeeds := sums_readings store
      (fun visit member => Option.isSome_iff_ne_none.2 (all visit member)) [.limit]
    rw [succeeds] at refused
    cases refused
  · intro unregistered
    obtain ⟨kind, name, refused⟩ := sums_refused store unregistered [.limit]
    exact ⟨kind, name, store, refused⟩
  · obtain ⟨sums, succeeds, each⟩ := sums_visited proper registered
    refine ⟨sums, succeeds, fun name => ?_, fun name sum found => ?_⟩
    · rw [Std.ExtTreeMap.mem_iff_isSome_getElem?, each name]
      split <;> simp_all
    · rw [each name] at found
      split at found
      · obtain rfl := Option.some.inj found
        exact ⟨fun mark => if_pos mark, fun finite =>
          Amount.value_totalLimit (isProperLimit_visitedLimits proper name) finite⟩
      · cases found
  -- Both orders visit the same quotas, but they may meet different unregistered ones first.
  · by_cases unregistered : ∃ visit ∈ engine.visits scopes names,
        engine.registry.field? visit.1.kind visit.2 = none
    · obtain ⟨visit, member, unknown⟩ := unregistered
      obtain ⟨listed, named⟩ := mem_visits.1 member
      have other := mem_visits.2 ⟨same.mem_iff.2 listed, named⟩
      exact .inr ⟨sums_refused store ⟨visit, other, unknown⟩ [.limit],
        sums_refused store ⟨visit, member, unknown⟩ [.limit]⟩
    · push Not at unregistered
      exact .inl (sums_permuted proper
        (fun visit member => Option.isSome_iff_ne_none.2 (unregistered visit member)) same)

end Engine

section Sample

/-- The team has no record of its own, so its limits are the default ones. -/
def plainTeam : Entity := ⟨"team", "blue"⟩

/-- The stored limit of storage is counted twice and the default one once. The default limit of the
seats is none, and the stored one is lost in the sum. -/
theorem limitSums_exact_sample :
    ∃ sums, sampleEngine.sums [sampleTeam, plainTeam, sampleTeam] none [.limit] busyStore =
        .ok sums busyStore ∧
      sampleEngine.sums [sampleTeam, sampleTeam, plainTeam] none [.limit] busyStore =
        .ok sums busyStore ∧
      (∀ sum, sums["storage"]? = some sum → sum.value = 30) ∧
      ("storage" ∈ sums) ∧ ("seats" ∈ sums) ∧
      ∀ sum, sums["seats"]? = some sum → sum = .unlimited := by
  obtain ⟨-, succeeds, permutes⟩ := sampleEngine.limitSums_exact
    [sampleTeam, plainTeam, sampleTeam] none busyStore (by decide +kernel)
  obtain ⟨sums, run, keys, each⟩ := succeeds (by decide)
  have same := permutes [sampleTeam, sampleTeam, plainTeam] (by decide)
  refine ⟨sums, run, ?_, fun sum found => ?_, (keys "storage").2 (by decide),
    (keys "seats").2 (by decide), fun sum found => ?_⟩
  · rcases same with equal | ⟨-, kind, name, refused⟩
    · rw [equal, run]
    · rw [run] at refused
      cases refused
  · rw [(each "storage" sum found).2 (by decide +kernel)]
    decide +kernel
  · exact (each "seats" sum found).1 (by decide +kernel)

/-- A refusal names the first visited quota that is not registered, so this name follows the order of
the scopes. -/
theorem refusedSums_follow_order :
    ¬ ∀ (scopes permuted : List Entity) (names : Option (List String)) (store : MemoryStore),
      (∀ visit ∈ sampleEngine.visits scopes names,
        ∀ field ∈ sampleEngine.registry.field? visit.1.kind visit.2,
          (sampleEngine.standing store visit.1 field).limit.IsProperLimit) →
      permuted.Perm scopes →
      sampleEngine.sums permuted names [.limit] store =
        sampleEngine.sums scopes names [.limit] store := by
  intro claimed
  have same := claimed [sampleTeam, sampleOrganization] [sampleOrganization, sampleTeam]
    (some ["load"]) busyStore (by decide +kernel) (by decide)
  have first : sampleEngine.sums [sampleTeam, sampleOrganization] (some ["load"]) [.limit] busyStore =
      .error (.unknownQuota "team" "load") busyStore := rfl
  have swapped : sampleEngine.sums [sampleOrganization, sampleTeam] (some ["load"]) [.limit]
      busyStore = .error (.unknownQuota "organization" "load") busyStore := rfl
  rw [first, swapped] at same
  simp at same

end Sample

end HierarchicalQuota
