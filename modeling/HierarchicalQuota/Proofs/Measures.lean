import HierarchicalQuota.Proofs.Validation

namespace HierarchicalQuota

open LawfulStore (lookup)

/-- A reading of a quota is added in each measure under one key. -/
def sumKey (name : String) : Measure → String
  | .usage => name ++ "_usage"
  | .limit => name

/-- This function adds a reading in one measure to the sum so far. -/
def addReading (quota : Quota) (sum : Amount) : Measure → Amount
  | .usage => sum + quota.usage
  | .limit => Engine.addLimit sum quota.limit

/-- A measure of a quota is added at its key. -/
theorem addMeasure_eq (name : String) (quota : Quota) (sums : Table String Amount)
    (measure : Measure) :
    Engine.addMeasure name quota sums measure =
      sums.insert (sumKey name measure)
        (addReading quota (sums.getD (sumKey name measure) 0) measure) := by
  cases measure <;> rfl

/-- This function adds a reading to the sum at a key, in the measures that have this key. -/
def addAt (key : String) (measures : List Measure) (sum : Option Amount)
    (reading : String × Quota) : Option Amount :=
  (measures.filter fun measure => sumKey reading.1 measure = key).foldl
    (fun sum measure => some (addReading reading.2 (sum.getD 0) measure)) sum

/-- The sum at a key depends only on the sum that was there before. -/
theorem getElem?_foldl_addMeasure (key : String) (reading : String × Quota)
    (measures : List Measure) (sums : Table String Amount) :
    (measures.foldl (Engine.addMeasure reading.1 reading.2) sums)[key]? =
      addAt key measures sums[key]? reading := by
  unfold addAt
  induction measures generalizing sums with
  | nil => rfl
  | cons measure measures inductionHypothesis =>
      rw [List.foldl_cons, inductionHypothesis, addMeasure_eq, Std.ExtTreeMap.getElem?_insert]
      by_cases same : sumKey reading.1 measure = key
      · rw [List.filter_cons_of_pos (by simpa using same), List.foldl_cons]
        simp [same, Std.ExtTreeMap.getD_eq_getD_getElem?]
      · rw [List.filter_cons_of_neg (by simpa using same)]
        simp [same]

/-- This table holds the sums of some readings. -/
def sumUp (measures : List Measure) (readings : List (String × Quota))
    (sums : Table String Amount) : Table String Amount :=
  readings.foldl (fun sums reading => measures.foldl (Engine.addMeasure reading.1 reading.2) sums)
    sums

/-- The sum at a key is formed out of the readings at this key alone. -/
theorem getElem?_sumUp (key : String) (measures : List Measure) (readings : List (String × Quota))
    (sums : Table String Amount) :
    (sumUp measures readings sums)[key]? = readings.foldl (addAt key measures) sums[key]? := by
  unfold sumUp
  induction readings generalizing sums with
  | nil => rfl
  | cons reading readings inductionHypothesis =>
      rw [List.foldl_cons, List.foldl_cons, inductionHypothesis, getElem?_foldl_addMeasure]

/-- A measure that no reading adds at a key does not change the sum there. -/
theorem getElem?_sumUp_without {key : String} {measure : Measure} {readings : List (String × Quota)}
    (apart : ∀ reading ∈ readings, sumKey reading.1 measure ≠ key) (measures : List Measure)
    (sums : Table String Amount) :
    (sumUp measures readings sums)[key]? =
      (sumUp (measures.filter fun other => other ≠ measure) readings sums)[key]? := by
  rw [getElem?_sumUp, getElem?_sumUp]
  apply List.foldl_ext
  intro sum reading member
  rw [addAt, addAt, List.filter_filter]
  congr 1
  apply List.filter_congr
  intro other _
  by_cases same : other = measure
  · simp [same, apart reading member]
  · simp [same]

/-- Readings can be added in two parts. -/
theorem sumUp_append (measures : List Measure) (first second : List (String × Quota))
    (sums : Table String Amount) :
    sumUp measures (first ++ second) sums = sumUp measures second (sumUp measures first sums) :=
  List.foldl_append

variable {σ : Type} [QuotaStore σ] [LawfulStore σ]

namespace Engine

/-- These are the quotas that a sum visits. -/
def visits (engine : Engine) (scopes : List Entity) (names : Option (List String)) :
    List (Entity × String) :=
  scopes.flatMap fun scope => (names.getD (engine.registry.names scope.kind)).map (scope, ·)

/-- A visited quota reads as stored or as its defaults, if it is registered. -/
def visited (engine : Engine) (store : σ) (visit : Entity × String) :
    Except QuotaError (String × Quota) := do
  let field ← engine.field visit.1 visit.2
  return (visit.2, engine.standing store visit.1 field)

variable {engine : Engine} {store : σ}

/-- A visit that succeeds reads under the name that it visits. -/
theorem visited_ok {visit : Entity × String} {reading : String × Quota}
    (reads : engine.visited store visit = .ok reading) : reading.1 = visit.2 := by
  unfold visited at reads
  cases found : engine.field visit.1 visit.2 with
  | error error =>
      rw [found] at reads
      cases reads
  | ok field =>
      rw [found] at reads
      cases reads
      rfl

/-- The sums over one scope fail with the first reading that fails, or they add up all readings. -/
theorem sumScope_eq (scope : Entity) (measures : List Measure) (names : List String)
    (sums : Table String Amount) :
    engine.sumScope scope measures names sums store =
      match (names.map (scope, ·)).mapM (engine.visited store) with
      | .ok readings => .ok (sumUp measures readings sums) store
      | .error error => .error error store := by
  induction names generalizing sums with
  | nil => rfl
  | cons name names inductionHypothesis =>
      unfold sumScope
      rw [read_eq, List.map_cons, List.mapM_cons, visited, Engine.field, Registry.field]
      cases engine.registry.field? scope.kind name with
      | none => rfl
      | some field =>
          dsimp only
          rw [inductionHypothesis]
          cases (names.map (scope, ·)).mapM (engine.visited store) with
          | error error => rfl
          | ok readings => rfl

/-- The sums over all scopes fail with the first reading that fails, or they add up all readings.
Neither depends on the measures. -/
theorem sums_eq (scopes : List Entity) (names : Option (List String)) (measures : List Measure) :
    engine.sums scopes names measures store =
      match (engine.visits scopes names).mapM (engine.visited store) with
      | .ok readings => .ok (sumUp measures readings ∅) store
      | .error error => .error error store := by
  unfold sums
  generalize (∅ : Table String Amount) = sums
  induction scopes generalizing sums with
  | nil => rfl
  | cons scope scopes inductionHypothesis =>
      unfold sumScopes
      rw [visits, List.flatMap_cons, ← visits, List.mapM_append]
      have first : engine.sumScope scope measures (names.getD (engine.registry.names scope.kind))
          sums store = _ := sumScope_eq scope measures _ sums
      cases reads : ((names.getD (engine.registry.names scope.kind)).map (scope, ·)).mapM
          (engine.visited store) with
      | error error =>
          rw [reads] at first
          exact Action.bind_of_eq_error first
      | ok readings =>
          rw [reads] at first
          rw [Action.bind_of_eq_ok first, inductionHypothesis]
          cases (engine.visits scopes names).mapM (engine.visited store) with
          | error error => rfl
          | ok others =>
              change _ = EStateM.Result.ok (sumUp measures (readings ++ others) sums) store
              rw [sumUp_append]

/-- Every reading has the name of a visit. -/
theorem exists_visit {visits : List (Entity × String)} {readings : List (String × Quota)}
    (reads : visits.mapM (engine.visited store) = .ok readings) {reading : String × Quota}
    (member : reading ∈ readings) : ∃ visit ∈ visits, visit.2 = reading.1 := by
  induction visits generalizing readings with
  | nil =>
      cases reads
      cases member
  | cons visit visits inductionHypothesis =>
      rw [List.mapM_cons] at reads
      cases first : engine.visited store visit with
      | error error =>
          rw [first] at reads
          cases reads
      | ok own =>
          cases rest : visits.mapM (engine.visited store) with
          | error error =>
              rw [first, rest] at reads
              cases reads
          | ok others =>
              rw [first, rest] at reads
              cases reads
              rcases List.mem_cons.1 member with rfl | later
              · exact ⟨visit, List.mem_cons_self, (visited_ok first).symm⟩
              · obtain ⟨other, listed, named⟩ := inductionHypothesis rest later
                exact ⟨other, List.mem_cons_of_mem _ listed, named⟩

/-- Where no visit has a key, no reading is added there. -/
theorem sumKey_ne_of_visits {visits : List (Entity × String)} {readings : List (String × Quota)}
    (reads : visits.mapM (engine.visited store) = .ok readings) {measure : Measure} {key : String}
    (apart : ∀ visit ∈ visits, sumKey visit.2 measure ≠ key) :
    ∀ reading ∈ readings, sumKey reading.1 measure ≠ key := by
  intro reading member
  obtain ⟨visit, listed, named⟩ := exists_visit reads member
  rw [← named]
  exact apart visit listed

/-- Asking for both measures fails where asking for one does. The sum of limits under a name is the
same in both answers unless the usages of another visited name are summed under it, and the sum of
usages is the same unless the limits of another visited name are summed under its key. -/
theorem sums_apart (engine : Engine) (scopes : List Entity) (names : Option (List String))
    (store after : σ) (both : Table String Amount)
    (succeeds : engine.sums scopes names [.limit, .usage] store = .ok both after) :
    after = store ∧ ∃ limits usages,
      engine.sums scopes names [.limit] store = .ok limits store ∧
      engine.sums scopes names [.usage] store = .ok usages store ∧
      ∀ visit ∈ engine.visits scopes names,
        ((∀ other ∈ engine.visits scopes names, other.2 ++ "_usage" ≠ visit.2) →
          both[visit.2]? = limits[visit.2]?) ∧
        ((∀ other ∈ engine.visits scopes names, other.2 ≠ visit.2 ++ "_usage") →
          both[visit.2 ++ "_usage"]? = usages[visit.2 ++ "_usage"]?) := by
  rw [sums_eq] at succeeds
  cases reads : (engine.visits scopes names).mapM (engine.visited store) with
  | error error =>
      rw [reads] at succeeds
      cases succeeds
  | ok readings =>
      rw [reads] at succeeds
      cases succeeds
      have limitsOnly : engine.sums scopes names [.limit] store =
          .ok (sumUp [.limit] readings ∅) store := by rw [sums_eq, reads]
      have usagesOnly : engine.sums scopes names [.usage] store =
          .ok (sumUp [.usage] readings ∅) store := by rw [sums_eq, reads]
      refine ⟨rfl, _, _, limitsOnly, usagesOnly, ?_⟩
      intro visit _
      constructor
      · intro apart
        have besideUsages : ∀ reading ∈ readings, sumKey reading.1 .usage ≠ visit.2 :=
          sumKey_ne_of_visits reads apart
        exact getElem?_sumUp_without besideUsages [.limit, .usage] ∅
      · intro apart
        have besideLimits : ∀ reading ∈ readings,
            sumKey reading.1 .limit ≠ visit.2 ++ "_usage" := sumKey_ne_of_visits reads apart
        exact getElem?_sumUp_without besideLimits [.limit, .usage] ∅

end Engine

section Sample

/-- The key of the one quota's usages is the name of the other quota. -/
def meetingEngine : Engine where
  registry :=
    { registrations :=
        [⟨"team", { name := "cpu", defaultUsage := .constant 5 }⟩,
          ⟨"team", { name := "cpu_usage", defaultLimit := .constant 5 }⟩]
      distinct := by decide }
  graph := sampleGraph

/-- The names of the team's quotas do not meet, so each answer is as it is on its own. -/
theorem sums_apart_sample :
    ∃ both limits usages,
      sampleEngine.sums [sampleTeam] none [.limit, .usage] busyStore = .ok both busyStore ∧
      sampleEngine.sums [sampleTeam] none [.limit] busyStore = .ok limits busyStore ∧
      sampleEngine.sums [sampleTeam] none [.usage] busyStore = .ok usages busyStore ∧
      both["storage"]? = limits["storage"]? ∧
      both["storage_usage"]? = usages["storage_usage"]? := by
  have succeeds : sampleEngine.sums [sampleTeam] none [.limit, .usage] busyStore =
      .ok _ busyStore := rfl
  obtain ⟨-, limits, usages, limitsOnly, usagesOnly, same⟩ :=
    sampleEngine.sums_apart [sampleTeam] none busyStore busyStore _ succeeds
  obtain ⟨sameLimit, sameUsage⟩ := same (sampleTeam, "storage") (by decide)
  exact ⟨_, limits, usages, succeeds, limitsOnly, usagesOnly, sameLimit (by decide),
    sameUsage (by decide)⟩

/-- The usage of the first quota and the limit of the second end up in one sum. -/
theorem sums_meet :
    ¬ ∀ (engine : Engine) (scopes : List Entity) (names : Option (List String))
      (store after : MemoryStore) (both limits usages : Table String Amount),
      engine.sums scopes names [.limit, .usage] store = .ok both after →
      engine.sums scopes names [.limit] store = .ok limits after →
      engine.sums scopes names [.usage] store = .ok usages after →
      ∀ visit ∈ engine.visits scopes names, both[visit.2]? = limits[visit.2]? ∧
        both[visit.2 ++ "_usage"]? = usages[visit.2 ++ "_usage"]? := by
  intro claimed
  have same := (claimed meetingEngine [sampleTeam] none MemoryStore.empty MemoryStore.empty _ _ _
    rfl rfl rfl (sampleTeam, "cpu_usage") (by decide)).1
  revert same
  decide +kernel

end Sample

end HierarchicalQuota
