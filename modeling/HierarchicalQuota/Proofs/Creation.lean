import HierarchicalQuota.Proofs.Balance

namespace HierarchicalQuota

open HierarchicalQuota.Action (Ensures)
open LawfulStore (lookup put)

/-- Outside a frame no record has changed, and inside it no record has been lost. -/
structure Frame {σ : Type} [QuotaStore σ] [LawfulStore σ] (touched : Entity → String → Prop)
    (before after : σ) : Prop where
  same : ∀ scope name, ¬ touched scope name → lookup after scope name = lookup before scope name
  kept : ∀ scope name, stored before scope name = true → stored after scope name = true

namespace Frame

variable {σ : Type} [QuotaStore σ] [LawfulStore σ] {touched wider : Entity → String → Prop}
  {before middle after : σ}

/-- Where nothing is done, nothing outside the frame has changed. -/
theorem refl (store : σ) : Frame touched store store := ⟨fun _ _ _ => rfl, fun _ _ kept => kept⟩

/-- Frames hold for one step after another. -/
theorem trans (first : Frame touched before middle) (second : Frame touched middle after) :
    Frame touched before after where
  same scope name untouched :=
    (second.same scope name untouched).trans (first.same scope name untouched)
  kept scope name keeps := second.kept scope name (first.kept scope name keeps)

/-- A wider frame claims less. -/
theorem mono (frame : Frame touched before after)
    (wide : ∀ scope name, touched scope name → wider scope name) : Frame wider before after where
  same scope name untouched := frame.same scope name fun inside => untouched (wide scope name inside)
  kept := frame.kept

/-- A write stays within a frame that holds its record. -/
theorem put (store : σ) {scope : Entity} {name : String} (quota : Quota)
    (inside : touched scope name) : Frame touched store (LawfulStore.put store scope name quota) where
  same other label untouched := by
    rw [LawfulStore.lookup_put, if_neg]
    rintro ⟨rfl, rfl⟩
    exact untouched inside
  kept other label keeps := by
    rw [stored, LawfulStore.lookup_put]
    split
    · rfl
    · exact keeps

/-- Shifts stay within a frame outside which no amount is moved. -/
theorem of_moved {amount : Entity → String → Int} (moved : Moved before after amount)
    (still : ∀ scope name, ¬ touched scope name → amount scope name = 0) :
    Frame touched before after where
  same scope name untouched := moved.lookup_eq (still scope name untouched)
  kept scope name keeps := by rwa [moved.stored_eq]

end Frame

namespace Engine

variable {engine : Engine}

/-- A scope reaches the records of the aggregates above it. -/
def Reaches (engine : Engine) (scope other : Entity) (name : String) : Prop :=
  ∃ aggregate : Aggregate, engine.AggregateAbove scope aggregate ∧
    aggregate.scope = other ∧ aggregate.field.name = name

/-- Only registered aggregates can be reached. -/
theorem Reaches.isSome_field? {scope other : Entity} {name : String}
    (reaches : engine.Reaches scope other name) :
    (engine.registry.field? other.kind name).isSome := by
  obtain ⟨aggregate, above, rfl, rfl⟩ := reaches
  exact Registry.isSome_field? above.registered

/-- What a scope above reaches is reached from below. -/
theorem Reaches.trans {child scope other : Entity} {name : String}
    (above : engine.graph.Above child scope) (reaches : engine.Reaches scope other name) :
    engine.Reaches child other name := by
  obtain ⟨aggregate, higher, rfl, rfl⟩ := reaches
  exact ⟨aggregate, .trans above higher, rfl, rfl⟩

/-- No chain leads to a record that is not reached. -/
theorem chains_eq_zero {stored : Entity → String → Bool} {levels : Nat} {child scope : Entity}
    {quota name : String} {measure : Measure} (unreached : ¬ engine.Reaches child scope name) :
    engine.chains stored levels child quota measure scope name = 0 := by
  induction levels generalizing child quota measure with
  | zero => rfl
  | succ levels inductionHypothesis =>
      rw [chains]
      apply sum_map_eq_zero
      intro aggregate member
      have above := aggregateAbove_of_mem (List.mem_filter.1 member).1
      have elsewhere : ¬ (aggregate.scope = scope ∧ aggregate.field.name = name) :=
        fun same => unreached ⟨aggregate, above, same.1, same.2⟩
      rw [Aggregate.count, if_neg elsewhere, zero_add]
      exact inductionHypothesis fun reaches => unreached (.trans above.above reaches)

section Budget

variable {σ : Type} [QuotaStore σ] [LawfulStore σ]

/-- These are the keys under which an aggregate of a quota parent can be stored. -/
def aggregateKeys (engine : Engine) : List (Entity × String) :=
  (engine.graph.nodes.toList.flatMap fun entry => entry.2.relations.toList).flatMap fun relation =>
    engine.registry.registrations.map fun registration => (relation.2, registration.field.name)

/-- The budget of nested creations is one more than there are keys. -/
theorem length_aggregateKeys (engine : Engine) :
    engine.aggregateKeys.length + 1 = engine.creationBudget := by
  rw [aggregateKeys, creationBudget, List.length_flatMap,
    List.map_congr_left fun relation _ => List.length_map _, List.map_const',
    List.sum_replicate_nat]

/-- Every aggregate above a scope has one of the keys, since its scope is the target of a
relation. -/
theorem AggregateAbove.mem_aggregateKeys {scope : Entity} {aggregate : Aggregate}
    (above : engine.AggregateAbove scope aggregate) :
    (aggregate.scope, aggregate.field.name) ∈ engine.aggregateKeys := by
  obtain ⟨child, parent⟩ := Graph.Above.exists_child above.above
  rw [Graph.quotaParents, List.mem_filterMap] at parent
  obtain ⟨relation, -, related⟩ := parent
  obtain ⟨node, found, target⟩ := Option.bind_eq_some_iff.1 related
  have registered := above.registered
  rw [Registry.fields, List.mem_map] at registered
  obtain ⟨registration, member, isField⟩ := registered
  rw [aggregateKeys, List.mem_flatMap]
  refine ⟨(relation, aggregate.scope), ?_, ?_⟩
  · rw [List.mem_flatMap]
    exact ⟨(child, node), Std.ExtTreeMap.mem_toList_iff_getElem?_eq_some.2 found,
      Std.ExtTreeMap.mem_toList_iff_getElem?_eq_some.2 target⟩
  · rw [List.mem_map]
    exact ⟨registration, (List.mem_filter.1 member).1, by rw [isField]⟩

/-- This number bounds how many aggregates can still be created above a scope. -/
def unstored (engine : Engine) (store : σ) : Nat :=
  (engine.aggregateKeys.filter fun key => !stored store key.1 key.2).length

/-- The budget of nested creations is greater than the number of missing records. -/
theorem unstored_lt_creationBudget (engine : Engine) (store : σ) :
    engine.unstored store < engine.creationBudget := by
  have bound : engine.unstored store ≤ engine.aggregateKeys.length := List.length_filter_le _ _
  have total := engine.length_aggregateKeys
  omega

variable {touched : Entity → String → Prop} {before after : σ}

/-- The keys that are missing afterwards are some of those that were missing before. -/
theorem unstored_eq (engine : Engine) (frame : Frame touched before after) :
    engine.unstored after =
      ((engine.aggregateKeys.filter fun key => !stored before key.1 key.2).filter fun key =>
        !stored after key.1 key.2).length := by
  rw [unstored, List.filter_filter]
  congr 1
  apply List.filter_congr
  intro key _
  cases earlier : stored before key.1 key.2 with
  | false => simp
  | true => simp [frame.kept _ _ earlier]

/-- No record goes missing within a frame. -/
theorem unstored_le (engine : Engine) (frame : Frame touched before after) :
    engine.unstored after ≤ engine.unstored before := by
  rw [unstored_eq engine frame]
  exact List.length_filter_le _ _

/-- A record that is created under one of the keys leaves one less to create. -/
theorem unstored_lt (engine : Engine) (frame : Frame touched before after) {scope : Entity}
    {name : String} (member : (scope, name) ∈ engine.aggregateKeys)
    (absent : stored before scope name = false) (present : stored after scope name = true) :
    engine.unstored after < engine.unstored before := by
  rw [unstored_eq engine frame, unstored]
  apply List.length_filter_lt_length_iff_exists.2
  refine ⟨(scope, name), List.mem_filter.2 ⟨member, ?_⟩, ?_⟩
  · simpa using absent
  · simpa using present

end Budget

section Create

variable {σ : Type} [QuotaStore σ] [LawfulStore σ]

/-- A sound store is balanced and holds records of registered fields only. -/
structure Sound (engine : Engine) (store : σ) : Prop where
  balanced : engine.Balanced store
  registered : engine.Registered store

/-- New records within a frame of registered fields are registered. -/
theorem Registered.of_frame {before after : σ} {touched : Entity → String → Prop}
    (registered : engine.Registered before) (frame : Frame touched before after)
    (known : ∀ scope name, touched scope name → (engine.registry.field? scope.kind name).isSome) :
    engine.Registered after := by
  intro scope name present
  by_cases inside : touched scope name
  · exact known scope name inside
  · apply registered scope name
    rwa [stored, frame.same scope name inside] at present

/-- A new record starts from this quota. -/
def starting (engine : Engine) (store : σ) (scope : Entity) (field : Field) : Quota :=
  if field.aggregator?.isSome then
    { field.initial scope engine.graph with usage := engine.childSum store scope field }
  else
    field.initial scope engine.graph

/-- A record that is not summed begins with its defaults. -/
theorem starting_of_plain (store : σ) (scope : Entity) {field : Field}
    (plain : field.aggregator? = none) :
    engine.starting store scope field = field.initial scope engine.graph := by
  rw [starting, if_neg (by simp [plain])]

/-- A new aggregate begins with a sum that depends only on the records of its children. -/
theorem starting_congr {before after : σ} {scope : Entity} {field : Field}
    (same : ∀ rule ∈ field.aggregator?, ∀ quota ∈ field.childQuota?,
      ∀ child ∈ rule.children scope engine.graph,
        lookup after child quota = lookup before child quota) :
    engine.starting after scope field = engine.starting before scope field := by
  rw [starting, starting, childSum_congr same]

/-- The engine reads the quota with which a record begins, and changes nothing. -/
theorem ensures_startingQuota {fit : StoreCall → σ → Prop} (engine : Engine) (scope : Entity)
    (field : Field) (store : σ) :
    Ensures fit (engine.startingQuota scope field) store fun result after =>
      result = .ok (engine.starting store scope field) ∧ after = store := by
  rw [startingQuota, starting]
  dsimp only
  split
  · refine Action.ensures_bind (fun _ => inferInstance)
      ((ensures_sumChildren engine scope field store).mono ?_)
    rintro _ after ⟨rfl, rfl⟩
    exact Action.ensures_pure ⟨rfl, rfl⟩
  · exact Action.ensures_pure ⟨rfl, rfl⟩

/-- A run forms its sums exactly if every shift is exact, and every sum from which a record starts. -/
structure FormsExactly (engine : Engine) (fit : StoreCall → σ → Prop) : Prop where
  shifts : ShiftsExactly fit
  sums {scope : Entity} {name : String} {initial : Quota} {store : σ} :
    fit (.getOrCreate scope name initial) store → engine.ChildrenSumExactly store scope name

/-- Exact calls form new sums exactly. -/
theorem formsExactly_exact : engine.FormsExactly (engine.Exact : StoreCall → σ → Prop) where
  shifts _ _ _ _ quota exact found := exact.1 quota found
  sums exact := exact.2

variable {fit : StoreCall → σ → Prop}

/-- A change that spreads pays what it made the aggregates right above it owe. -/
theorem ensures_spread (exact : ShiftsExactly fit) (matching : engine.Matching)
    (shallow : engine.graph.Shallow) {child : Entity} {quota : String} {measure : Measure}
    {delta : Amount} {store : σ} {debt : Entity → String → Int}
    (owing : engine.Owing store fun scope name =>
      debt scope name + delta.value * engine.directChains child quota measure scope name) :
    Ensures fit (engine.spread child quota measure delta) store fun result after =>
      ∃ missing, result = .ok missing ∧ engine.Owing after debt ∧
        Frame (engine.Reaches child) store after ∧
        ∀ aggregate ∈ missing, engine.AggregateAbove child aggregate := by
  refine (ensures_propagate engine maxHierarchyDepth child quota measure delta store
    (shallow child) (.inl exact)).mono ?_
  rintro _ after ⟨missing, rfl, moved, above⟩
  refine ⟨missing, rfl, owing.of_moved matching (shallow child) moved, Frame.of_moved moved ?_,
    fun aggregate member => (above aggregate member).1⟩
  intro scope name unreached
  rw [chains_eq_zero unreached]
  simp

omit [LawfulStore σ] in
/-- A change of zero goes nowhere, and so does one that no aggregate sums. -/
theorem ensures_spread_nowhere {child : Entity} {quota : String} {measure : Measure}
    {delta : Amount} (nowhere : delta = 0 ∨ engine.aggregatesOver child quota measure = [])
    (store : σ) :
    Ensures fit (engine.spread child quota measure delta) store fun result after =>
      result = .ok [] ∧ after = store := by
  rw [spread, show maxHierarchyDepth = 63 + 1 from rfl, propagate]
  split
  · exact Action.ensures_pure ⟨rfl, rfl⟩
  · rename_i nonzero
    rw [nowhere.resolve_left nonzero]
    refine Action.ensures_bind (fun _ => inferInstance) (Action.ensures_pure ?_)
    refine Action.ensures_bind (fun _ => inferInstance) (Action.ensures_pure ?_)
    exact Action.ensures_pure ⟨rfl, rfl⟩

section Announce

/-- A new record announces both its numbers, and learns which aggregates above it are missing. -/
def announce {τ : Type} [QuotaStore τ] (engine : Engine) (scope : Entity) (name : String)
    (quota : Quota) : Action τ (List Aggregate) := do
  let usageMissing ← engine.spread scope name .usage quota.usage
  let limitMissing ← engine.spread scope name .limit quota.limit
  return usageMissing ++ limitMissing

/-- A record is withdrawn by an announcement of its numbers with the opposite sign. -/
theorem withdraw_eq_announce {τ : Type} [QuotaStore τ] (engine : Engine) (child : Entity)
    (record : Record) :
    (engine.withdraw child record : Action τ (List Aggregate)) =
      engine.announce child record.name ⟨-record.quota.limit, -record.quota.usage⟩ := rfl

omit [LawfulStore σ] in
/-- What follows an announcement runs on all that it has spread to. -/
theorem ensures_announce_bind {α : Type} {scope : Entity} {name : String} {quota : Quota}
    {store : σ} {post : Except QuotaError α → σ → Prop}
    (next : List Aggregate → Action (RecordedStore σ) α) [∀ missing, Action.Extends (next missing)]
    (ensures : Ensures fit (engine.announce scope name quota) store fun result after =>
      match result with
      | .ok missing => Ensures fit (next missing) after post
      | .error error => post (.error error) after) :
    Ensures fit (do
        let usageMissing ← engine.spread scope name .usage quota.usage
        let limitMissing ← engine.spread scope name .limit quota.limit
        next (usageMissing ++ limitMissing)) store post := by
  have announced : Ensures fit (engine.announce scope name quota >>= next) store post :=
    Action.ensures_bind (fun _ => inferInstance)
      (ensures.mono fun result after holds => by cases result <;> exact holds)
  simpa only [announce, bind_assoc, pure_bind] using announced

/-- A record that is stored is left alone. -/
theorem ensures_create_stored (budget : Nat) {target : Aggregate} {store : σ} {quota : Quota}
    {post : Except QuotaError Quota → σ → Prop}
    (found : lookup store target.scope target.field.name = some quota)
    (holds : post (.ok quota) store) : Ensures fit (engine.create budget target) store post := by
  unfold create
  refine Action.ensures_bind (fun found => by cases found <;> cases budget <;> infer_instance)
    (Action.ensures_access (Action.ensures_get ?_))
  rw [found]
  exact Action.ensures_pure holds

/-- A record that is not stored is created from what it starts with. Unless the budget is used up, it is
announced, and the aggregates that it finds missing are created in turn. -/
theorem ensures_create_of_announce (budget : Nat) (target : Aggregate) {store : σ}
    {post : Except QuotaError Quota → σ → Prop}
    (absent : lookup store target.scope target.field.name = none)
    (ensures : fit (.getOrCreate target.scope target.field.name
        (engine.starting store target.scope target.field)) store →
      match budget with
      | 0 => post (.ok (engine.starting store target.scope target.field))
          (put store target.scope target.field.name (engine.starting store target.scope target.field))
      | budget + 1 =>
          Ensures fit (engine.announce target.scope target.field.name
              (engine.starting store target.scope target.field))
            (put store target.scope target.field.name (engine.starting store target.scope target.field))
            fun result middle =>
              match result with
              | .error error => post (.error error) middle
              | .ok missing =>
                  Ensures fit (missing.forM fun aggregate => discard (engine.create budget aggregate))
                    middle fun result after => post
                      (result.map fun _ => engine.starting store target.scope target.field) after) :
    Ensures fit (engine.create budget target) store post := by
  unfold create
  refine Action.ensures_bind (fun found => by cases found <;> cases budget <;> infer_instance)
    (Action.ensures_access (Action.ensures_get ?_))
  rw [absent]
  refine Action.ensures_bind (fun _ => by cases budget <;> infer_instance)
    ((ensures_startingQuota engine target.scope target.field store).mono ?_)
  rintro _ store ⟨rfl, rfl⟩
  refine Action.ensures_bind (fun _ => by cases budget <;> infer_instance) (Action.ensures_access
    (Action.ensures_getOrCreate (fun quota present => ?_) fun _ fits => ?_))
  · rw [absent] at present
    cases present
  -- The record is new, so the creation goes on as far as the budget allows.
  have continues := ensures fits
  dsimp only [Except.mapError, if_true]
  cases budget with
  | zero => exact Action.ensures_pure continues
  | succ budget =>
      refine ensures_announce_bind (fun missing => do
        missing.forM fun aggregate => discard (engine.create budget aggregate)
        return engine.starting store target.scope target.field) (continues.mono ?_)
      rintro (error | missing) middle holds
      · exact holds
      refine Action.ensures_bind (fun _ => inferInstance) (holds.mono ?_)
      rintro (error | done) after finishes
      · exact finishes
      · exact Action.ensures_pure finishes

/-- A statement about the aggregates that are still to be created can be announced if it does not need
those that are stored, and if a new record is exchanged for the aggregates that it finds missing. -/
structure Announces (engine : Engine) (fit : StoreCall → σ → Prop)
    (good : List Aggregate → σ → Prop) : Prop where
  present {target : Aggregate} {pending : List Aggregate} {store : σ} :
    good (target :: pending) store → stored store target.scope target.field.name = true →
    good pending store
  exchange {target : Aggregate} {pending : List Aggregate} {store : σ} :
    target.field ∈ engine.registry.fields target.scope.kind → good (target :: pending) store →
    lookup store target.scope target.field.name = none →
    fit (.getOrCreate target.scope target.field.name
      (engine.starting store target.scope target.field)) store →
    Ensures fit (engine.announce target.scope target.field.name
        (engine.starting store target.scope target.field))
      (put store target.scope target.field.name (engine.starting store target.scope target.field))
      fun result after => ∃ missing, result = .ok missing ∧ good (missing ++ pending) after ∧
        Frame (engine.Reaches target.scope) (put store target.scope target.field.name
          (engine.starting store target.scope target.field)) after ∧
        ∀ aggregate ∈ missing, engine.AggregateAbove target.scope aggregate

/-- What a settled creation leaves behind: a good store, in which nothing else changed but
aggregates. -/
def Settles (engine : Engine) (good : σ → Prop) (target : Aggregate) (before : σ)
    (result : Except QuotaError Quota) (after : σ) : Prop :=
  (∃ quota, result = .ok quota) ∧ good after ∧
    Frame (fun scope name => (scope = target.scope ∧ name = target.field.name) ∨
      engine.Reaches target.scope scope name) before after ∧
    stored after target.scope target.field.name = true

variable {good : List Aggregate → σ → Prop}

/-- Aggregates found missing are created in turn. -/
theorem ensures_forM_create {budget : Nat} {scope : Entity} {pending : List Aggregate}
    (each : ∀ (target : Aggregate) (others : List Aggregate) (store : σ),
      engine.HasAggregate target → good (target :: others) store →
      (target.scope, target.field.name) ∈ engine.aggregateKeys → engine.unstored store ≤ budget →
      Ensures fit (engine.create budget target) store (engine.Settles (good others) target store))
    {missing : List Aggregate}
    (above : ∀ aggregate ∈ missing, engine.AggregateAbove scope aggregate) {store : σ}
    (isGood : good (missing ++ pending) store) (enough : engine.unstored store ≤ budget) :
    Ensures fit (missing.forM fun aggregate => discard (engine.create budget aggregate)) store
      fun result after => result = .ok ⟨⟩ ∧ good pending after ∧
        Frame (engine.Reaches scope) store after := by
  induction missing generalizing store with
  | nil => exact Action.ensures_pure ⟨rfl, isGood, Frame.refl store⟩
  | cons aggregate missing inductionHypothesis =>
      have higher := above aggregate List.mem_cons_self
      refine Action.ensures_bind (fun _ => inferInstance) (Action.ensures_discard ((each aggregate
        (missing ++ pending) store higher.toHasAggregate isGood higher.mem_aggregateKeys
        enough).mono ?_))
      rintro _ middle ⟨⟨quota, rfl⟩, goodMiddle, first, -⟩
      have frame : Frame (engine.Reaches scope) store middle := by
        apply first.mono
        rintro other name (⟨rfl, rfl⟩ | reaches)
        · exact ⟨aggregate, higher, rfl, rfl⟩
        · exact .trans higher.above reaches
      refine (inductionHypothesis
        (fun other member => above other (List.mem_cons_of_mem _ member)) goodMiddle
        ((unstored_le engine frame).trans enough)).mono ?_
      rintro _ after ⟨rfl, goodAfter, rest⟩
      exact ⟨rfl, goodAfter, frame.trans rest⟩

/-- A target that is stored is left alone. -/
theorem Announces.settles (announces : engine.Announces fit good) {target : Aggregate}
    {pending : List Aggregate} {store : σ} (isGood : good (target :: pending) store) {quota : Quota}
    (found : lookup store target.scope target.field.name = some quota) :
    engine.Settles (good pending) target store (.ok quota) store := by
  have present : stored store target.scope target.field.name = true := by
    rw [stored, found]
    rfl
  exact ⟨⟨quota, rfl⟩, announces.present isGood present, Frame.refl store, present⟩

/-- Within its budget, a creation settles its target and everything that it finds missing. -/
theorem ensures_create_announced (announces : engine.Announces fit good) (budget : Nat)
    (target : Aggregate) (pending : List Aggregate) (store : σ)
    (registered : target.field ∈ engine.registry.fields target.scope.kind)
    (isGood : good (target :: pending) store)
    (enough : engine.unstored store < budget ∨
      (target.scope, target.field.name) ∈ engine.aggregateKeys ∧ engine.unstored store ≤ budget) :
    Ensures fit (engine.create budget target) store
      (engine.Settles (good pending) target store) := by
  induction budget generalizing target pending store with
  | zero =>
      obtain ⟨member, noneLeft⟩ := enough.resolve_left (Nat.not_lt_zero _)
      -- No aggregate is left to create, so this one must be stored.
      have present : stored store target.scope target.field.name = true := by
        by_contra absent
        have left : (target.scope, target.field.name) ∈
            engine.aggregateKeys.filter fun key => !stored store key.1 key.2 :=
          List.mem_filter.2 ⟨member, by simpa using absent⟩
        have positive := List.length_pos_of_mem left
        rw [unstored] at noneLeft
        omega
      obtain ⟨quota, isStored⟩ := Option.isSome_iff_exists.1 present
      exact ensures_create_stored 0 isStored (announces.settles isGood isStored)
  | succ budget inductionHypothesis =>
      cases isStored : lookup store target.scope target.field.name with
      | some quota =>
          exact ensures_create_stored _ isStored (announces.settles isGood isStored)
      | none =>
          let created := put store target.scope target.field.name
            (engine.starting store target.scope target.field)
          have absent : stored store target.scope target.field.name = false := by
            rw [stored, isStored]
            rfl
          have frame : Frame (fun scope name => (scope = target.scope ∧ name = target.field.name) ∨
              engine.Reaches target.scope scope name) store created :=
            Frame.put store _ (.inl ⟨rfl, rfl⟩)
          have present : stored created target.scope target.field.name = true := by
            rw [stored, LawfulStore.lookup_put, if_pos ⟨rfl, rfl⟩]
            rfl
          have left : engine.unstored created ≤ budget := by
            rcases enough with fewer | ⟨member, fewer⟩
            · have bound := unstored_le engine frame
              omega
            · have bound := unstored_lt engine frame member absent present
              omega
          refine ensures_create_of_announce (budget + 1) target isStored fun fits =>
            (announces.exchange registered isGood isStored fits).mono ?_
          rintro _ middle ⟨missing, rfl, goodMiddle, spread, above⟩
          refine (ensures_forM_create
            (fun target others store exists' goodStore member enough => inductionHypothesis target
              others store exists'.registered goodStore (.inr ⟨member, enough⟩))
            above goodMiddle ((unstored_le engine spread).trans left)).mono ?_
          rintro _ after ⟨rfl, goodAfter, further⟩
          exact ⟨⟨_, rfl⟩, goodAfter, frame.trans ((spread.trans further).mono
            fun _ _ reaches => .inr reaches), further.kept _ _ (spread.kept _ _ present)⟩

end Announce

/-- A new record owes both its numbers to the aggregates right above it, and nothing else. -/
theorem Sound.owing_put (matching : engine.Matching) {target : Aggregate} {store : σ}
    (registered : target.field ∈ engine.registry.fields target.scope.kind)
    (sound : engine.Sound store) (absent : lookup store target.scope target.field.name = none)
    (exact : engine.ChildrenSumExactly store target.scope target.field.name) :
    engine.Owing
      (put store target.scope target.field.name (engine.starting store target.scope target.field))
      fun other label => 0 +
        (engine.starting store target.scope target.field).limit.value *
            engine.directChains target.scope target.field.name .limit other label +
          (engine.starting store target.scope target.field).usage.value *
            engine.directChains target.scope target.field.name .usage other label := by
  refine (sound.balanced.put matching (Registry.isSome_field? registered) ?_).congr ?_
  · intro field present sameName
    obtain rfl := Registry.eq_of_name_eq present.registered registered sameName
    rw [starting, if_pos present.aggregator, add_zero]
    exact value_childSum (Registry.field?_eq_some_iff.2 ⟨registered, rfl⟩) exact
  · intro other label
    rw [reading_of_none absent, reading_of_none absent]
    ring

/-- What is announced pays what its two numbers make the aggregates right above it owe. -/
theorem ensures_announce (exact : ShiftsExactly fit) (matching : engine.Matching)
    (shallow : engine.graph.Shallow) {scope : Entity} {name : String} {quota : Quota} {store : σ}
    {debt : Entity → String → Int}
    (owing : engine.Owing store fun other label => debt other label +
      quota.limit.value * engine.directChains scope name .limit other label +
        quota.usage.value * engine.directChains scope name .usage other label) :
    Ensures fit (engine.announce scope name quota) store fun result after =>
      ∃ missing, result = .ok missing ∧ engine.Owing after debt ∧
        Frame (engine.Reaches scope) store after ∧
        ∀ aggregate ∈ missing, engine.AggregateAbove scope aggregate := by
  refine Action.ensures_bind (fun _ => inferInstance)
    ((ensures_spread exact matching shallow owing).mono ?_)
  rintro _ middle ⟨usageMissing, rfl, owesLimit, usageFrame, usageAbove⟩
  refine Action.ensures_bind (fun _ => inferInstance)
    ((ensures_spread exact matching shallow owesLimit).mono ?_)
  rintro _ after ⟨limitMissing, rfl, owesRest, limitFrame, limitAbove⟩
  exact Action.ensures_pure ⟨_, rfl, owesRest, usageFrame.trans limitFrame,
    fun aggregate member => (List.mem_append.1 member).elim (usageAbove aggregate)
      (limitAbove aggregate)⟩

/-- What a creation leaves behind: a sound store, in which nothing else changed but aggregates. -/
def Creates (engine : Engine) (target : Aggregate) (before : σ)
    (result : Except QuotaError Quota) (after : σ) : Prop :=
  (∃ quota, result = .ok quota) ∧ engine.Sound after ∧
    Frame (fun scope name => (scope = target.scope ∧ name = target.field.name) ∨
      engine.Reaches target.scope scope name) before after ∧
    stored after target.scope target.field.name = true

/-- Soundness does not depend on what is still to be created. -/
theorem announces_sound (exact : engine.FormsExactly fit) (matching : engine.Matching)
    (shallow : engine.graph.Shallow) :
    engine.Announces fit fun _ (store : σ) => engine.Sound store where
  present sound _ := sound
  exchange {target pending store} registered sound absent fits := by
    have frame : Frame (fun scope name => scope = target.scope ∧ name = target.field.name) store
        (put store target.scope target.field.name
          (engine.starting store target.scope target.field)) :=
      Frame.put store _ ⟨rfl, rfl⟩
    refine (ensures_announce exact.shifts matching shallow
      (sound.owing_put matching registered absent (exact.sums fits))).mono ?_
    rintro _ after ⟨missing, rfl, balanced, spread, above⟩
    refine ⟨missing, rfl, ⟨balanced, ?_⟩, spread, above⟩
    apply Registered.of_frame (sound.registered.of_frame frame ?_) spread
    · exact fun _ _ reaches => reaches.isSome_field?
    · rintro scope name ⟨rfl, rfl⟩
      exact Registry.isSome_field? registered

/-- A creation within its budget keeps a store sound. -/
theorem ensures_create (exact : engine.FormsExactly fit) (matching : engine.Matching)
    (shallow : engine.graph.Shallow) (budget : Nat) (target : Aggregate) (store : σ)
    (registered : target.field ∈ engine.registry.fields target.scope.kind)
    (sound : engine.Sound store)
    (enough : engine.unstored store < budget ∨
      (target.scope, target.field.name) ∈ engine.aggregateKeys ∧ engine.unstored store ≤ budget) :
    Ensures fit (engine.create budget target) store (engine.Creates target store) :=
  ensures_create_announced (announces_sound exact matching shallow) budget target [] store registered
    sound enough

end Create

end Engine

end HierarchicalQuota
