import HierarchicalQuota.Proofs.Completion
import HierarchicalQuota.Proofs.Events
import HierarchicalQuota.Proofs.Retracing

namespace HierarchicalQuota

open HierarchicalQuota.Action (Ensures)
open LawfulStore (lookup put)

variable {σ : Type} [QuotaStore σ] [LawfulStore σ]

namespace Engine

variable {engine : Engine}

section Total

/-- This number is what some changes add to one usage. -/
def total (changes : List Change) (scope : Entity) (name : String) : Int :=
  ((amounts changes scope name).map Amount.value).sum

/-- A change of a quota adds to the total of this quota. -/
theorem total_cons_self (scope : Entity) (name : String) (amount : Amount) (changes : List Change) :
    total (⟨scope, name, amount⟩ :: changes) scope name =
      amount.value + total changes scope name := by
  rw [total, amounts_cons_self, List.map_cons, List.sum_cons, total]

/-- A change of another quota adds nothing to a total. -/
theorem total_cons_of_ne {change : Change} {scope : Entity} {name : String}
    (different : ¬ (change.scope = scope ∧ change.name = name)) (changes : List Change) :
    total (change :: changes) scope name = total changes scope name := by
  rw [total, amounts_cons_of_ne different, total]

/-- The order of changes does not matter to their total. -/
theorem total_perm {first second : List Change} (permuted : first.Perm second) (scope : Entity)
    (name : String) : total first scope name = total second scope name :=
  (((permuted.filter _).map _).map _).sum_eq

end Total

section Exactness

/-- Nothing is cut off when a call adds to a usage, and when children are summed for a new record. -/
def AddsExactly (engine : Engine) (call : StoreCall) (store : σ) : Prop :=
  call.AddsExactly store ∧
    match call with
    | .getOrCreate scope name _ => engine.ChildrenSumExactly store scope name
    | _ => True

/-- Whether a call adds exactly is decided on the store before the call. -/
instance (engine : Engine) :
    (call : StoreCall) → (store : σ) → Decidable (engine.AddsExactly call store)
  | .getOrCreate scope name initial, store =>
      inferInstanceAs (Decidable ((StoreCall.getOrCreate scope name initial).AddsExactly store ∧
        engine.ChildrenSumExactly store scope name))
  | .addUsage scope name delta validate, store =>
      inferInstanceAs (Decidable ((StoreCall.addUsage scope name delta validate).AddsExactly store ∧
        True))
  | .shiftUsage scope name delta, store =>
      inferInstanceAs (Decidable ((StoreCall.shiftUsage scope name delta).AddsExactly store ∧ True))
  | .get .., _ | .setLimit .., _ | .setUsage .., _ | .listScope .., _ | .deleteScope .., _ =>
      isTrue ⟨trivial, trivial⟩

/-- Calls that add exactly form new sums exactly. -/
theorem formsExactly_addsExactly :
    engine.FormsExactly (engine.AddsExactly : StoreCall → σ → Prop) where
  shifts _ _ _ _ quota exact found := exact.1 quota found
  sums exact := exact.2

end Exactness

section Reached

/-- A change can be added if it increases an available usage that is not summed. -/
structure Addable (engine : Engine) (change : Change) : Prop where
  rises : 0 < change.amount
  available : ∃ field ∈ engine.registry.field? change.scope.kind change.name,
    field.aggregator? = none ∧ field.isConnected change.scope engine.graph = true

/-- Some changes reach the quotas that they name, and every aggregate over a quota they reach. -/
inductive Reached (engine : Engine) (changes : List Change) : Entity → String → Prop where
  | named {change : Change} (member : change ∈ changes) :
      Reached engine changes change.scope change.name
  | summed {child : Entity} {quota : String} {aggregate : Aggregate}
      (below : Reached engine changes child quota)
      (atop : aggregate ∈ engine.aggregatesOver child quota .usage) :
      Reached engine changes aggregate.scope aggregate.field.name

variable {changes others : List Change}

/-- More changes reach more. -/
theorem Reached.mono (listed : changes ⊆ others) {scope : Entity} {name : String}
    (reached : engine.Reached changes scope name) : engine.Reached others scope name := by
  induction reached with
  | named member => exact .named (listed member)
  | summed _ atop inductionHypothesis => exact .summed inductionHypothesis atop

/-- An aggregate over a reached quota is reached, because it sums its usage. -/
theorem Reached.of_meets (additive : engine.Additive) {aggregate : Aggregate}
    (meets : engine.Meets (engine.Reached changes) aggregate) :
    engine.Reached changes aggregate.scope aggregate.field.name := by
  obtain ⟨child, quota, measure, reached, atop⟩ := meets
  cases measure with
  | usage => exact .summed reached atop
  | limit =>
      rw [additive.aggregatesOver_limit] at atop
      cases atop

/-- A store is rooted in some changes if these reach all its records, if every limit is the default
one, and if it holds the same as a base where nothing is summed. -/
structure Rooted (engine : Engine) (changes : List Change) (base store : σ) : Prop where
  reached (scope : Entity) (name : String) : stored store scope name = true →
    engine.Reached changes scope name
  limits (scope : Entity) : ∀ field ∈ engine.registry.fields scope.kind,
    ∀ quota, lookup store scope field.name = some quota →
      quota.limit = (field.initial scope engine.graph).limit
  plain (scope : Entity) (name : String) : engine.Plain scope name →
    lookup store scope name = lookup base scope name

variable {base store : σ}

/-- A store that is rooted in some changes is rooted in more of them. -/
theorem Rooted.mono (rooted : engine.Rooted changes base store) (listed : changes ⊆ others) :
    engine.Rooted others base store :=
  ⟨fun scope name present => (rooted.reached scope name present).mono listed, rooted.limits,
    rooted.plain⟩

/-- Only what the base holds where nothing is summed matters. -/
theorem Rooted.rebase {other : σ} (rooted : engine.Rooted changes base store)
    (same : ∀ scope name, engine.Plain scope name → lookup base scope name = lookup other scope name) :
    engine.Rooted changes other store :=
  ⟨rooted.reached, rooted.limits, fun scope name plain =>
    (rooted.plain scope name plain).trans (same scope name plain)⟩

/-- A record that is reached can be written to a store and its base. -/
theorem Rooted.put (rooted : engine.Rooted changes base store) {scope : Entity} {name : String}
    (reached : engine.Reached changes scope name) (quota : Quota)
    (limit : ∀ field ∈ engine.registry.fields scope.kind, field.name = name →
      quota.limit = (field.initial scope engine.graph).limit) :
    engine.Rooted changes (put base scope name quota) (put store scope name quota) where
  reached other label present := by
    rw [stored, LawfulStore.lookup_put] at present
    split at present
    · rename_i same
      exact same.1 ▸ same.2 ▸ reached
    · exact rooted.reached other label present
  limits other field registered record found := by
    rw [LawfulStore.lookup_put] at found
    split at found
    · rename_i same
      obtain ⟨rfl, sameName⟩ := same
      obtain rfl := Option.some.inj found
      exact limit field registered sameName.symm
    · exact rooted.limits other field registered record found
  plain other label isPlain := by
    rw [LawfulStore.lookup_put, LawfulStore.lookup_put, rooted.plain other label isPlain]

/-- An aggregate is written to a store alone. -/
theorem Rooted.put_aggregate (rooted : engine.Rooted changes base store) {aggregate : Aggregate}
    (present : engine.HasAggregate aggregate)
    (reached : engine.Reached changes aggregate.scope aggregate.field.name) (quota : Quota)
    (limit : quota.limit = (aggregate.field.initial aggregate.scope engine.graph).limit) :
    engine.Rooted changes base (LawfulStore.put store aggregate.scope aggregate.field.name quota) := by
  refine (rooted.put reached quota fun field registered sameName => ?_).rebase
    fun scope name plain => ?_
  · obtain rfl := Registry.eq_of_name_eq registered present.registered sameName
    exact limit
  · rw [LawfulStore.lookup_put, if_neg]
    rintro ⟨rfl, rfl⟩
    exact plain.ne_name aggregate.field present rfl

/-- A record begins with the default limit. -/
theorem limit_starting (store : σ) (scope : Entity) (field : Field) :
    (engine.starting store scope field).limit = (field.initial scope engine.graph).limit := by
  rw [starting]
  split <;> rfl

/-- Shifts and creations of aggregates keep a store rooted. -/
theorem spreads_rooted (additive : engine.Additive) {fit : StoreCall → σ → Prop}
    (changes : List Change) (base : σ) :
    engine.Spreads fit (engine.Reached changes) (engine.Rooted changes base) where
  shift {aggregate quota delta store} meets rooted found _ := by
    have reached := Reached.of_meets additive meets
    exact ⟨rooted.put_aggregate meets.hasAggregate reached _ (rooted.limits aggregate.scope
      aggregate.field meets.hasAggregate.registered quota found), fun _ => reached⟩
  create {aggregate store} meets rooted _ _ := by
    have reached := Reached.of_meets additive meets
    exact ⟨rooted.put_aggregate meets.hasAggregate reached _ (limit_starting store _ _), reached⟩

end Reached

section Accrued

/-- A store has accrued some changes if it is sound, if it holds exactly what they reach, and if every
usage that is not summed stands at its default with the changes added. -/
structure Accrued (engine : Engine) (changes : List Change) (store : σ) : Prop where
  sound : engine.Sound store
  grown : engine.Grown [] store
  rooted : engine.Rooted changes store store
  named : ∀ change ∈ changes, stored store change.scope change.name = true
  adds (scope : Entity) : ∀ field ∈ engine.registry.fields scope.kind, field.aggregator? = none →
    (engine.standing store scope field).usage.value =
      (field.initial scope engine.graph).usage.value + total changes scope field.name

/-- A store without records has accrued no changes. -/
theorem accrued_empty {store : σ} (empty : ∀ scope name, lookup store scope name = none) :
    engine.Accrued [] store := by
  have absent {scope : Entity} {name : String} : ¬ stored store scope name = true := by
    rw [stored, empty]
    exact Bool.false_ne_true
  have unfound {scope : Entity} {name : String} {quota : Quota} :
      ¬ lookup store scope name = some quota := by
    rw [empty]
    exact (Option.some_ne_none quota).symm
  exact {
    sound := ⟨fun _ _ _ found => absurd found unfound, fun _ _ present => absurd present absent⟩
    grown := ⟨fun _ _ present => absurd present absent, fun _ _ _ _ found => absurd found unfound,
      fun _ _ _ present => absurd present absent, fun _ member => absurd member List.not_mem_nil⟩
    rooted := ⟨fun _ _ present => absurd present absent,
      fun _ _ _ _ found => absurd found unfound, fun _ _ _ => rfl⟩
    named := fun _ member => absurd member List.not_mem_nil
    adds := fun scope field _ _ => by
      rw [standing, empty, Option.getD_none]
      exact (add_zero _).symm }

variable {changes : List Change} {store : σ}

/-- A store that has accrued some changes has accrued them in any order. -/
theorem Accrued.perm {others : List Change} (accrued : engine.Accrued changes store)
    (permuted : changes.Perm others) : engine.Accrued others store where
  sound := accrued.sound
  grown := accrued.grown
  rooted := accrued.rooted.mono permuted.subset
  named change member := accrued.named change (permuted.mem_iff.2 member)
  adds scope field registered plain := by
    rw [accrued.adds scope field registered plain, total_perm permuted]

/-- A usage that starts at a default above zero only grows. -/
theorem Accrued.standing_nonneg (additive : engine.Additive) (accrued : engine.Accrued changes store)
    {scope : Entity} {field : Field} (registered : field ∈ engine.registry.fields scope.kind)
    (plain : field.aggregator? = none) : 0 ≤ (engine.standing store scope field).usage.value := by
  rw [standing]
  cases found : lookup store scope field.name with
  | some quota => exact (accrued.grown.positive scope field.name id quota found).le
  | none => exact additive.startsNonneg scope field registered plain

/-- No addition changes a limit. -/
theorem Accrued.limit_standing (accrued : engine.Accrued changes store) {scope : Entity}
    {field : Field} (registered : field ∈ engine.registry.fields scope.kind) :
    (engine.standing store scope field).limit = (field.initial scope engine.graph).limit := by
  rw [standing]
  cases found : lookup store scope field.name with
  | some quota => exact accrued.rooted.limits scope field registered quota found
  | none => rfl

/-- A change accrues where its quota is written in place of the one that stood there. -/
theorem Accrued.cons (accrued : engine.Accrued changes store) {scope : Entity} {field : Field}
    (registered : field ∈ engine.registry.fields scope.kind) (plain : field.aggregator? = none)
    {amount : Amount} {quota : Quota}
    (sum : quota.usage.value = (engine.standing store scope field).usage.value + amount.value)
    {after : σ} (sound : engine.Sound after) (grown : engine.Grown [] after)
    (rooted : engine.Rooted (⟨scope, field.name, amount⟩ :: changes)
      (put store scope field.name quota) after)
    (kept : ∀ other name, stored store other name = true → stored after other name = true) :
    engine.Accrued (⟨scope, field.name, amount⟩ :: changes) after where
  sound := sound
  grown := grown
  rooted := rooted.rebase fun other name isPlain => (rooted.plain other name isPlain).symm
  named change member := by
    rcases List.mem_cons.1 member with rfl | earlier
    · rw [stored, rooted.plain scope field.name (plain_of_registered registered plain),
        LawfulStore.lookup_put, if_pos ⟨rfl, rfl⟩]
      rfl
    · exact kept _ _ (accrued.named change earlier)
  adds other label listed isPlain := by
    have begins := accrued.adds other label listed isPlain
    have stands : engine.standing after other label =
        engine.standing (put store scope field.name quota) other label := by
      rw [standing, rooted.plain other label.name (plain_of_registered listed isPlain), standing]
    rw [stands, standing_put]
    by_cases own : scope = other ∧ field.name = label.name
    · obtain ⟨rfl, sameName⟩ := own
      obtain rfl := Registry.eq_of_name_eq registered listed sameName
      rw [if_pos ⟨rfl, rfl⟩, sum, begins, total_cons_self]
      ring
    · rw [if_neg own, begins, total_cons_of_ne own]

/-- The changes and the graph alone decide which records are stored. -/
theorem Accrued.stored_iff (accrued : engine.Accrued changes store) {scope : Entity}
    {name : String} : stored store scope name = true ↔ engine.Reached changes scope name := by
  refine ⟨accrued.rooted.reached scope name, fun reached => ?_⟩
  induction reached with
  | named member => exact accrued.named _ member
  | summed _ atop inductionHypothesis =>
      exact (accrued.grown.closed _ _ id inductionHypothesis _ atop).resolve_right
        List.not_mem_nil

end Accrued

section Addition

variable (additive : engine.Additive) (shallow : engine.graph.Shallow)
  (matching : engine.Matching)

include additive

/-- A record that starts without usage is announced to nobody. -/
theorem ensures_create_still {fit : StoreCall → σ → Prop} (budget : Nat) (target : Aggregate)
    {store : σ} (absent : lookup store target.scope target.field.name = none)
    (still : (engine.starting store target.scope target.field).usage = 0) :
    Ensures fit (engine.create (budget + 1) target) store fun _ after =>
      after = put store target.scope target.field.name
        (engine.starting store target.scope target.field) := by
  refine ensures_create_of_announce (budget + 1) target absent fun _ => ?_
  refine Action.ensures_bind (fun _ => inferInstance)
    ((ensures_spread_nowhere (.inl still) _).mono ?_)
  rintro _ middle ⟨rfl, rfl⟩
  refine Action.ensures_bind (fun _ => inferInstance)
    ((ensures_spread_nowhere (.inr (additive.aggregatesOver_limit _ _)) _).mono ?_)
  rintro _ after ⟨rfl, rfl⟩
  exact Action.ensures_pure (Action.ensures_pure rfl)

include shallow matching

/-- An available usage that is not summed is read or created. Only a default usage of zero keeps it
apart from the records above which everything is stored. -/
theorem ensures_getOrCreate_grown {fit : StoreCall → σ → Prop} (exact : engine.FormsExactly fit)
    {scope : Entity} {field : Field} (registered : field ∈ engine.registry.fields scope.kind)
    (plain : field.aggregator? = none) (connected : field.isConnected scope engine.graph = true)
    {store : σ} (grown : engine.Grown [] store) :
    Ensures fit (engine.getOrCreate scope field.name) store fun _ after =>
      engine.GrownBeside (fun other label => other = scope ∧ label = field.name) [] after := by
  refine ensures_getOrCreate_of_ensure registered connected
    (ensures_ensure_of_steps (fun _ _ => grown.beside _) fun absent => ?_)
  have starts : engine.starting store scope field = field.initial scope engine.graph :=
    starting_of_plain store scope plain
  by_cases positive : 0 < (field.initial scope engine.graph).usage.value
  · have founded : engine.Grown [⟨scope, field⟩] store := by
      refine ⟨grown.registered, grown.positive, fun child quota apart kept aggregate atop =>
        .inl ((grown.closed child quota apart kept aggregate atop).resolve_right List.not_mem_nil),
        fun target member => ?_⟩
      obtain rfl := List.mem_singleton.1 member
      exact .inr ⟨plain, positive⟩
    refine (ensures_create_announced (announces_grown additive shallow exact matching) _
      ⟨scope, field⟩ [] store registered founded
      (.inl (engine.unstored_lt_creationBudget store))).mono ?_
    rintro _ after ⟨-, grownAfter, -⟩
    exact Grown.beside grownAfter _
  · have still : (engine.starting store scope field).usage = 0 := by
      have floor := additive.startsNonneg scope field registered plain
      apply Amount.ext
      rw [starts, Amount.value_zero]
      omega
    rw [← engine.length_aggregateKeys]
    refine (ensures_create_still additive _ ⟨scope, field⟩ absent still).mono ?_
    rintro _ after rfl
    exact (grown.beside _).put (Registry.isSome_field? registered) _

/-- An increase that is passed on leaves nothing to be created. -/
theorem ensures_childChanged_grown {fit : StoreCall → σ → Prop} (exact : engine.FormsExactly fit)
    {scope : Entity} {name : String} {old new : Amount} {store : σ} {quota : Quota}
    (grown : engine.GrownBeside (fun other label => other = scope ∧ label = name) [] store)
    (found : lookup store scope name = some quota) (positive : 0 < quota.usage.value)
    (rises : 0 < (new - old).value) :
    Ensures fit (engine.childChanged scope name .usage old new) store fun _ after =>
      engine.Grown [] after := by
  unfold childChanged
  refine Action.ensures_bind (fun _ => inferInstance)
    ((ensures_spread_grown shallow exact.shifts grown found positive rises).mono ?_)
  rintro _ middle ⟨missing, rfl, grownMiddle, -, above⟩
  refine (ensures_createMissing_announced (announces_grown additive shallow exact matching) [] above
    grownMiddle).mono ?_
  rintro _ after ⟨-, grownAfter, -⟩
  exact grownAfter

variable {changes : List Change} {store : σ}

/-- Before a change is added, its quota is stored where it stands. -/
theorem ensures_getOrCreate_accrued (accrued : engine.Accrued changes store) {scope : Entity}
    {field : Field} (registered : field ∈ engine.registry.fields scope.kind)
    (plain : field.aggregator? = none) (connected : field.isConnected scope engine.graph = true)
    (amount : Amount) :
    Ensures engine.AddsExactly (engine.getOrCreate scope field.name) store fun result after =>
      (∃ quota, result = .ok quota) ∧
        engine.Maintains (engine.Touches scope field.name) store after ∧
        engine.GrownBeside (fun other label => other = scope ∧ label = field.name) [] after ∧
        engine.Rooted (⟨scope, field.name, amount⟩ :: changes)
          (put store scope field.name (engine.standing store scope field)) after := by
  let base := put store scope field.name (engine.standing store scope field)
  have rooted := accrued.rooted.mono (List.subset_cons_self ⟨scope, field.name, amount⟩ changes)
  have named : engine.Reached (⟨scope, field.name, amount⟩ :: changes) scope field.name :=
    .named List.mem_cons_self
  have created : Ensures engine.AddsExactly (engine.getOrCreate scope field.name) store
      fun result after => (∃ quota, result = .ok quota) ∧
        engine.Rooted (⟨scope, field.name, amount⟩ :: changes) base after := by
    refine (ensures_getOrCreate_kept (spreads_rooted additive _ base) registered connected
      (fun quota found => ?_) fun absent _ => ⟨?_, named⟩).mono ?_
    · have same : base = store := by
        rw [← standing_of_lookup found] at found
        exact LawfulStore.put_of_lookup found
      rwa [same]
    · have starts : engine.starting store scope field = engine.standing store scope field := by
        rw [starting_of_plain store scope plain, standing, absent, Option.getD_none]
      rw [starts]
      apply rooted.put named
      intro other known sameName
      obtain rfl := Registry.eq_of_name_eq known registered sameName
      exact accrued.limit_standing known
    · rintro (error | quota) after ⟨rootedAfter, yields⟩
      · exact absurd shallow yields
      · exact ⟨⟨quota, rfl⟩, rootedAfter⟩
  refine (created.and ((ensures_getOrCreateQuota matching shallow formsExactly_addsExactly scope
    field.name accrued.sound).and (ensures_getOrCreate_grown additive shallow matching
      formsExactly_addsExactly registered plain connected accrued.grown))).mono ?_
  rintro result after ⟨⟨returned, rootedAfter⟩, ⟨maintains, -⟩, beside⟩
  exact ⟨returned, maintains, beside, rootedAfter⟩

/-- A risen usage passes its rise on, and then the change behind it has accrued. -/
theorem ensures_childChanged_accrued (accrued : engine.Accrued changes store) {scope : Entity}
    {field : Field} (registered : field ∈ engine.registry.fields scope.kind)
    (plain : field.aggregator? = none) {amount : Amount} (rises : 0 < amount) {middle : σ}
    (maintains : engine.Maintains (engine.Touches scope field.name) store middle)
    (beside : engine.GrownBeside (fun other label => other = scope ∧ label = field.name) [] middle)
    {before : Quota} (stands : engine.standing store scope field = before)
    (rooted : engine.Rooted (⟨scope, field.name, amount⟩ :: changes)
      (put store scope field.name before) middle)
    {usage : Amount} (sum : usage.value = before.usage.value + amount.value) :
    Ensures engine.AddsExactly (engine.childChanged scope field.name .usage before.usage usage)
      (put middle scope field.name { before with usage }) fun result after =>
        result = .ok ⟨⟩ ∧ engine.Accrued (⟨scope, field.name, amount⟩ :: changes) after := by
  let risen : Quota := { before with usage }
  let base := put (put store scope field.name before) scope field.name risen
  have isPlain : engine.Plain scope field.name := plain_of_registered registered plain
  have known := Registry.isSome_field? registered
  have positive : 0 < amount.value := rises
  have nonneg : 0 ≤ before.usage.value := stands ▸ accrued.standing_nonneg additive registered plain
  have difference : usage.SubtractsExactly before.usage :=
    Amount.subtractsExactly_of_nonneg (by omega) nonneg
  have found : lookup middle scope field.name = some before := by
    rw [rooted.plain scope field.name isPlain, LawfulStore.lookup_put, if_pos ⟨rfl, rfl⟩]
  have written : lookup (put middle scope field.name risen) scope field.name = some risen := by
    rw [LawfulStore.lookup_put, if_pos ⟨rfl, rfl⟩]
  -- The sums, the growth and the base are kept one by one, and put together at the end.
  have sound := ensures_rewrite_usage formsExactly_addsExactly matching shallow usage known
    isPlain.ne_name maintains.sound found difference
  have grown : Ensures engine.AddsExactly
      (engine.childChanged scope field.name .usage before.usage usage)
      (put middle scope field.name risen) fun _ after => engine.Grown [] after := by
    refine ensures_childChanged_grown additive shallow matching formsExactly_addsExactly
      (beside.put known risen) written ?_ ?_
    · change 0 < usage.value
      omega
    · rw [difference]
      omega
  have rootedAfter : Ensures engine.AddsExactly
      (engine.childChanged scope field.name .usage before.usage usage)
      (put middle scope field.name risen) fun _ after =>
        engine.Rooted (⟨scope, field.name, amount⟩ :: changes) base after := by
    refine (ensures_childChanged_kept (spreads_rooted additive _ base) .usage
      (fun _ => .named List.mem_cons_self) (rooted.put (.named List.mem_cons_self) risen
        fun other listed sameName => ?_)).mono fun _ _ kept => kept.1
    obtain rfl := Registry.eq_of_name_eq listed registered sameName
    rw [show risen.limit = before.limit from rfl, ← stands]
    exact accrued.limit_standing listed
  refine (sound.and (grown.and rootedAfter)).mono ?_
  rintro _ after ⟨⟨rfl, further⟩, grownAfter, rootedAfter⟩
  have total : risen.usage.value =
      (engine.standing store scope field).usage.value + amount.value := by
    rw [stands]
    exact sum
  refine ⟨rfl, accrued.cons registered plain total further.sound grownAfter
    (rootedAfter.rebase fun other name _ => ?_) fun other name present => ?_⟩
  · rw [LawfulStore.lookup_put, LawfulStore.lookup_put, LawfulStore.lookup_put]
    split <;> rfl
  · exact further.of_put.frame.kept other name (maintains.frame.kept other name present)

/-- A change that is added has accrued with those before it. -/
theorem ensures_addUsage_accrued (accrued : engine.Accrued changes store) {change : Change}
    (addable : engine.Addable change) :
    Ensures engine.AddsExactly (engine.addUsage change.scope change.name change.amount false) store
      fun result after => result = .ok ⟨⟩ ∧ engine.Accrued (change :: changes) after := by
  obtain ⟨scope, name, amount⟩ := change
  obtain ⟨rises, field, known, plain, connected⟩ := addable
  dsimp only at rises known connected ⊢
  obtain ⟨registered, rfl⟩ := Registry.field?_eq_some_iff.1 known
  have positive : 0 < amount.value := rises
  refine Action.ensures_discard (ensures_applyDelta_of_steps (fun zero => ?_) fun _ =>
    (ensures_getOrCreate_accrued additive shallow matching accrued registered plain connected
      amount).mono ?_)
  · rw [zero] at positive
    exact absurd positive (by decide)
  rintro _ middle ⟨⟨quota, rfl⟩, maintains, beside, rooted⟩
  have found : lookup middle scope field.name = some (engine.standing store scope field) := by
    rw [rooted.plain scope field.name (plain_of_registered registered plain),
      LawfulStore.lookup_put, if_pos ⟨rfl, rfl⟩]
  refine Action.ensures_addUsage (fun before present fits _ => ?_)
    (fun _ _ validated => by cases validated) fun absent => ?_
  · have stands := Option.some.inj (found.symm.trans present)
    have nonneg := accrued.standing_nonneg additive registered plain
    have sum : (max (before.usage + amount) 0).value = before.usage.value + amount.value := by
      rw [Amount.value_max, show (before.usage + amount).value = _ from fits.1 before present,
        Amount.value_zero]
      rw [stands] at nonneg
      omega
    refine (ensures_childChanged_accrued additive shallow matching accrued registered plain rises
      maintains beside stands (stands ▸ rooted) sum).mono ?_
    rintro _ after ⟨rfl, accruedAfter⟩
    exact ⟨rfl, accruedAfter⟩
  · rw [found] at absent
    cases absent

/-- The changes are added in turn, and none of them is validated. -/
def addAll {τ : Type} [QuotaStore τ] (engine : Engine) (changes : List Change) : Action τ Unit :=
  changes.forM fun change => engine.addUsage change.scope change.name change.amount false

/-- Additions succeed and have accrued in the end. The induction is on the changes that are left. -/
theorem ensures_addAll_accrued (accrued : engine.Accrued changes store) (others : List Change)
    (addable : ∀ change ∈ others, engine.Addable change) :
    Ensures engine.AddsExactly (engine.addAll others) store fun result after =>
      result = .ok ⟨⟩ ∧ engine.Accrued (others.reverse ++ changes) after := by
  induction others generalizing changes store with
  | nil => exact Action.ensures_pure ⟨rfl, accrued⟩
  | cons change others inductionHypothesis =>
      refine Action.ensures_bind (fun _ => inferInstance) ((ensures_addUsage_accrued additive shallow
        matching accrued (addable change List.mem_cons_self)).mono ?_)
      rintro _ middle ⟨rfl, accruedMiddle⟩
      rw [List.reverse_cons, List.append_assoc]
      exact inductionHypothesis accruedMiddle fun other member =>
        addable other (List.mem_cons_of_mem _ member)

end Addition

section Unique

variable {changes : List Change} {first second : σ}

/-- A stored aggregate exists, because only an available usage that is not summed can be named. -/
theorem Accrued.hasAggregate (accrued : engine.Accrued changes first)
    (addable : ∀ change ∈ changes, engine.Addable change) {scope : Entity} {field : Field}
    (registered : field ∈ engine.registry.fields scope.kind) (aggregator : field.aggregator?.isSome)
    (present : stored first scope field.name = true) : engine.HasAggregate ⟨scope, field⟩ := by
  refine ⟨registered, aggregator, ?_⟩
  generalize sameName : field.name = name at present
  have known : engine.registry.field? scope.kind name = some field :=
    Registry.field?_eq_some_iff.2 ⟨registered, sameName⟩
  cases accrued.stored_iff.1 present with
  | named member =>
      obtain ⟨-, other, otherKnown, plain, -⟩ := addable _ member
      obtain rfl := Option.some.inj (known.symm.trans otherKnown)
      rw [plain] at aggregator
      cases aggregator
  | summed _ atop =>
      have above := aggregateAbove_of_mem atop
      obtain rfl := Registry.eq_of_name_eq registered above.registered sameName
      exact above.connected

/-- Where two stores hold the same for all children, they owe an aggregate the same. -/
theorem childTotal_of_children (matching : engine.Matching) (firstRegistered : engine.Registered first)
    (secondRegistered : engine.Registered second) {aggregate : Aggregate}
    (present : engine.HasAggregate aggregate)
    (same : ∀ child, aggregate.scope ∈ engine.graph.quotaParents child → ∀ name,
      lookup first child name = lookup second child name) :
    engine.childTotal first aggregate.scope aggregate.field =
      engine.childTotal second aggregate.scope aggregate.field := by
  obtain ⟨rule, sum, sums⟩ := present.sums
  rw [sums.childTotal, sums.childTotal]
  congr 1
  apply List.map_congr_left
  intro child selected
  by_cases known : (engine.registry.field? child.kind sum).isSome
  · have hop : aggregate.scope ∈ engine.graph.quotaParents child :=
      (matching.mem_quotaParents sums.registered sums.isRule sums.isQuota known).2 selected
    rw [reading, reading, same child hop]
  · have unstored {store : σ} (registered : engine.Registered store) :
        lookup store child sum = none :=
      Option.not_isSome_iff_eq_none.1 fun present => known (registered child sum present)
    rw [reading_of_none (unstored firstRegistered), reading_of_none (unstored secondRegistered)]

/-- Whatever stores have accrued the same changes, they hold the same. The induction goes down from
the highest scopes that the depth bound allows, because an aggregate depends on its children. -/
theorem Accrued.lookup_eq (shallow : engine.graph.Shallow) (matching : engine.Matching)
    (addable : ∀ change ∈ changes, engine.Addable change)
    (accrued : engine.Accrued changes first) (other : engine.Accrued changes second)
    (left hops : Nat) (bound : left + hops = maxHierarchyDepth) {scope : Entity}
    (climbs : engine.graph.Climbs hops scope) (name : String) :
    lookup first scope name = lookup second scope name := by
  induction left generalizing hops scope name with
  | zero =>
      rw [zero_add] at bound
      subst bound
      exact absurd climbs (shallow scope)
  | succ left inductionHypothesis =>
      cases found : lookup first scope name with
      | none =>
          have absent : ¬ stored second scope name = true := by
            rw [other.stored_iff, ← accrued.stored_iff, stored, found]
            exact Bool.false_ne_true
          exact (Option.not_isSome_iff_eq_none.1 absent).symm
      | some quota =>
          have present := stored_of_lookup found
          obtain ⟨later, laterFound⟩ :=
            lookup_of_stored (other.stored_iff.2 (accrued.stored_iff.1 present))
          obtain ⟨field, known⟩ :=
            Option.isSome_iff_exists.1 (accrued.sound.registered scope name present)
          obtain ⟨registered, rfl⟩ := Registry.field?_eq_some_iff.1 known
          have limit : quota.limit = later.limit :=
            (accrued.rooted.limits scope field registered quota found).trans
              (other.rooted.limits scope field registered later laterFound).symm
          -- The changes decide a plain usage, and the children, which climb higher, decide a sum.
          have usage : quota.usage.value = later.usage.value := by
            cases rule : field.aggregator? with
            | none =>
                have adds := accrued.adds scope field registered rule
                rw [← other.adds scope field registered rule, standing_of_lookup found,
                  standing_of_lookup laterFound] at adds
                exact adds
            | some rule =>
                have aggregate := accrued.hasAggregate addable registered (by simp [*]) present
                have total := childTotal_of_children matching accrued.sound.registered
                  other.sound.registered aggregate fun child hop label =>
                    inductionHypothesis (hops + 1) (by omega) ⟨scope, hop, climbs⟩ label
                have sum := accrued.sound.balanced _ aggregate quota found
                rw [total, ← other.sound.balanced _ aggregate later laterFound] at sum
                omega
          rw [laterFound, Quota.ext limit (Amount.ext usage)]

/-- The changes that a store has accrued determine it. -/
theorem Accrued.eq (shallow : engine.graph.Shallow) (matching : engine.Matching)
    (addable : ∀ change ∈ changes, engine.Addable change)
    (accrued : engine.Accrued changes first) (other : engine.Accrued changes second) :
    first = second :=
  LawfulStore.ext_lookup fun _ name =>
    accrued.lookup_eq shallow matching addable other maxHierarchyDepth 0 rfl trivial name

end Unique

/-- Increases that are added to an empty store in any two orders all succeed, and leave the same
records with the same numbers, as long as no sum is cut off in either order. The order decides only
whether an increase reaches an aggregate by a shift or as part of its first sum. -/
theorem addAll_perm (engine : Engine) (first second : List Change) (store : σ)
    (shallow : engine.graph.Shallow) (matching : engine.Matching) (additive : engine.Additive)
    (permuted : first.Perm second) (addable : ∀ change ∈ first, engine.Addable change)
    (empty : ∀ scope name, lookup store scope name = none)
    (firstExact : RecordedStore.AllFit engine.AddsExactly
      (Action.history (engine.addAll first) store))
    (secondExact : RecordedStore.AllFit engine.AddsExactly
      (Action.history (engine.addAll second) store)) :
    Action.outcome (engine.addAll first) store = .ok ⟨⟩ ∧
      Action.outcome (engine.addAll second) store = .ok ⟨⟩ ∧
      Action.after (engine.addAll first) store = Action.after (engine.addAll second) store := by
  have accrues (changes : List Change) (addable : ∀ change ∈ changes, engine.Addable change)
      (exact : RecordedStore.AllFit engine.AddsExactly
        (Action.history (engine.addAll changes) store)) :
      Action.outcome (engine.addAll changes) store = .ok ⟨⟩ ∧
        engine.Accrued changes (Action.after (engine.addAll changes) store) := by
    have added := (ensures_addAll_accrued additive shallow matching (accrued_empty empty) changes
      addable).of_allFit (Lockstep.forM (fun _ => RecordedStore.answersAlike.addQuotaUsage _ _ _ _ _)
        changes) exact
    refine ⟨added.1, added.2.perm ?_⟩
    rw [List.append_nil]
    exact changes.reverse_perm
  obtain ⟨firstOk, firstAccrued⟩ := accrues first addable firstExact
  obtain ⟨secondOk, secondAccrued⟩ := accrues second
    (fun change member => addable change (permuted.mem_iff.2 member)) secondExact
  exact ⟨firstOk, secondOk,
    firstAccrued.eq shallow matching addable (secondAccrued.perm permuted.symm)⟩

end Engine

section Sample

/-- The organization sums the storage of its teams, and no team starts empty. -/
def startedRegistry : Registry where
  registrations :=
    [⟨"organization", sampleSum "storage" .usage⟩,
      ⟨"team", { name := "storage", defaultUsage := .constant 2 }⟩]
  distinct := by decide

def otherTeam : Entity := ⟨"team", "blue"⟩

def pairGraph : Graph :=
  sampleGraph.insert otherTeam
    { relations := Std.ExtTreeMap.empty.insert "organization" sampleOrganization }

/-- Two teams share one organization. -/
def pairEngine : Engine := ⟨startedRegistry, pairGraph⟩

/-- The organization sums usages, and the teams start above zero. -/
theorem additive_pairEngine : pairEngine.Additive where
  sumsUsage kind field registered rule isRule := by
    obtain ⟨registration, member, rfl⟩ := List.mem_map.1 registered
    rcases List.mem_cons.1 (List.mem_filter.1 member).1 with rfl | later
    · obtain rfl := Option.some.inj isRule
      rfl
    · obtain rfl := List.mem_singleton.1 later
      cases isRule
  startsNonneg scope field registered plain := by
    obtain ⟨registration, member, rfl⟩ := List.mem_map.1 registered
    rcases List.mem_cons.1 (List.mem_filter.1 member).1 with rfl | later
    · cases plain
    · obtain rfl := List.mem_singleton.1 later
      change 0 ≤ (2 : Amount).value
      decide

def pairChanges : List Change := [⟨sampleTeam, "storage", 3⟩, ⟨otherTeam, "storage", 5⟩]

/-- Each change increases the storage of a team. -/
theorem addable_pairChanges : ∀ change ∈ pairChanges, pairEngine.Addable change := by
  intro change member
  have available : pairEngine.registry.field? "team" "storage" =
      some { name := "storage", defaultUsage := .constant 2 } := rfl
  rcases List.mem_cons.1 member with rfl | later
  · exact ⟨by decide, _, available, rfl, rfl⟩
  · obtain rfl := List.mem_singleton.1 later
    exact ⟨by decide, _, available, rfl, rfl⟩

/-- The first change lets the organization's record start from a sum, and the second one shifts it. -/
theorem addAll_perm_sample :
    Action.after (pairEngine.addAll pairChanges) MemoryStore.empty =
        Action.after (pairEngine.addAll pairChanges.reverse) MemoryStore.empty ∧
      (Action.after (pairEngine.addAll pairChanges) MemoryStore.empty).lookup sampleOrganization
        "storage" = some ⟨.unlimited, 12⟩ := by
  have commutes := Engine.addAll_perm pairEngine pairChanges pairChanges.reverse MemoryStore.empty
    (by decide +kernel) (by decide +kernel) additive_pairEngine pairChanges.reverse_perm.symm
    addable_pairChanges (fun _ _ => rfl) (by decide +kernel) (by decide +kernel)
  exact ⟨commutes.2.2, by decide +kernel⟩

end Sample

end HierarchicalQuota
