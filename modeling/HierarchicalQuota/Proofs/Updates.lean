import HierarchicalQuota.Proofs.Creation
import HierarchicalQuota.Proofs.Rules

namespace HierarchicalQuota

open HierarchicalQuota.Action (Ensures)
open LawfulStore (lookup put drop list)

variable {σ : Type} [QuotaStore σ] [LawfulStore σ]

/-- A record that is found is stored. -/
theorem stored_of_lookup {store : σ} {scope : Entity} {name : String} {quota : Quota}
    (found : lookup store scope name = some quota) : stored store scope name = true := by
  rw [stored, found]
  rfl

/-- A record that is stored is found. -/
theorem lookup_of_stored {store : σ} {scope : Entity} {name : String}
    (present : stored store scope name = true) : ∃ quota, lookup store scope name = some quota :=
  Option.isSome_iff_exists.1 present

namespace Engine

variable {engine : Engine} {fit : StoreCall → σ → Prop}

/-- An update of a record touches it and the aggregates above its scope. -/
def Touches (engine : Engine) (scope : Entity) (name : String) (other : Entity) (label : String) :
    Prop :=
  (other = scope ∧ label = name) ∨ engine.Reaches scope other label

/-- A change of a registered quota touches registered quotas only. -/
theorem Touches.isSome_field? {scope other : Entity} {name label : String}
    (registered : (engine.registry.field? scope.kind name).isSome)
    (touches : engine.Touches scope name other label) :
    (engine.registry.field? other.kind label).isSome := by
  rcases touches with ⟨rfl, rfl⟩ | reaches
  · exact registered
  · exact reaches.isSome_field?

/-- An update keeps a store sound and changes nothing outside what it touches. -/
structure Maintains (engine : Engine) (touched : Entity → String → Prop) (before after : σ) :
    Prop where
  sound : engine.Sound after
  frame : Frame touched before after

/-- A sound store is maintained by doing nothing. -/
theorem Maintains.refl {touched : Entity → String → Prop} {store : σ}
    (sound : engine.Sound store) : engine.Maintains touched store store :=
  ⟨sound, Frame.refl store⟩

/-- A store is maintained by one step after the other, if the last leaves it sound. -/
theorem Maintains.trans {touched : Entity → String → Prop} {before middle after : σ}
    (first : Frame touched before middle) (second : engine.Maintains touched middle after) :
    engine.Maintains touched before after :=
  ⟨second.sound, first.trans second.frame⟩

/-- Everything found missing is created, and nothing else changes but aggregates above. -/
theorem ensures_createMissing_announced {good : List Aggregate → σ → Prop}
    (announces : engine.Announces fit good) {scope : Entity} {missing : List Aggregate}
    (pending : List Aggregate)
    (above : ∀ aggregate ∈ missing, engine.AggregateAbove scope aggregate) {store : σ}
    (isGood : good (missing ++ pending) store) :
    Ensures fit (engine.createMissing missing) store fun result after =>
      result = .ok ⟨⟩ ∧ good pending after ∧ Frame (engine.Reaches scope) store after :=
  ensures_forM_create (fun target others store present goodStore member enough =>
    ensures_create_announced announces _ target others store present.registered goodStore
      (.inr ⟨member, enough⟩)) above isGood (engine.unstored_lt_creationBudget store).le

/-- Missing aggregates above a scope are created one by one, and nothing below them changes. -/
theorem ensures_createMissing (exact : engine.FormsExactly fit) (matching : engine.Matching)
    (shallow : engine.graph.Shallow) {scope : Entity} {missing : List Aggregate}
    (above : ∀ aggregate ∈ missing, engine.AggregateAbove scope aggregate) {store : σ}
    (sound : engine.Sound store) :
    Ensures fit (engine.createMissing missing) store fun result after =>
      result = .ok ⟨⟩ ∧ engine.Maintains (engine.Reaches scope) store after := by
  refine (ensures_createMissing_announced (announces_sound exact matching shallow) [] above
    sound).mono ?_
  rintro _ after ⟨rfl, soundAfter, frame⟩
  exact ⟨rfl, soundAfter, frame⟩

/-- A changed record passes its change on, and then every aggregate has what it is owed. -/
theorem ensures_childChanged (exact : engine.FormsExactly fit) (matching : engine.Matching)
    (shallow : engine.graph.Shallow) {scope : Entity} {name : String} {measure : Measure}
    {old new : Amount} {store : σ} (difference : new.SubtractsExactly old)
    (registered : engine.Registered store)
    (owing : engine.Owing store fun other label =>
      (new.value - old.value) * engine.directChains scope name measure other label) :
    Ensures fit (engine.childChanged scope name measure old new) store
      fun result after => result = .ok ⟨⟩ ∧ engine.Maintains (engine.Reaches scope) store after := by
  unfold childChanged
  have owes : engine.Owing store fun other label =>
      0 + (new - old).value * engine.directChains scope name measure other label :=
    owing.congr fun other label => by rw [show (new - old).value = _ from difference, zero_add]
  refine Action.ensures_bind (fun _ => inferInstance)
    ((ensures_spread exact.shifts matching shallow owes).mono ?_)
  rintro _ middle ⟨missing, rfl, balanced, frame, above⟩
  have sound : engine.Sound middle :=
    ⟨balanced, registered.of_frame frame fun _ _ reaches => reaches.isSome_field?⟩
  refine (ensures_createMissing exact matching shallow above sound).mono ?_
  rintro _ after ⟨rfl, maintains⟩
  exact ⟨rfl, .trans frame maintains⟩

/-- A stored record is rewritten in one measure, and the change is passed on. -/
theorem ensures_rewrite (exact : engine.FormsExactly fit) (matching : engine.Matching)
    (shallow : engine.graph.Shallow) (measure : Measure) {scope : Entity} {name : String}
    {old : Quota} (new : Quota) {store : σ}
    (registered : (engine.registry.field? scope.kind name).isSome) (sound : engine.Sound store)
    (found : lookup store scope name = some old)
    (still : ∀ other, other ≠ measure → new.value other = old.value other)
    (own : ∀ field, engine.HasAggregate ⟨scope, field⟩ → field.name = name → measure = .limit)
    (difference : (new.value measure).SubtractsExactly (old.value measure)) :
    Ensures fit
      (engine.childChanged scope name measure (old.value measure) (new.value measure))
      (put store scope name new) fun result after => result = .ok ⟨⟩ ∧
        engine.Maintains (engine.Reaches scope) (put store scope name new) after := by
  have frame : Frame (engine.Touches scope name) store (put store scope name new) :=
    Frame.put store new (.inl ⟨rfl, rfl⟩)
  have owing : engine.Owing (put store scope name new) fun other label =>
      ((new.value measure).value - (old.value measure).value) *
        engine.directChains scope name measure other label := by
    refine (sound.balanced.put matching registered fun field present sameName => ?_).congr
      fun other label => ?_
    · obtain rfl := own field present sameName
      have usage : new.usage = old.usage := still .usage (by decide)
      rw [usage]
      subst sameName
      exact sound.balanced ⟨scope, field⟩ present old found
    · rw [reading_of_some found, reading_of_some found]
      cases measure with
      | usage =>
          have limit : new.limit = old.limit := still .limit (by decide)
          simp [Quota.value, limit]
      | limit =>
          have usage : new.usage = old.usage := still .usage (by decide)
          simp [Quota.value, usage]
  exact ensures_childChanged exact matching shallow difference (sound.registered.of_frame frame
    fun _ _ touches => touches.isSome_field? registered) owing

/-- A stored usage that is not summed is rewritten, and the change is passed on. -/
theorem ensures_rewrite_usage (exact : engine.FormsExactly fit) (matching : engine.Matching)
    (shallow : engine.graph.Shallow) {scope : Entity} {name : String} {old : Quota} (usage : Amount)
    {store : σ} (registered : (engine.registry.field? scope.kind name).isSome)
    (plain : ∀ field, engine.HasAggregate ⟨scope, field⟩ → field.name ≠ name)
    (sound : engine.Sound store) (found : lookup store scope name = some old)
    (difference : usage.SubtractsExactly old.usage) :
    Ensures fit (engine.childChanged scope name .usage old.usage usage)
      (put store scope name { old with usage }) fun result after => result = .ok ⟨⟩ ∧
        engine.Maintains (engine.Reaches scope) (put store scope name { old with usage }) after := by
  refine ensures_rewrite exact matching shallow .usage { old with usage } registered sound found
    (fun other different => ?_)
    (fun field present sameName => absurd sameName (plain field present)) difference
  cases other with
  | usage => exact absurd rfl different
  | limit => rfl

/-- A write touches its record, and what follows touches the aggregates above. -/
theorem Maintains.of_put {scope : Entity} {name : String} {quota : Quota} {store after : σ}
    (maintains : engine.Maintains (engine.Reaches scope) (put store scope name quota) after) :
    engine.Maintains (engine.Touches scope name) store after where
  sound := maintains.sound
  frame := (Frame.put store quota (.inl ⟨rfl, rfl⟩)).trans
    (maintains.frame.mono fun _ _ reaches => .inr reaches)

/-- Whatever its outcome is, an action maintains a store. -/
def Keeps (engine : Engine) {α : Type} (touched : Entity → String → Prop) (before : σ)
    (_ : Except QuotaError α) (after : σ) : Prop :=
  engine.Maintains touched before after

/-- A record that was stored keeps its usage. -/
def KeepsUsage (scope : Entity) (name : String) (before after : σ) : Prop :=
  ∀ quota, lookup before scope name = some quota →
    ∃ later, lookup after scope name = some later ∧ later.usage = quota.usage

/-- Doing nothing keeps a usage. -/
theorem KeepsUsage.refl {scope : Entity} {name : String} (store : σ) :
    KeepsUsage scope name store store := fun quota found => ⟨quota, found, rfl⟩

/-- In a shallow hierarchy no scope reaches its own records. -/
theorem not_reaches_self (shallow : engine.graph.Shallow) (scope : Entity) (name : String) :
    ¬ engine.Reaches scope scope name := by
  rintro ⟨aggregate, above, rfl, -⟩
  exact shallow.not_above_self _ above.above

section Updates

variable (matching : engine.Matching) (shallow : engine.graph.Shallow)

include matching shallow

/-- A record that is there is left alone, and a new one keeps the store sound. -/
theorem ensures_ensure (exact : engine.FormsExactly fit) {scope : Entity} {field : Field}
    {store : σ} (registered : field ∈ engine.registry.fields scope.kind) (sound : engine.Sound store) :
    Ensures fit (engine.ensure scope field) store fun result after =>
      (∃ quota, result = .ok quota) ∧
        engine.Maintains (engine.Touches scope field.name) store after ∧
        stored after scope field.name = true ∧
        ∀ quota, lookup store scope field.name = some quota → after = store := by
  refine ensures_ensure_of_steps (fun quota found => ⟨⟨quota, rfl⟩, .refl sound,
    stored_of_lookup found, fun _ _ => rfl⟩) fun absent => ?_
  refine (ensures_create exact matching shallow _ ⟨scope, field⟩ store registered sound
    (.inl (engine.unstored_lt_creationBudget store))).mono ?_
  rintro _ after ⟨returned, soundAfter, frame, present⟩
  refine ⟨returned, ⟨soundAfter, frame⟩, present, fun quota earlier => ?_⟩
  rw [absent] at earlier
  cases earlier

/-- A quota that was read or created is stored, and one that was stored is left alone. -/
theorem ensures_getOrCreateQuota (exact : engine.FormsExactly fit) (scope : Entity) (name : String)
    {store : σ} (sound : engine.Sound store) :
    Ensures fit (engine.getOrCreate scope name) store fun result after =>
      engine.Maintains (engine.Touches scope name) store after ∧
        (∀ quota, lookup store scope name = some quota → after = store) ∧
        ∀ quota, result = .ok quota → (engine.registry.field? scope.kind name).isSome ∧
          stored after scope name = true := by
  unfold getOrCreate
  refine Action.ensures_bind (fun _ => inferInstance) (Action.ensures_ofExcept ?_)
  cases found : engine.field scope name with
  | error error => exact ⟨.refl sound, fun _ _ => rfl, fun _ returned => by cases returned⟩
  | ok field =>
      have lookedUp := Registry.field_eq_ok_iff.1 found
      obtain ⟨registered, rfl⟩ := Registry.field?_eq_some_iff.1 lookedUp
      dsimp only
      split
      · refine (ensures_ensure matching shallow exact registered sound).mono ?_
        rintro _ after ⟨-, maintains, present, kept⟩
        exact ⟨maintains, kept, fun _ _ => ⟨Registry.isSome_field? registered, present⟩⟩
      · exact Action.ensures_throw
          ⟨.refl sound, fun _ _ => rfl, fun _ returned => by cases returned⟩

/-- A limit that is set leaves the usage of the record alone. -/
theorem ensures_setQuotaLimit (scope : Entity) (name : String) (limit : Amount) {store : σ}
    (sound : engine.Sound store) :
    Ensures engine.Exact (engine.setLimit scope name limit) store fun _ after =>
      engine.Maintains (engine.Touches scope name) store after ∧
        KeepsUsage scope name store after := by
  unfold setLimit
  refine Action.ensures_bind (fun _ => inferInstance) (Action.ensures_discard
    ((ensures_getOrCreateQuota matching shallow formsExactly_exact scope name sound).mono ?_))
  rintro (error | quota) middle ⟨maintains, kept, returned⟩
  · exact ⟨maintains, fun quota found => ⟨quota, kept quota found ▸ found, rfl⟩⟩
  · obtain ⟨registered, present⟩ := returned quota rfl
    obtain ⟨old, oldFound⟩ := lookup_of_stored present
    refine Action.ensures_bind (fun _ => inferInstance) (Action.ensures_access
      (Action.ensures_setLimit (fun quota found exact => ?_) fun absent => ?_))
    · refine (ensures_rewrite formsExactly_exact matching shallow .limit { quota with limit }
        registered maintains.sound found (fun other different => ?_) (fun _ _ _ => rfl)
        (exact.1 quota found)).mono ?_
      · cases other with
        | usage => rfl
        | limit => exact absurd rfl different
      · rintro _ after ⟨-, further⟩
        refine ⟨.trans maintains.frame further.of_put, fun earlier earlierFound => ?_⟩
        obtain rfl := kept earlier earlierFound
        obtain rfl := Option.some.inj (earlierFound.symm.trans found)
        refine ⟨{ earlier with limit }, ?_, rfl⟩
        rw [further.frame.same scope name (not_reaches_self shallow scope name),
          LawfulStore.lookup_put, if_pos ⟨rfl, rfl⟩]
    · rw [oldFound] at absent
      cases absent

/-- A limit that is refused keeps a store sound, and so does one that is set. -/
theorem ensures_updateLimit (scope : Entity) (name : String) (limit : Amount) {store : σ}
    (sound : engine.Sound store) :
    Ensures engine.Exact (engine.updateLimit scope name limit) store fun _ after =>
      engine.Maintains (engine.Touches scope name) store after ∧
        KeepsUsage scope name store after := by
  unfold updateLimit
  refine Action.ensures_bind (fun _ => inferInstance) (Action.ensures_ofExcept ?_)
  cases engine.field scope name with
  | error error => exact ⟨.refl sound, KeepsUsage.refl store⟩
  | ok field =>
      dsimp only
      split
      · exact Action.ensures_throw ⟨.refl sound, KeepsUsage.refl store⟩
      · refine Action.ensures_bind (fun _ => inferInstance)
          ((ensures_getOrCreateQuota matching shallow formsExactly_exact scope name sound).mono ?_)
        rintro (error | quota) middle ⟨maintains, kept, -⟩
        · exact ⟨maintains, fun quota found => ⟨quota, kept quota found ▸ found, rfl⟩⟩
        · dsimp only
          split
          · exact Action.ensures_throw
              ⟨maintains, fun quota found => ⟨quota, kept quota found ▸ found, rfl⟩⟩
          · refine (ensures_setQuotaLimit matching shallow scope name limit
              maintains.sound).mono ?_
            rintro _ after ⟨further, usage⟩
            refine ⟨.trans maintains.frame further, fun quota found => ?_⟩
            obtain rfl := kept quota found
            exact usage quota found

/-- A usage that is set is passed on as the difference to the one before. -/
theorem ensures_setQuotaUsage (scope : Entity) (name : String) (usage : Amount) {store : σ}
    (sound : engine.Sound store)
    (plain : ∀ field, engine.HasAggregate ⟨scope, field⟩ → field.name ≠ name) :
    Ensures engine.Exact (engine.setUsage scope name usage) store
      (engine.Keeps (engine.Touches scope name) store) := by
  unfold setUsage
  refine Action.ensures_bind (fun _ => inferInstance) (Action.ensures_discard
    ((ensures_getOrCreateQuota matching shallow formsExactly_exact scope name sound).mono ?_))
  rintro (error | quota) middle ⟨maintains, -, returned⟩
  · exact maintains
  · obtain ⟨registered, present⟩ := returned quota rfl
    obtain ⟨old, oldFound⟩ := lookup_of_stored present
    refine Action.ensures_bind (fun _ => inferInstance) (Action.ensures_access
      (Action.ensures_setUsage (fun quota found exact => ?_) fun absent => ?_))
    · refine (ensures_rewrite_usage formsExactly_exact matching shallow (max usage 0) registered
        plain maintains.sound found (exact.1 quota found)).mono ?_
      rintro _ after ⟨-, further⟩
      exact .trans maintains.frame further.of_put
    · rw [oldFound] at absent
      cases absent

/-- What a change has stored is passed on, and a rejection stores nothing. -/
theorem ensures_applyDelta (scope : Entity) (name : String) (delta : Amount) (validate : Bool)
    {store : σ} (sound : engine.Sound store)
    (plain : ∀ field, engine.HasAggregate ⟨scope, field⟩ → field.name ≠ name) :
    Ensures engine.Exact (engine.applyDelta scope name delta validate) store
      (engine.Keeps (engine.Touches scope name) store) := by
  refine ensures_applyDelta_of_steps (fun _ => Maintains.refl sound) fun _ =>
    (ensures_getOrCreateQuota matching shallow formsExactly_exact scope name sound).mono ?_
  rintro (error | quota) middle ⟨maintains, -, returned⟩
  · exact maintains
  · obtain ⟨registered, present⟩ := returned quota rfl
    obtain ⟨old, oldFound⟩ := lookup_of_stored present
    refine Action.ensures_addUsage (fun quota found exact _ => ?_) (fun _ _ _ _ => maintains)
      fun absent => ?_
    · refine (ensures_rewrite_usage formsExactly_exact matching shallow
        (max (quota.usage + delta) 0) registered plain maintains.sound found
        (exact.1 quota found).2).mono ?_
      rintro _ after ⟨rfl, further⟩
      exact .trans maintains.frame further.of_put
    · rw [oldFound] at absent
      cases absent

/-- The removed records are withdrawn one by one, and each withdrawal pays its part of the debt. -/
theorem ensures_collect_withdraw {scope : Entity} (records : List Record)
    (ofScope : ∀ record ∈ records, record.scope = scope)
    (exact : ∀ record ∈ records,
      record.quota.usage.NegatesExactly ∧ record.quota.limit.NegatesExactly) {store : σ}
    (owing : engine.Owing store fun other label =>
      (records.map fun record => engine.withdrawal record other label).sum) :
    Ensures engine.Exact (Action.collect (engine.withdraw scope) records) store fun result after =>
      ∃ missing, result = .ok missing ∧ engine.Balanced after ∧
        Frame (engine.Reaches scope) store after ∧
        ∀ aggregate ∈ missing, engine.AggregateAbove scope aggregate := by
  induction records generalizing store with
  | nil => exact Action.ensures_pure ⟨[], rfl, owing, Frame.refl store, by simp⟩
  | cons record records inductionHypothesis =>
      obtain rfl := ofScope record List.mem_cons_self
      obtain ⟨usageExact, limitExact⟩ := exact record List.mem_cons_self
      have owes : engine.Owing store fun other label =>
          ((records.map fun record => engine.withdrawal record other label).sum +
              (-record.quota.limit).value *
                engine.directChains record.scope record.name .limit other label) +
            (-record.quota.usage).value *
              engine.directChains record.scope record.name .usage other label := by
        refine owing.congr fun other label => ?_
        rw [show (-record.quota.usage).value = _ from usageExact,
          show (-record.quota.limit).value = _ from limitExact, List.map_cons, List.sum_cons,
          withdrawal]
        ring
      unfold Action.collect
      rw [withdraw_eq_announce]
      refine Action.ensures_bind (fun _ => inferInstance)
        ((ensures_announce formsExactly_exact.shifts matching shallow owes).mono ?_)
      rintro _ middle ⟨first, rfl, owesRest, spread, firstAbove⟩
      refine Action.ensures_bind (fun _ => inferInstance)
        ((inductionHypothesis (fun other member => ofScope other (List.mem_cons_of_mem _ member))
          (fun other member => exact other (List.mem_cons_of_mem _ member)) owesRest).mono ?_)
      rintro _ after ⟨others, rfl, balanced, frame, above⟩
      exact Action.ensures_pure ⟨_, rfl, balanced, spread.trans frame, fun aggregate member =>
        (List.mem_append.1 member).elim (firstAbove aggregate) (above aggregate)⟩

/-- A deleted scope loses its records, and only aggregates above it change. -/
theorem ensures_childDeleted (scope : Entity) {store : σ} (sound : engine.Sound store) :
    Ensures engine.Exact (engine.childDeleted scope) store fun result after =>
      result = .ok ⟨⟩ ∧ engine.Maintains (engine.Reaches scope) (drop store scope) after := by
  unfold childDeleted
  refine Action.ensures_bind (fun _ => inferInstance) (Action.ensures_access
    (Action.ensures_deleteScope fun exact => ?_))
  have owing := (sound.balanced.drop matching sound.registered scope).congr
    fun other label => zero_add _
  have registered : engine.Registered (drop store scope) := by
    intro other label present
    apply sound.registered other label
    rw [stored, LawfulStore.lookup_drop] at present
    split at present
    · cases present
    · exact present
  refine Action.ensures_bind (fun _ => inferInstance) ((ensures_collect_withdraw matching shallow _
    (fun record member => (LawfulStore.mem_list.1 member).1) exact.1 owing).mono ?_)
  rintro _ middle ⟨missing, rfl, balanced, frame, above⟩
  have soundMiddle : engine.Sound middle :=
    ⟨balanced, registered.of_frame frame fun _ _ reaches => reaches.isSome_field?⟩
  refine (ensures_createMissing formsExactly_exact matching shallow above soundMiddle).mono ?_
  rintro _ after ⟨rfl, maintains⟩
  exact ⟨rfl, .trans frame maintains⟩

/-- An initialized scope may get records, keeps those it had, and aggregates above it change. -/
theorem ensures_initializeFields (scope : Entity) (fields : List Field)
    (registered : ∀ field ∈ fields, field ∈ engine.registry.fields scope.kind) {store : σ}
    (sound : engine.Sound store) :
    Ensures engine.Exact (engine.initializeFields scope fields) store fun result after =>
      (∃ count, result = .ok count) ∧
        engine.Maintains (fun other label => other = scope ∧ stored store scope label = false ∨
          engine.Reaches scope other label) store after ∧
        ∀ field ∈ fields, field.isConnected scope engine.graph = true →
          stored after scope field.name = true := by
  induction fields generalizing store with
  | nil => exact Action.ensures_pure ⟨⟨0, rfl⟩, .refl sound, by simp⟩
  | cons field fields inductionHypothesis =>
      have others : ∀ field ∈ fields, field ∈ engine.registry.fields scope.kind :=
        fun other member => registered other (List.mem_cons_of_mem _ member)
      unfold initializeFields
      split
      · refine Action.ensures_bind (fun found => by cases found <;> infer_instance)
          (Action.ensures_access (Action.ensures_get ?_))
        cases found : lookup store scope field.name with
        | some quota =>
            refine (inductionHypothesis others sound).mono ?_
            rintro _ after ⟨counted, maintains, present⟩
            refine ⟨counted, maintains, fun other member connected => ?_⟩
            rcases List.mem_cons.1 member with rfl | later
            · exact maintains.frame.kept _ _ (stored_of_lookup found)
            · exact present other later connected
        | none =>
            refine Action.ensures_bind (fun _ => inferInstance) (Action.ensures_discard
              ((ensures_ensure matching shallow formsExactly_exact
                (registered field List.mem_cons_self) sound).mono ?_))
            rintro _ middle ⟨⟨quota, rfl⟩, ⟨soundMiddle, frame⟩, present, -⟩
            refine Action.ensures_bind (fun _ => inferInstance)
              ((inductionHypothesis others soundMiddle).mono ?_)
            rintro _ after ⟨⟨count, rfl⟩, ⟨soundAfter, further⟩, presentOthers⟩
            refine Action.ensures_pure ⟨⟨count + 1, rfl⟩, ⟨soundAfter, (frame.mono ?_).trans
              (further.mono ?_)⟩, fun other member connected => ?_⟩
            · rintro other label (⟨rfl, rfl⟩ | reaches)
              · exact .inl ⟨rfl, by rw [stored, found]; rfl⟩
              · exact .inr reaches
            -- What is absent after the first field was absent before it.
            · rintro other label (⟨rfl, absent⟩ | reaches)
              · refine .inl ⟨rfl, Bool.eq_false_iff.2 fun earlier => ?_⟩
                rw [frame.kept other label earlier] at absent
                cases absent
              · exact .inr reaches
            · rcases List.mem_cons.1 member with rfl | later
              · exact further.kept _ _ present
              · exact presentOthers other later connected
      · rename_i unconnected
        refine (inductionHypothesis others sound).mono ?_
        rintro _ after ⟨counted, maintains, present⟩
        refine ⟨counted, maintains, fun other member connected => ?_⟩
        rcases List.mem_cons.1 member with rfl | later
        · exact absurd connected unconnected
        · exact present other later connected

end Updates

end Engine

end HierarchicalQuota
