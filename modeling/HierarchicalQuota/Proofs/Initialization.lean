import HierarchicalQuota.Proofs.Rejection
import HierarchicalQuota.Proofs.Retracing

namespace HierarchicalQuota

open HierarchicalQuota.Action (Ensures)
open LawfulStore (lookup put)

variable {σ : Type} [QuotaStore σ] [LawfulStore σ]

namespace Engine

variable {engine : Engine} {fit : StoreCall → σ → Prop} {scope : Entity}

section Stored

/-- A write adds its record to those that are stored. -/
theorem stored_put {needed : Entity → String → Prop} {store : σ} {place : Entity} {name : String}
    (kept : ∀ other label, needed other label → (place = other ∧ name = label) ∨
      stored store other label = true) (quota : Quota) (other : Entity) (label : String)
    (isNeeded : needed other label) : stored (put store place name quota) other label = true := by
  rw [stored, LawfulStore.lookup_put]
  split
  · rfl
  · exact (kept other label isNeeded).resolve_left ‹_›

/-- Nothing that spreads or is created removes a record. -/
theorem spreads_stored (needed : Entity → String → Prop) :
    engine.Spreads fit (fun _ _ => True)
      fun store : σ => ∀ other label, needed other label → stored store other label = true := by
  constructor
  · exact fun _ kept _ _ => ⟨stored_put (fun other label isNeeded => .inr (kept other label isNeeded)) _,
      fun _ => trivial⟩
  · exact fun _ kept _ _ => ⟨stored_put (fun other label isNeeded => .inr (kept other label isNeeded)) _,
      trivial⟩

/-- An initialization that succeeds leaves no connected field without a record. -/
theorem ensures_initializeFields_stored (fields : List Field) (store : σ) :
    Ensures fit (engine.initializeFields scope fields) store fun result after =>
      (∀ other label, stored store other label = true → stored after other label = true) ∧
        ∀ count, result = .ok count → ∀ field ∈ fields,
          field.isConnected scope engine.graph = true → stored after scope field.name = true := by
  induction fields generalizing store with
  | nil => exact Action.ensures_pure ⟨fun _ _ present => present, by simp⟩
  | cons field fields inductionHypothesis =>
      unfold initializeFields
      split
      · refine Action.ensures_bind (fun found => by cases found <;> infer_instance)
          (Action.ensures_access (Action.ensures_get ?_))
        cases found : lookup store scope field.name with
        | some quota =>
            refine (inductionHypothesis store).mono ?_
            rintro result after ⟨kept, present⟩
            refine ⟨kept, fun count isCount => List.forall_mem_cons.2 ⟨fun _ => ?_,
              present count isCount⟩⟩
            exact kept scope field.name (stored_of_lookup found)
        | none =>
            have ensured : Ensures fit (engine.ensure scope field) store fun _ after =>
                ∀ other label, (scope = other ∧ field.name = label) ∨
                  stored store other label = true → stored after other label = true :=
              (ensures_ensure_kept (spreads_stored _) scope field
                (fun quota other => by cases found.symm.trans other)
                fun _ _ => ⟨stored_put (fun _ _ isNeeded => isNeeded) _, trivial⟩).mono
                  fun _ _ kept => kept.1
            refine Action.ensures_bind (fun _ => inferInstance)
              (Action.ensures_discard (ensured.mono ?_))
            intro result middle kept
            cases result with
            | error error =>
                exact ⟨fun other label present => kept other label (.inr present), by simp⟩
            | ok quota =>
                refine Action.ensures_bind (fun _ => inferInstance)
                  ((inductionHypothesis middle).mono ?_)
                rintro result after ⟨keptLater, present⟩
                have keptWhole (other : Entity) (label : String)
                    (earlier : stored store other label = true) : stored after other label = true :=
                  keptLater other label (kept other label (.inr earlier))
                cases result with
                | error error => exact ⟨keptWhole, by simp⟩
                | ok count =>
                    refine Action.ensures_pure ⟨keptWhole, fun _ _ => List.forall_mem_cons.2
                      ⟨fun _ => ?_, present count rfl⟩⟩
                    exact keptLater scope field.name (kept scope field.name (.inl ⟨rfl, rfl⟩))
      · rename_i unconnected
        refine (inductionHypothesis store).mono ?_
        rintro result after ⟨kept, present⟩
        exact ⟨kept, fun count isCount => List.forall_mem_cons.2
          ⟨fun connected => absurd connected unconnected, present count isCount⟩⟩

end Stored

section Begun

/-- A quota has begun at the defaults of its field if its limit is the default one, and its usage,
too, unless it is summed. -/
def Begins (engine : Engine) (scope : Entity) (field : Field) (quota : Quota) : Prop :=
  quota.limit = (field.initial scope engine.graph).limit ∧
    (field.aggregator? = none → quota = field.initial scope engine.graph)

/-- A record that the engine creates begins with the defaults of its field, or with a sum. -/
theorem begins_starting (store : σ) (scope : Entity) (field : Field) :
    engine.Begins scope field (engine.starting store scope field) := by
  refine ⟨?_, fun plain => starting_of_plain store scope plain⟩
  unfold starting
  split <;> rfl

/-- All records of a scope have begun at the defaults of the fields whose names they have. -/
def AllBegin (engine : Engine) (scope : Entity) (store : σ) : Prop :=
  ∀ field ∈ engine.registry.fields scope.kind, ∀ quota,
    lookup store scope field.name = some quota → engine.Begins scope field quota

/-- The records of a scope without a cycle begin at the defaults where it had no records before. -/
theorem ensures_initializeScope_begins (acyclic : ¬ engine.graph.Above scope scope) {store : σ}
    (absent : ∀ name, lookup store scope name = none) :
    Ensures fit (engine.initializeScope scope) store fun _ after => engine.AllBegin scope after := by
  have spreads : engine.Spreads fit
      (fun child _ => child = scope ∨ engine.graph.Above scope child) (engine.AllBegin scope) := by
    refine spreads_elsewhere acyclic fun store place name quota other begun field registered => ?_
    rw [LawfulStore.lookup_put, if_neg fun same => other same.1]
    exact begun field registered
  refine (ensures_initializeFields_kept spreads scope _
    (fun field member middle begun _ _ => ⟨?_, .inl rfl⟩) ?_).mono fun _ _ kept => kept.1
  · intro other registered quota found
    rw [LawfulStore.lookup_put] at found
    split at found
    · rename_i same
      obtain rfl := Registry.eq_of_name_eq member registered same.2
      obtain rfl := Option.some.inj found
      exact begins_starting middle scope field
    · exact begun other registered quota found
  · intro field _ quota found
    cases (absent field.name).symm.trans found

/-- The initialization of a scope that had no records gives each connected field a record that
begins at its defaults. -/
theorem ensures_initializeScope_fresh (acyclic : ¬ engine.graph.Above scope scope) {store : σ}
    (absent : ∀ name, lookup store scope name = none) :
    Ensures fit (engine.initializeScope scope) store fun result after =>
      ∀ count, result = .ok count → ∀ field ∈ engine.registry.fields scope.kind,
        field.isConnected scope engine.graph = true →
        ∃ quota, lookup after scope field.name = some quota ∧ engine.Begins scope field quota := by
  have present : Ensures fit (engine.initializeScope scope) store _ :=
    ensures_initializeFields_stored (engine.registry.fields scope.kind) store
  refine (present.and (ensures_initializeScope_begins acyclic absent)).mono ?_
  intro result after ⟨⟨_, recorded⟩, begun⟩ count isCount field registered connected
  obtain ⟨quota, found⟩ := lookup_of_stored (recorded count isCount field registered connected)
  exact ⟨quota, found, begun field registered quota found⟩

end Begun

end Engine

end HierarchicalQuota
