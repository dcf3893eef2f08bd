import HierarchicalQuota.Proofs.Spreading

namespace HierarchicalQuota

open HierarchicalQuota.Action (Ensures)
open LawfulStore (lookup put)

variable {σ : Type} [QuotaStore σ]

namespace StoreCall

/-- A call leaves a store behind, whatever it answers. -/
def after (call : StoreCall) (store : σ) : σ :=
  match call with
  | .get scope name => Action.after (QuotaStore.get scope name) store
  | .getOrCreate scope name initial => Action.after (QuotaStore.getOrCreate scope name initial) store
  | .setLimit scope name limit => Action.after (QuotaStore.setLimit scope name limit) store
  | .setUsage scope name usage => Action.after (QuotaStore.setUsage scope name usage) store
  | .addUsage scope name delta validate =>
      Action.after (QuotaStore.addUsage scope name delta validate) store
  | .shiftUsage scope name delta => Action.after (QuotaStore.shiftUsage scope name delta) store
  | .listScope scope => Action.after (QuotaStore.listScope scope) store
  | .deleteScope scope => Action.after (QuotaStore.deleteScope scope) store

/-- A call alters a record if it changes its usage or creates it. -/
def Alters [LawfulStore σ] (call : StoreCall) (store : σ) (scope : Entity) (name : String) : Prop :=
  (lookup (call.after store) scope name).map Quota.usage ≠
    (lookup store scope name).map Quota.usage

variable [LawfulStore σ] {store : σ} {scope : Entity} {name : String}

/-- A shift alters a stored usage unless it is cut off to nothing. -/
theorem alters_shiftUsage {quota : Quota} {delta : Amount}
    (found : lookup store scope name = some quota)
    (changed : quota.usage + delta - quota.usage ≠ 0) :
    (shiftUsage scope name delta).Alters store scope name := by
  have run := LawfulStore.shiftUsage_eq store scope name delta
  rw [found] at run
  rw [Alters, after, (Action.eq_ok_iff.1 run).2, LawfulStore.lookup_put, if_pos ⟨rfl, rfl⟩, found]
  intro same
  have still : quota.usage + delta = quota.usage := Option.some.inj same
  rw [still] at changed
  apply changed
  apply Amount.ext
  rw [Amount.value_sub, sub_self]
  rfl

/-- A new record is altered, since it was not there before. -/
theorem alters_getOrCreate {initial : Quota} (absent : lookup store scope name = none) :
    (getOrCreate scope name initial).Alters store scope name := by
  have run := LawfulStore.getOrCreate_eq store scope name initial
  rw [absent] at run
  rw [Alters, after, (Action.eq_ok_iff.1 run).2, LawfulStore.lookup_put, if_pos ⟨rfl, rfl⟩, absent]
  rintro ⟨⟩

end StoreCall

/-- A write changes one number of a quota. -/
inductive Write where
  | addUsage (delta : Amount) (validate : Bool)
  | setUsage (usage : Amount)
  | setLimit (limit : Amount)
deriving DecidableEq, Inhabited

namespace Engine

/-- A write is done by the action of its name. -/
def write (engine : Engine) (scope : Entity) (name : String) : Write → Action σ Unit
  | .addUsage delta validate => engine.addUsage scope name delta validate
  | .setUsage usage => engine.setUsage scope name usage
  | .setLimit limit => engine.setLimit scope name limit

/-- Quota parents are selecting if each aggregate over a registered quota selects its scope. -/
def Selecting (engine : Engine) : Prop :=
  ∀ child quota measure aggregate, (engine.registry.field? child.kind quota).isSome →
    aggregate ∈ engine.aggregatesOver child quota measure →
    ∀ rule ∈ aggregate.field.aggregator?, child ∈ rule.children aggregate.scope engine.graph

variable {engine : Engine}

/-- A graph that matches the aggregators has selecting quota parents. -/
theorem Matching.selecting (matching : engine.Matching) : engine.Selecting := by
  intro child quota measure aggregate registered listed rule isRule
  obtain ⟨hop, member, sums, -, -⟩ := mem_aggregatesOver.1 listed
  exact (matching.mem_quotaParents member isRule sums registered).1 hop

variable [LawfulStore σ]

/-- A call is quiet for some scopes if it alters none of their aggregates. -/
def QuietFor (engine : Engine) (scopes : List Entity) (call : StoreCall) (store : σ) : Prop :=
  ∀ scope ∈ scopes, ∀ field ∈ engine.registry.fields scope.kind, field.aggregator?.isSome →
    ¬ call.Alters store scope field.name

/-- Where no aggregate of a selected child is altered, changes from other quotas leave the usage of
the selecting aggregate alone. -/
theorem spreads_unmoved (selecting : engine.Selecting) {aggregate : Aggregate}
    (registered : aggregate.field ∈ engine.registry.fields aggregate.scope.kind)
    {rule : AggregatorRule} (isRule : aggregate.field.aggregator? = some rule) (usage : Amount) :
    engine.Spreads (engine.QuietFor (rule.children aggregate.scope engine.graph))
      (fun child quota => (engine.registry.field? child.kind quota).isSome ∧
        child ∉ rule.children aggregate.scope engine.graph)
      fun store : σ => (lookup store aggregate.scope aggregate.field.name).map Quota.usage =
        some usage where
  shift {other quota delta store} meets kept found quiet := by
    have present := meets.hasAggregate
    refine ⟨?_, fun changed => ⟨Registry.isSome_field? present.registered, fun selected => ?_⟩⟩
    · obtain ⟨child, childQuota, measure, ⟨known, unselected⟩, listed⟩ := meets
      rw [LawfulStore.lookup_put, if_neg]
      · exact kept
      rintro ⟨sameScope, sameName⟩
      obtain ⟨scope, field⟩ := other
      obtain rfl : scope = aggregate.scope := sameScope
      obtain rfl := Registry.eq_of_name_eq present.registered registered sameName
      exact unselected (selecting child childQuota measure _ known listed rule isRule)
    · exact quiet other.scope selected other.field present.registered present.aggregator
        (StoreCall.alters_shiftUsage found changed)
  create {other store} meets kept absent quiet := by
    have present := meets.hasAggregate
    refine ⟨?_, Registry.isSome_field? present.registered, fun selected => ?_⟩
    · rw [LawfulStore.lookup_put, if_neg]
      · exact kept
      rintro ⟨sameScope, sameName⟩
      rw [← sameScope, ← sameName, absent] at kept
      cases kept
    · exact quiet other.scope selected other.field present.registered present.aggregator
        (StoreCall.alters_getOrCreate absent)

/-- A write of another quota leaves an aggregate alone if the written scope is not selected and no
aggregate of a selected child is altered. -/
theorem ensures_write_unmoved (selecting : engine.Selecting) {aggregate : Aggregate}
    (registered : aggregate.field ∈ engine.registry.fields aggregate.scope.kind)
    {rule : AggregatorRule} (isRule : aggregate.field.aggregator? = some rule) {usage : Amount}
    {scope : Entity} {name : String}
    (other : ¬ (aggregate.scope = scope ∧ aggregate.field.name = name))
    (unselected : scope ∉ rule.children aggregate.scope engine.graph) (write : Write) {store : σ}
    (kept : (lookup store aggregate.scope aggregate.field.name).map Quota.usage = some usage) :
    Ensures (engine.QuietFor (rule.children aggregate.scope engine.graph))
      (engine.write scope name write) store fun _ after =>
        (lookup after aggregate.scope aggregate.field.name).map Quota.usage = some usage := by
  have spreads := spreads_unmoved (σ := σ) selecting registered isRule usage
  have begins : engine.Available scope name → (engine.registry.field? scope.kind name).isSome ∧
      scope ∉ rule.children aggregate.scope engine.graph := by
    rintro ⟨field, known, -⟩
    exact ⟨Option.isSome_of_eq_some known, unselected⟩
  have writes : ∀ (store : σ) quota,
      (lookup store aggregate.scope aggregate.field.name).map Quota.usage = some usage →
      (lookup (put store scope name quota) aggregate.scope aggregate.field.name).map Quota.usage =
        some usage := by
    intro store quota kept
    rwa [LawfulStore.lookup_put, if_neg fun same => other ⟨same.1.symm, same.2.symm⟩]
  cases write with
  | addUsage delta validate =>
      refine Action.ensures_discard ((ensures_applyDelta_kept spreads begins writes delta validate
        kept).mono ?_)
      rintro (error | amount) after keeps <;> exact keeps
  | setUsage amount => exact ensures_setUsage_kept spreads begins writes amount kept
  | setLimit limit => exact ensures_setLimit_kept spreads begins writes limit kept

end Engine

/-- Stores that answer alike do each write alike. -/
theorem AnswersAlike.write {τ : Type} [QuotaStore τ] {related : τ → σ → Prop}
    (alike : AnswersAlike related) (engine : Engine) (scope : Entity) (name : String)
    (write : Write) :
    Lockstep related (engine.write scope name write) (engine.write scope name write) := by
  cases write with
  | addUsage delta validate => exact alike.addQuotaUsage _ _ _ _ _
  | setUsage usage => exact alike.setQuotaUsage _ _ _ _
  | setLimit limit => exact alike.setQuotaLimit _ _ _ _

namespace Engine

variable [LawfulStore σ] {engine : Engine}

/-- An aggregate moves for the sake of children that it selects. Where quota parents are selecting, a
write moves a stored aggregate only if it names it, if the aggregate selects the written scope, or if
the run altered an aggregate of a child that the aggregate selects. -/
theorem selected_of_moved (selecting : engine.Selecting) (scope : Entity) (name : String)
    (write : Write) (store : σ) (aggregate : Aggregate)
    (registered : aggregate.field ∈ engine.registry.fields aggregate.scope.kind)
    (rule : AggregatorRule) (isRule : aggregate.field.aggregator? = some rule)
    (before after : Quota)
    (found : lookup store aggregate.scope aggregate.field.name = some before)
    (later : lookup (Action.after (engine.write scope name write) store) aggregate.scope
      aggregate.field.name = some after)
    (moved : after.usage ≠ before.usage) :
    (aggregate.scope = scope ∧ aggregate.field.name = name) ∨
      scope ∈ rule.children aggregate.scope engine.graph ∨
      ∃ child ∈ rule.children aggregate.scope engine.graph,
        ∃ field ∈ engine.registry.fields child.kind, field.aggregator?.isSome ∧
          ∃ entry ∈ Action.history (engine.write scope name write) store,
            entry.1.Alters entry.2 child field.name := by
  by_contra otherwise
  obtain ⟨other, unselected, quiet⟩ : _ ∧ _ ∧ _ := by
    simpa only [not_or] using otherwise
  have allQuiet : RecordedStore.AllFit
      (engine.QuietFor (rule.children aggregate.scope engine.graph))
      (Action.history (engine.write scope name write) store) :=
    fun entry member child selected field known sums alters =>
      quiet ⟨child, selected, field, known, sums, entry, member, alters⟩
  have ensures := ensures_write_unmoved selecting registered isRule other unselected write
    (congrArg (Option.map Quota.usage) found)
  have kept := ensures.of_allFit (RecordedStore.answersAlike.write engine scope name write) allQuiet
  rw [later] at kept
  exact moved (Option.some.inj kept)

end Engine

section Sample

/-- The organization sums the seats of its teams. -/
def sampleSeats : Aggregate := ⟨sampleOrganization, sampleSum "seats" .usage⟩

def sampleSeatsRule : AggregatorRule := ⟨"team", sampleToOrganization, .usage, none⟩

/-- The organization has as many seats in use as its only team. -/
def occupiedStore : MemoryStore :=
  (MemoryStore.empty.put sampleOrganization "seats" ⟨.unlimited, 4⟩).put sampleTeam "seats" ⟨10, 4⟩

/-- The organization's seats follow the seats of a team that it selects. -/
theorem selected_of_moved_sample :
    (Action.after (sampleEngine.write sampleTeam "seats" (.addUsage 3 true))
        occupiedStore).lookup sampleOrganization "seats" = some ⟨.unlimited, 7⟩ ∧
      sampleTeam ∈ sampleSeatsRule.children sampleOrganization sampleGraph := by
  have later : (Action.after (sampleEngine.write sampleTeam "seats" (.addUsage 3 true))
      occupiedStore).lookup sampleOrganization "seats" = some ⟨.unlimited, 7⟩ := by decide +kernel
  refine ⟨later, ?_⟩
  have selected := Engine.selected_of_moved Engine.matching_sampleEngine.selecting sampleTeam "seats"
    (.addUsage 3 true) occupiedStore sampleSeats (List.Mem.tail _ (List.Mem.head _))
    sampleSeatsRule rfl ⟨.unlimited, 4⟩ ⟨.unlimited, 7⟩ (by decide +kernel) later (by decide)
  rcases selected with ⟨sameScope, -⟩ | selected | ⟨child, member, field, known, sums, -⟩
  · exact absurd sameScope (by decide)
  · exact selected
  · -- The teams of the organization have no aggregates that could have been altered.
    have team : sampleSeatsRule.children sampleOrganization sampleGraph = [sampleTeam] := by
      decide +kernel
    obtain rfl := List.mem_singleton.1 (team ▸ member)
    have plain : ∀ other ∈ sampleRegistry.fields sampleTeam.kind, other.aggregator? = none := by
      intro other listed
      have fields : sampleRegistry.fields sampleTeam.kind =
          [{ name := "storage", defaultLimit := .constant 10 }, sampleCounter] := rfl
      rcases List.mem_cons.1 (fields ▸ listed) with rfl | counter
      · rfl
      · obtain rfl := List.mem_singleton.1 counter
        rfl
    rw [plain field known] at sums
    cases sums

/-- Teams and buckets both have storage, and the organization sums the storage of its teams. -/
def mixedRegistry : Registry where
  registrations :=
    [⟨"organization", sampleSum "storage" .usage⟩, ⟨"team", { name := "storage" }⟩,
      ⟨"bucket", { name := "storage" }⟩]
  distinct := by decide

/-- Buckets are beside the teams. -/
def sampleBucket : Entity := ⟨"bucket", "b1"⟩

/-- The organization is a quota parent of its teams and of its buckets. -/
def mixedGraph : Graph :=
  (((Graph.empty.withParentRelations "team" ["organization"]).withParentRelations "bucket"
    ["organization"]).insert sampleOrganization {}).insert sampleBucket
      { relations := Std.ExtTreeMap.empty.insert "organization" sampleOrganization }

/-- Without selecting quota parents, aggregates move for children that they do not select: the
storage of a bucket is added to a sum over teams. The propagation does not ask the selectors
itself. -/
theorem moved_without_selection :
    ¬ ∀ (engine : Engine) (scope : Entity) (name : String) (write : Write) (store : MemoryStore)
      (aggregate : Aggregate) (rule : AggregatorRule) (before after : Quota),
      engine.graph.Shallow → aggregate.field ∈ engine.registry.fields aggregate.scope.kind →
      aggregate.field.aggregator? = some rule →
      store.lookup aggregate.scope aggregate.field.name = some before →
      (Action.after (engine.write scope name write) store).lookup aggregate.scope
        aggregate.field.name = some after →
      after.usage ≠ before.usage →
      (aggregate.scope = scope ∧ aggregate.field.name = name) ∨
        scope ∈ rule.children aggregate.scope engine.graph ∨
        ∃ child ∈ rule.children aggregate.scope engine.graph,
          ∃ field ∈ engine.registry.fields child.kind, field.aggregator?.isSome ∧
            ∃ entry ∈ Action.history (engine.write scope name write) store,
              entry.1.Alters entry.2 child field.name := by
  intro claimed
  let rule : AggregatorRule := ⟨"team", sampleToOrganization, .usage, none⟩
  have none : rule.children sampleOrganization mixedGraph = [] := by decide +kernel
  have selected := claimed ⟨mixedRegistry, mixedGraph⟩ sampleBucket "storage" (.addUsage 5 true)
    (MemoryStore.empty.put sampleOrganization "storage" ⟨.unlimited, 0⟩)
    ⟨sampleOrganization, sampleSum "storage" .usage⟩ rule ⟨.unlimited, 0⟩ ⟨.unlimited, 5⟩
    (by decide +kernel) (List.Mem.head _) rfl (by decide +kernel) (by decide +kernel) (by decide)
  rcases selected with ⟨sameScope, -⟩ | selected | ⟨child, member, -⟩
  · exact absurd sameScope (by decide)
  · cases none ▸ selected
  · cases none ▸ member

end Sample

end HierarchicalQuota
