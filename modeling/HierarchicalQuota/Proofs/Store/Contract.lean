import HierarchicalQuota.Proofs.Store.Lawful
import HierarchicalQuota.Proofs.Store.Recorded
import Mathlib.Data.List.Sort
import Mathlib.Data.Set.Card

namespace HierarchicalQuota

open LawfulStore (lookup put drop list)

/-- An answer is what a call of a store yields. -/
inductive StoreAnswer where
  | found (quota : Option Quota)
  | ensured (quota : Quota) (created : Bool)
  | previous (amount : Option Amount)
  | updated (update : UsageUpdate)
  | listed (records : List Record)
  | failed (error : StorageError)
deriving DecidableEq, Inhabited

namespace StoreAnswer

/-- An access that fails is answered with its error. -/
def ofResult {σ α : Type} (answer : α → StoreAnswer) :
    EStateM.Result StorageError σ α → StoreAnswer × σ
  | .ok value store => (answer value, store)
  | .error error store => (.failed error, store)

end StoreAnswer

namespace StoreCall

variable {σ : Type} [QuotaStore σ]

/-- A call is answered by its access, which also leaves a store behind. -/
def perform (store : σ) : StoreCall → StoreAnswer × σ
  | .get scope name => StoreAnswer.ofResult .found (QuotaStore.get scope name store)
  | .getOrCreate scope name initial =>
      StoreAnswer.ofResult (fun made => .ensured made.1 made.2)
        (QuotaStore.getOrCreate scope name initial store)
  | .setLimit scope name limit =>
      StoreAnswer.ofResult .previous (QuotaStore.setLimit scope name limit store)
  | .setUsage scope name usage =>
      StoreAnswer.ofResult .previous (QuotaStore.setUsage scope name usage store)
  | .addUsage scope name delta validate =>
      StoreAnswer.ofResult .updated (QuotaStore.addUsage scope name delta validate store)
  | .shiftUsage scope name delta =>
      StoreAnswer.ofResult .updated (QuotaStore.shiftUsage scope name delta store)
  | .listScope scope => StoreAnswer.ofResult .listed (QuotaStore.listScope scope store)
  | .deleteScope scope => StoreAnswer.ofResult .listed (QuotaStore.deleteScope scope store)

/-- Each call of a run finds the store that the calls before it left behind. -/
def performAll (store : σ) : List StoreCall → List StoreAnswer × σ
  | [] => ([], store)
  | call :: calls =>
      let rest := performAll (call.perform store).2 calls
      ((call.perform store).1 :: rest.1, rest.2)

end StoreCall

/-- The contents of a store are one flat table of quotas under scopes and names. -/
abbrev Contents := Entity → String → Option Quota

namespace Contents

/-- Nothing is found in the empty table. -/
def empty : Contents := fun _ _ => none

/-- A record replaces the one with its scope and name. -/
def put (contents : Contents) (scope : Entity) (name : String) (quota : Quota) : Contents :=
  fun other label => if scope = other ∧ name = label then some quota else contents other label

/-- A scope is taken out with all its records. -/
def drop (contents : Contents) (scope : Entity) : Contents :=
  fun other name => if scope = other then none else contents other name

/-- A listing holds exactly the records of a scope, in the order of their names. -/
structure Lists (contents : Contents) (scope : Entity) (records : List Record) : Prop where
  mem_iff (record : Record) :
    record ∈ records ↔ record.scope = scope ∧ contents scope record.name = some record.quota
  sorted : records.Pairwise fun first second => first.name < second.name

/-- A scope has at most one listing. -/
theorem Lists.unique {contents : Contents} {scope : Entity} {first second : List Record}
    (firstLists : contents.Lists scope first) (secondLists : contents.Lists scope second) :
    first = second := by
  have asymmetric : Std.Asymm fun left right : Record => left.name < right.name :=
    ⟨fun _ _ => String.lt_asymm⟩
  refine List.Pairwise.eq_of_mem_iff firstLists.sorted secondLists.sorted fun record => ?_
  rw [firstLists.mem_iff, secondLists.mem_iff]

/-- A change that raises the usage is refused where a finite limit stands in its way. -/
def Refuses (quota : Quota) (delta : Amount) (validate : Bool) : Prop :=
  validate ∧ 0 < delta ∧ quota.limit ≠ .unlimited ∧ quota.limit < max (quota.usage + delta) 0

/-- A flat table has one answer to each call, and one table that is left by it. -/
inductive Serves (contents : Contents) : StoreCall → StoreAnswer → Contents → Prop
  | get (scope : Entity) (name : String) :
      Serves contents (.get scope name) (.found (contents scope name)) contents
  | kept {scope : Entity} {name : String} {quota : Quota} (initial : Quota)
      (found : contents scope name = some quota) :
      Serves contents (.getOrCreate scope name initial) (.ensured quota false) contents
  | created {scope : Entity} {name : String} (initial : Quota)
      (absent : contents scope name = none) :
      Serves contents (.getOrCreate scope name initial) (.ensured initial true)
        (contents.put scope name initial)
  | setLimit (scope : Entity) (name : String) (limit : Amount) :
      Serves contents (.setLimit scope name limit)
        (.previous ((contents scope name).map Quota.limit))
        (contents.put scope name ⟨limit, ((contents scope name).map Quota.usage).getD 0⟩)
  | setUsage (scope : Entity) (name : String) (usage : Amount) :
      Serves contents (.setUsage scope name usage)
        (.previous ((contents scope name).map Quota.usage))
        (contents.put scope name ⟨((contents scope name).map Quota.limit).getD .unlimited, usage⟩)
  | added {scope : Entity} {name : String} {quota : Quota} {delta : Amount} {validate : Bool}
      (found : contents scope name = some quota) (allowed : ¬ Refuses quota delta validate) :
      Serves contents (.addUsage scope name delta validate)
        (.updated (.applied quota.usage (max (quota.usage + delta) 0) quota.limit))
        (contents.put scope name ⟨quota.limit, max (quota.usage + delta) 0⟩)
  | refused {scope : Entity} {name : String} {quota : Quota} {delta : Amount} {validate : Bool}
      (found : contents scope name = some quota) (refuses : Refuses quota delta validate) :
      Serves contents (.addUsage scope name delta validate)
        (.updated (.rejected quota.usage quota.limit)) contents
  | notAdded {scope : Entity} {name : String} (delta : Amount) (validate : Bool)
      (absent : contents scope name = none) :
      Serves contents (.addUsage scope name delta validate) (.failed (.notFound scope name)) contents
  | shifted {scope : Entity} {name : String} {quota : Quota} (delta : Amount)
      (found : contents scope name = some quota) :
      Serves contents (.shiftUsage scope name delta)
        (.updated (.applied quota.usage (quota.usage + delta) quota.limit))
        (contents.put scope name ⟨quota.limit, quota.usage + delta⟩)
  | notShifted {scope : Entity} {name : String} (delta : Amount)
      (absent : contents scope name = none) :
      Serves contents (.shiftUsage scope name delta) (.failed (.notFound scope name)) contents
  | listed {scope : Entity} {records : List Record} (lists : contents.Lists scope records) :
      Serves contents (.listScope scope) (.listed records) contents
  | deleted {scope : Entity} {records : List Record} (lists : contents.Lists scope records) :
      Serves contents (.deleteScope scope) (.listed records) (contents.drop scope)

/-- A flat table serves the calls of a run one after another. -/
inductive ServesAll : Contents → List StoreCall → List StoreAnswer → Contents → Prop
  | nil (contents : Contents) : ServesAll contents [] [] contents
  | cons {before between after : Contents} {call : StoreCall} {calls : List StoreCall}
      {answer : StoreAnswer} {answers : List StoreAnswer}
      (first : before.Serves call answer between) (rest : ServesAll between calls answers after) :
      ServesAll before (call :: calls) (answer :: answers) after

/-- A flat table never has two answers to one call. -/
theorem Serves.unique {contents firstAfter secondAfter : Contents} {call : StoreCall}
    {firstAnswer secondAnswer : StoreAnswer} (first : contents.Serves call firstAnswer firstAfter)
    (second : contents.Serves call secondAnswer secondAfter) :
    firstAnswer = secondAnswer ∧ firstAfter = secondAfter := by
  cases first with
  | listed lists =>
      cases second with
      | listed listsAgain => exact ⟨congrArg _ (lists.unique listsAgain), rfl⟩
  | deleted lists =>
      cases second with
      | deleted listsAgain => exact ⟨congrArg _ (lists.unique listsAgain), rfl⟩
  | _ =>
      -- The rules for one call exclude each other by what they find.
      cases second <;> simp_all

/-- The table determines all answers and the contents that are left. -/
theorem ServesAll.unique {contents firstAfter secondAfter : Contents} {calls : List StoreCall}
    {firstAnswers secondAnswers : List StoreAnswer}
    (first : ServesAll contents calls firstAnswers firstAfter)
    (second : ServesAll contents calls secondAnswers secondAfter) :
    firstAnswers = secondAnswers ∧ firstAfter = secondAfter := by
  induction first generalizing secondAnswers with
  | nil =>
      cases second
      exact ⟨rfl, rfl⟩
  | cons served _ inductionHypothesis =>
      cases second with
      | cons servedAgain rest =>
          obtain ⟨rfl, rfl⟩ := served.unique servedAgain
          obtain ⟨rfl, rfl⟩ := inductionHypothesis rest
          exact ⟨rfl, rfl⟩

end Contents

/-- An ordered store lists the records of a scope in the order of their names. -/
class OrderedStore (σ : Type) [QuotaStore σ] [LawfulStore σ] : Prop where
  sorted_list (store : σ) (scope : Entity) :
    (list store scope).Pairwise fun first second => first.name < second.name

/-- A memory store keeps the names of each scope in order. -/
instance : OrderedStore MemoryStore where
  sorted_list store scope := by
    change ((store.quotas scope).toList.map _).Pairwise _
    rw [List.pairwise_map]
    exact (store.quotas scope).ordered_keys_toList.imp compareOfLessAndEq_eq_lt.1

/-- A row store keeps its keys in order, and those of one scope are ordered by their names. -/
instance : OrderedStore RowStore where
  sorted_list store scope := by
    have ordered : store.records.Pairwise fun first second =>
        first.scope = second.scope → first.name < second.name := by
      rw [RowStore.records, List.pairwise_map]
      refine store.rows.ordered_keys_toList.imp fun {first second} before same => ?_
      -- Keys of one scope are told apart by their names.
      rw [RowKey.compare_def, Std.LawfulEqOrd.compare_eq_iff_eq.2 same] at before
      exact compareOfLessAndEq_eq_lt.1 before
    refine List.Pairwise.imp_of_mem (fun {first second} firstMember secondMember before => ?_)
      (ordered.filter _)
    have firstScope := of_decide_eq_true (List.mem_filter.1 firstMember).2
    have secondScope := of_decide_eq_true (List.mem_filter.1 secondMember).2
    exact before (firstScope.trans secondScope.symm)

namespace StoreCall

open Contents

section Lawful

variable {σ : Type} [QuotaStore σ] [LawfulStore σ]

/-- A write changes the contents of a store as it changes a table. -/
theorem lookup_put (store : σ) (scope : Entity) (name : String) (quota : Quota) :
    lookup (put store scope name quota) = Contents.put (lookup store) scope name quota := by
  funext other label
  exact LawfulStore.lookup_put store scope other name label quota

/-- A removal changes the contents of a store as it changes a table. -/
theorem lookup_drop (store : σ) (scope : Entity) :
    lookup (drop store scope) = Contents.drop (lookup store) scope := by
  funext other name
  exact LawfulStore.lookup_drop store scope other name

variable [OrderedStore σ]

/-- A store lists the records of a scope as they are in its contents. -/
theorem lists_list (store : σ) (scope : Entity) :
    Contents.Lists (lookup store) scope (list store scope) where
  mem_iff _ := LawfulStore.mem_list
  sorted := OrderedStore.sorted_list store scope

/-- Every call is answered as the flat table of the lookups answers it. -/
theorem serves_perform (store : σ) (call : StoreCall) :
    Serves (lookup store) call (call.perform store).1 (lookup (call.perform store).2) := by
  cases call with
  | get scope name =>
      simp only [perform, LawfulStore.get_eq]
      exact .get scope name
  | getOrCreate scope name initial =>
      simp only [perform, LawfulStore.getOrCreate_eq]
      cases found : lookup store scope name with
      | some quota => exact .kept initial found
      | none =>
          simp only [StoreAnswer.ofResult, lookup_put]
          exact .created initial found
  | setLimit scope name limit =>
      have served : Serves (lookup store) _ _ _ := .setLimit scope name limit
      simp only [perform, LawfulStore.setLimit_eq]
      cases found : lookup store scope name with
      | some quota =>
          rw [found, Option.map_some, Option.map_some, Option.getD_some] at served
          simpa only [StoreAnswer.ofResult, lookup_put] using served
      | none =>
          rw [found, Option.map_none, Option.map_none, Option.getD_none] at served
          simpa only [StoreAnswer.ofResult, lookup_put] using served
  | setUsage scope name usage =>
      have served : Serves (lookup store) _ _ _ := .setUsage scope name usage
      simp only [perform, LawfulStore.setUsage_eq]
      cases found : lookup store scope name with
      | some quota =>
          rw [found, Option.map_some, Option.map_some, Option.getD_some] at served
          simpa only [StoreAnswer.ofResult, lookup_put] using served
      | none =>
          rw [found, Option.map_none, Option.map_none, Option.getD_none] at served
          simpa only [StoreAnswer.ofResult, lookup_put] using served
  | addUsage scope name delta validate =>
      simp only [perform, LawfulStore.addUsage_eq]
      cases found : lookup store scope name with
      | none => exact .notAdded delta validate found
      | some quota =>
          simp only [StoreAnswer.ofResult, Quota.addUsage]
          split
          · rename_i refuses
            rw [Quota.update, LawfulStore.put_of_lookup found]
            exact .refused found refuses
          · rename_i allowed
            rw [Quota.update, lookup_put]
            exact .added found allowed
  | shiftUsage scope name delta =>
      simp only [perform, LawfulStore.shiftUsage_eq]
      cases found : lookup store scope name with
      | none => exact .notShifted delta found
      | some quota =>
          simp only [StoreAnswer.ofResult, Quota.shiftUsage, lookup_put]
          exact .shifted delta found
  | listScope scope =>
      simp only [perform, LawfulStore.listScope_eq]
      exact .listed (lists_list store scope)
  | deleteScope scope =>
      simp only [perform, LawfulStore.deleteScope_eq, StoreAnswer.ofResult, lookup_drop]
      exact .deleted (lists_list store scope)

/-- Every run of calls is answered as the flat table of the lookups answers it. -/
theorem servesAll_performAll (store : σ) (calls : List StoreCall) :
    ServesAll (lookup store) calls (performAll store calls).1
      (lookup (performAll store calls).2) := by
  induction calls generalizing store with
  | nil => exact .nil _
  | cons call calls inductionHypothesis =>
      exact .cons (serves_perform store call) (inductionHypothesis (call.perform store).2)

end Lawful

end StoreCall

namespace MemoryStore

/-- A scope is in a memory store if and only if it holds a record there. -/
theorem mem_scopes {store : MemoryStore} {scope : Entity} :
    scope ∈ store.scopes ↔ ∃ name quota, store.lookup scope name = some quota := by
  rw [← Std.ExtTreeMap.isSome_getElem?_iff_mem, store.getElem?_scopes]
  split
  · rename_i vacant
    simp [lookup, vacant]
  · rename_i occupied
    obtain ⟨name, member⟩ :=
      not_forall_not.1 (Std.ExtTreeMap.eq_empty_iff_forall_not_mem.not.1 occupied)
    obtain ⟨quota, found⟩ :=
      Option.isSome_iff_exists.1 (Std.ExtTreeMap.isSome_getElem?_iff_mem.2 member)
    exact ⟨fun _ => ⟨name, quota, found⟩, fun _ => rfl⟩

/-- A memory store has as many scopes as there are with a record. -/
theorem encard_scopes (store : MemoryStore) :
    Set.encard {scope | ∃ name quota, store.lookup scope name = some quota} = store.scopeCount := by
  have holds : {scope | ∃ name quota, store.lookup scope name = some quota} =
      (store.scopes.keys.toFinset : Set Entity) := by
    ext scope
    rw [Set.mem_ofPred_eq, ← mem_scopes, List.coe_toFinset, Set.mem_ofPred_eq,
      Std.ExtTreeMap.mem_keys]
  rw [holds, Set.encard_coe_eq_coe_finsetCard,
    List.toFinset_card_of_nodup Std.ExtTreeMap.nodup_keys, Std.ExtTreeMap.length_keys, scopeCount]

end MemoryStore

namespace StoreCall

/-- On empty stores, the memory store and the row store give equal answers to every run of calls.
Both answer as one flat table, to which both are equal afterwards, and the scopes that the memory
store counts are those that hold a record in it. -/
theorem performAll_stores_agree (calls : List StoreCall) :
    (performAll MemoryStore.empty calls).1 = (performAll RowStore.empty calls).1 ∧
      ∃ contents : Contents,
        Contents.ServesAll .empty calls (performAll MemoryStore.empty calls).1 contents ∧
        (performAll MemoryStore.empty calls).2.lookup = contents ∧
        (performAll RowStore.empty calls).2.lookup = contents ∧
        Set.encard {scope | ∃ name quota, contents scope name = some quota} =
          (performAll MemoryStore.empty calls).2.scopeCount := by
  have memoryEmpty : lookup MemoryStore.empty = Contents.empty := by
    funext scope name
    exact MemoryStore.lookup_empty scope name
  have rowsEmpty : lookup RowStore.empty = Contents.empty := by
    funext scope name
    exact RowStore.lookup_empty scope name
  have memory := servesAll_performAll MemoryStore.empty calls
  have rows := servesAll_performAll RowStore.empty calls
  rw [memoryEmpty] at memory
  rw [rowsEmpty] at rows
  obtain ⟨answers, contents⟩ := memory.unique rows
  exact ⟨answers, _, memory, rfl, contents.symm, MemoryStore.encard_scopes _⟩

end StoreCall

end HierarchicalQuota
