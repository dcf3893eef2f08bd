import HierarchicalQuota.Proofs.Registered
import Mathlib.Data.List.Induction

namespace HierarchicalQuota

/-- A registration occurs as often among those that target a kind as its field names that kind. -/
def Registration.occurrences (registration : Registration) (kind : String) : Nat :=
  registration.field.targets?.elim 0 fun targets => targets.1.count kind

/-- A registration is accepted if no earlier one has its key. -/
def Registration.accepted : List Registration → List Registration
  | [] => []
  | first :: later => first :: (accepted later).filter fun registration => registration.key ≠ first.key

/-- One table lists the fields of each kind of scope, and the other the registrations of the counters
and totals that target each kind of entity. -/
@[ext] structure Indexes where
  fields : Table String (List Field) := ∅
  targets : Table String (List Registration) := ∅

namespace Indexes

/-- Before the first registration both tables are empty. -/
def empty : Indexes := {}

/-- A kind without an entry has no fields. -/
def fieldsOf (indexes : Indexes) (kind : String) : List Field := indexes.fields.getD kind []

/-- A kind is a kind of scope if it has an entry, be it empty. -/
def isScopeKind (indexes : Indexes) (kind : String) : Bool := indexes.fields.contains kind

/-- A kind without an entry is not targeted. -/
def targeting (indexes : Indexes) (kind : String) : List Registration :=
  indexes.targets.getD kind []

/-- This step makes the entry of a kind, without any field, if there is none. -/
def enter (indexes : Indexes) (kind : String) : Indexes :=
  { indexes with fields := indexes.fields.insertIfNew kind [] }

/-- This step adds a registration to those that target a kind. -/
def aim (indexes : Indexes) (registration : Registration) (kind : String) : Indexes :=
  { indexes with targets := indexes.targets.insert kind (indexes.targeting kind ++ [registration]) }

/-- This step adds a field to those of a kind. -/
def add (indexes : Indexes) (kind : String) (field : Field) : Indexes :=
  { indexes with fields := indexes.fields.insert kind (indexes.fieldsOf kind ++ [field]) }

/-- The entry is made first. A taken name ends the registration there, and otherwise the targets are
written one by one before the field. -/
def register (indexes : Indexes) (registration : Registration) : Except QuotaError Unit × Indexes :=
  let entered := indexes.enter registration.kind
  if (entered.fieldsOf registration.kind).any fun field => field.name = registration.field.name then
    (.error (.duplicateField registration.kind registration.field.name), entered)
  else
    let targets := registration.field.targets?.elim [] fun targets => targets.1
    let aimed := targets.foldl (fun indexes target => indexes.aim registration target) entered
    (.ok ⟨⟩, aimed.add registration.kind registration.field)

/-- A refused registration does not keep the later ones from happening. -/
def registerAll (registrations : List Registration) : Indexes :=
  registrations.foldl (fun indexes registration => (indexes.register registration).2) empty

section Steps

variable (indexes : Indexes) (registration : Registration) (kind other : String) (field : Field)

/-- An entry without a field adds no field. -/
@[simp] theorem fieldsOf_enter : (indexes.enter kind).fieldsOf other = indexes.fieldsOf other := by
  simp only [fieldsOf, enter, Std.ExtTreeMap.getD_insertIfNew, Std.LawfulEqOrd.compare_eq_iff_eq]
  split
  · rename_i fresh
    rw [← fresh.1, Std.ExtTreeMap.getD_eq_fallback fresh.2]
  · rfl

/-- An entry of fields is no entry of targets. -/
@[simp] theorem targeting_enter : (indexes.enter kind).targeting other = indexes.targeting other :=
  rfl

/-- A kind with an entry is a kind of scopes, even if its registration is refused. -/
theorem isScopeKind_enter :
    (indexes.enter kind).isScopeKind other = (decide (kind = other) || indexes.isScopeKind other) := by
  simp only [isScopeKind, enter, Std.ExtTreeMap.contains_insertIfNew]
  congr 1
  rw [Bool.eq_iff_iff]
  simp

/-- The entry of a kind that has one is left alone. -/
theorem enter_of_isScopeKind (known : indexes.isScopeKind kind = true) :
    indexes.enter kind = indexes := by
  apply Indexes.ext
  · apply Std.ExtTreeMap.ext_getElem?
    intro label
    rw [enter, Std.ExtTreeMap.getElem?_insertIfNew, if_neg]
    rintro ⟨-, fresh⟩
    exact fresh (Std.ExtTreeMap.contains_iff_mem.1 known)
  · rfl

@[simp] theorem fieldsOf_aim : (indexes.aim registration kind).fieldsOf other =
    indexes.fieldsOf other := rfl

@[simp] theorem isScopeKind_aim : (indexes.aim registration kind).isScopeKind other =
    indexes.isScopeKind other := rfl

/-- A registration comes last among those that target the kind. -/
theorem targeting_aim : (indexes.aim registration kind).targeting other =
    indexes.targeting other ++ if kind = other then [registration] else [] := by
  simp only [targeting, aim, Std.ExtTreeMap.getD_insert, Std.LawfulEqOrd.compare_eq_iff_eq]
  split
  · rename_i same
    rw [same]
  · rw [List.append_nil]

@[simp] theorem targeting_add : (indexes.add kind field).targeting other = indexes.targeting other :=
  rfl

/-- A field comes last among those of its kind. -/
theorem fieldsOf_add : (indexes.add kind field).fieldsOf other =
    indexes.fieldsOf other ++ if kind = other then [field] else [] := by
  simp only [fieldsOf, add, Std.ExtTreeMap.getD_insert, Std.LawfulEqOrd.compare_eq_iff_eq]
  split
  · rename_i same
    rw [same]
  · rw [List.append_nil]

/-- A kind with a field is a kind of scopes. -/
theorem isScopeKind_add : (indexes.add kind field).isScopeKind other =
    (decide (kind = other) || indexes.isScopeKind other) := by
  simp only [isScopeKind, add, Std.ExtTreeMap.contains_insert]
  congr 1
  rw [Bool.eq_iff_iff]
  simp

/-- One registration aims at every one of its targets in turn. -/
theorem foldl_aim (targets : List String) :
    ((targets.foldl (fun indexes target => indexes.aim registration target) indexes).fieldsOf other =
        indexes.fieldsOf other) ∧
      ((targets.foldl (fun indexes target => indexes.aim registration target) indexes).isScopeKind
        other = indexes.isScopeKind other) ∧
      (targets.foldl (fun indexes target => indexes.aim registration target) indexes).targeting other =
        indexes.targeting other ++ List.replicate (targets.count other) registration := by
  induction targets generalizing indexes with
  | nil => simp
  | cons target targets inductionHypothesis =>
      obtain ⟨fields, scopeKind, targeting⟩ := inductionHypothesis (indexes.aim registration target)
      refine ⟨fields, scopeKind, ?_⟩
      rw [List.foldl_cons, targeting, targeting_aim, List.append_assoc, List.count_cons]
      congr 1
      by_cases same : target = other
      · simp [same, List.replicate_succ]
      · simp [same]

end Steps

/-- Both tables are the indexes of a list of registrations if they read as the list does. -/
structure Of (indexes : Indexes) (registrations : List Registration) : Prop where
  fields (kind : String) : indexes.fieldsOf kind =
    (registrations.filter fun registration => registration.kind = kind).map (·.field)
  scopeKind (kind : String) : indexes.isScopeKind kind =
    registrations.any fun registration => registration.kind = kind
  targets (kind : String) : indexes.targeting kind =
    registrations.flatMap fun registration =>
      List.replicate (registration.occurrences kind) registration

/-- Empty tables are the indexes of no registrations. -/
theorem of_empty : Of empty [] where
  fields kind := by simp [fieldsOf, empty]
  scopeKind kind := by simp [isScopeKind, empty]
  targets kind := by simp [targeting, empty]

variable {indexes : Indexes} {registrations : List Registration} {registration : Registration}

/-- A name is found to be taken in the table exactly where an accepted registration has it. -/
theorem Of.taken_iff (isOf : indexes.Of registrations) :
    (((indexes.enter registration.kind).fieldsOf registration.kind).any
        fun field => field.name = registration.field.name) = true ↔
      registration.key ∈ registrations.map Registration.key := by
  simp only [fieldsOf_enter, isOf.fields, List.any_map, List.any_filter, List.any_eq_true,
    Bool.and_eq_true, decide_eq_true_eq, Function.comp_apply, List.mem_map, Registration.key,
    Prod.mk.injEq]

/-- A refused registration leaves both tables as they were. -/
theorem Of.register_of_taken (isOf : indexes.Of registrations)
    (taken : registration.key ∈ registrations.map Registration.key) :
    indexes.register registration =
      (.error (.duplicateField registration.kind registration.field.name), indexes) := by
  have entered : indexes.enter registration.kind = indexes := by
    apply enter_of_isScopeKind
    obtain ⟨earlier, member, sameKey⟩ := List.mem_map.1 taken
    rw [isOf.scopeKind, List.any_eq_true]
    exact ⟨earlier, member, decide_eq_true (congrArg Prod.fst sameKey)⟩
  rw [register, if_pos (isOf.taken_iff.2 taken), entered]

/-- An accepted registration comes last in both tables. -/
theorem Of.register_of_fresh (isOf : indexes.Of registrations)
    (fresh : registration.key ∉ registrations.map Registration.key) :
    (indexes.register registration).1 = .ok ⟨⟩ ∧
      (indexes.register registration).2.Of (registrations ++ [registration]) := by
  rw [register, if_neg fun taken => fresh (isOf.taken_iff.1 taken)]
  refine ⟨rfl, fun kind => ?_, fun kind => ?_, fun kind => ?_⟩
  · rw [fieldsOf_add, (foldl_aim _ _ _ _).1, fieldsOf_enter, isOf.fields, List.filter_append,
      List.map_append]
    congr 1
    by_cases same : registration.kind = kind <;> simp [same]
  · rw [isScopeKind_add, (foldl_aim _ _ _ _).2.1, isScopeKind_enter, isOf.scopeKind,
      List.any_append]
    by_cases same : registration.kind = kind <;> simp [same]
  · rw [targeting_add, (foldl_aim _ _ _ _).2.2, targeting_enter, isOf.targets, List.flatMap_append]
    congr 1
    rw [List.flatMap_singleton, Registration.occurrences]
    cases registration.field.targets? <;> rfl

end Indexes

namespace Registry

/-- A refused registration leaves the registry as it was, and the later ones still happen. -/
def registerAll (registrations : List Registration) : Registry :=
  registrations.foldl (fun registry registration =>
    (registry.register registration.kind registration.field).toOption.getD registry) empty

variable {registry : Registry} {registration : Registration}

/-- A registry refuses a registration whose key is there. -/
theorem register_of_taken (taken : registration.key ∈ registry.registrations.map Registration.key) :
    registry.register registration.kind registration.field =
      .error (.duplicateField registration.kind registration.field.name) :=
  dif_pos taken

/-- A registry takes a registration whose key is new, and lists it last. -/
theorem register_of_fresh
    (fresh : registration.key ∉ registry.registrations.map Registration.key) :
    ∃ next, registry.register registration.kind registration.field = .ok next ∧
      next.registrations = registry.registrations ++ [registration] :=
  ⟨_, dif_neg fresh, rfl⟩

/-- A registry lists a registration once for each time that it targets a kind. -/
theorem targeting_eq (registry : Registry) (kind : String) :
    registry.targeting kind = registry.registrations.flatMap fun registration =>
      List.replicate (registration.occurrences kind) registration := by
  rw [targeting]
  congr 1
  funext registration
  rw [Registration.occurrences]
  cases registration.field.targets? with
  | none => rfl
  | some targets =>
      dsimp only [Option.elim_some]
      rw [List.map_const', List.count_eq_length_filter]
      rfl

/-- The names of a kind are those of its registrations. -/
theorem mem_names_iff (registry : Registry) (kind name : String) :
    name ∈ registry.names kind ↔ (kind, name) ∈ registry.registrations.map Registration.key := by
  rw [names, fields, List.map_map, List.mem_map, List.mem_map]
  simp [Registration.key, and_assoc]

end Registry

namespace Registration

/-- A further registration is accepted if none of the accepted ones has its key. -/
theorem accepted_append (registrations : List Registration) (last : Registration) :
    accepted (registrations ++ [last]) =
      if last.key ∈ (accepted registrations).map key then accepted registrations
      else accepted registrations ++ [last] := by
  induction registrations with
  | nil => simp [accepted]
  | cons first later inductionHypothesis =>
      rw [List.cons_append, accepted, inductionHypothesis, accepted]
      by_cases sameKey : last.key = first.key
      · -- The last registration is dropped again, if it was accepted among the later ones.
        have dropped : (if last.key ∈ (accepted later).map key then accepted later
            else accepted later ++ [last]).filter (fun registration => registration.key ≠ first.key) =
            (accepted later).filter fun registration => registration.key ≠ first.key := by
          split
          · rfl
          · simp [List.filter_append, sameKey]
        rw [dropped, if_pos (by simp [sameKey])]
      · have taken : last.key ∈ (first :: (accepted later).filter fun registration =>
            registration.key ≠ first.key).map key ↔ last.key ∈ (accepted later).map key := by
          simp only [List.map_cons, List.mem_cons, sameKey, false_or, List.mem_map, List.mem_filter,
            decide_eq_true_eq]
          constructor
          · rintro ⟨registration, ⟨member, -⟩, same⟩
            exact ⟨registration, member, same⟩
          · rintro ⟨registration, member, same⟩
            exact ⟨registration, ⟨member, same ▸ sameKey⟩, same⟩
        simp only [taken]
        split
        · rfl
        · simp [List.filter_append, sameKey]

end Registration

/-- A registry and its tables are consistent if the names of each kind are distinct and both read as
the list of the accepted registrations does. -/
structure Consistent (registry : Registry) (indexes : Indexes) (accepted : List Registration) :
    Prop where
  names (kind : String) : (registry.names kind).Nodup
  fields (kind : String) : registry.fields kind =
    (accepted.filter fun registration => registration.kind = kind).map (·.field)
  isScopeKind (kind : String) : registry.isScopeKind kind = true ↔
    ∃ registration ∈ accepted, registration.kind = kind
  targeting (kind : String) : registry.targeting kind =
    accepted.flatMap fun registration =>
      List.replicate (registration.occurrences kind) registration
  indexed (kind : String) : indexes.fieldsOf kind = registry.fields kind ∧
    indexes.isScopeKind kind = registry.isScopeKind kind ∧
    indexes.targeting kind = registry.targeting kind

/-- A registration is judged by its name. A taken one is refused and nothing is changed, and a free
one is accepted and listed last. -/
def Judges (registry : Registry) (indexes : Indexes) (registration : Registration) : Prop :=
  if registration.field.name ∈ registry.names registration.kind then
    registry.register registration.kind registration.field =
        .error (.duplicateField registration.kind registration.field.name) ∧
      indexes.register registration =
        (.error (.duplicateField registration.kind registration.field.name), indexes)
  else
    (∃ next, registry.register registration.kind registration.field = .ok next ∧
        next.registrations = registry.registrations ++ [registration]) ∧
      (indexes.register registration).1 = .ok ⟨⟩

/-- After any registrations, the registry lists the accepted ones and both tables are its indexes. -/
theorem registerAll_of (registrations : List Registration) :
    (Registry.registerAll registrations).registrations = Registration.accepted registrations ∧
      (Indexes.registerAll registrations).Of (Registration.accepted registrations) := by
  induction registrations using List.reverseRecOn with
  | nil => exact ⟨rfl, Indexes.of_empty⟩
  | append_singleton registrations last inductionHypothesis =>
      obtain ⟨lists, isOf⟩ := inductionHypothesis
      rw [Registration.accepted_append, Registry.registerAll, Indexes.registerAll, List.foldl_concat,
        List.foldl_concat]
      split
      · rename_i taken
        have refused := Registry.register_of_taken (lists.symm ▸ taken)
        rw [← Registry.registerAll, ← Indexes.registerAll, refused, isOf.register_of_taken taken]
        exact ⟨lists, isOf⟩
      · rename_i fresh
        obtain ⟨next, registered, nextLists⟩ := Registry.register_of_fresh (lists.symm ▸ fresh)
        rw [← Registry.registerAll, ← Indexes.registerAll, registered]
        exact ⟨nextLists.trans (by rw [lists]), (isOf.register_of_fresh fresh).2⟩

/-- The indexes of a registry stay consistent. After any registrations, accepted or refused, the names
of each kind of scope are distinct, its fields are the accepted ones in order, and it is a kind of
scope exactly if it has one. An entity's kind is targeted by the accepted counters and totals in order,
once for every time they name it. A further registration is refused exactly if its name is taken, and
then leaves everything as it was. -/
theorem registerAll_consistent (registrations : List Registration) :
    Consistent (Registry.registerAll registrations) (Indexes.registerAll registrations)
        (Registration.accepted registrations) ∧
      ∀ registration, Judges (Registry.registerAll registrations)
        (Indexes.registerAll registrations) registration := by
  obtain ⟨lists, isOf⟩ := registerAll_of registrations
  have targeting (kind : String) := (Registry.registerAll registrations).targeting_eq kind
  rw [← lists] at isOf ⊢
  refine ⟨⟨Registry.nodup_names _, fun _ => rfl, fun kind => ?_, targeting, fun kind =>
    ⟨isOf.fields kind, isOf.scopeKind kind, (isOf.targets kind).trans (targeting kind).symm⟩⟩, ?_⟩
  · simp [Registry.isScopeKind]
  · intro registration
    rw [Judges]
    split
    · rename_i name
      have taken := (Registry.mem_names_iff _ _ _).1 name
      exact ⟨Registry.register_of_taken taken, isOf.register_of_taken taken⟩
    · rename_i name
      have fresh := fun taken => name ((Registry.mem_names_iff _ _ _).2 taken)
      exact ⟨Registry.register_of_fresh fresh, (isOf.register_of_fresh fresh).1⟩

end HierarchicalQuota
