import HierarchicalQuota.Registry
import HierarchicalQuota.Proofs.Store.Lawful
import Mathlib.Data.List.Nodup

namespace HierarchicalQuota

namespace Registry

variable {registry : Registry} {kind name : String} {field : Field}

/-- The fields of one kind have distinct names. -/
theorem nodup_names (registry : Registry) (kind : String) :
    ((registry.fields kind).map Field.name).Nodup := by
  have keys := registry.distinct
  rw [List.Nodup, List.pairwise_map] at keys
  rw [fields, List.map_map, List.Nodup, List.pairwise_map]
  refine List.Pairwise.imp_of_mem (fun {first second} firstMember secondMember different => ?_)
    (keys.filter _)
  intro sameName
  have firstKind := of_decide_eq_true (List.mem_filter.1 firstMember).2
  have secondKind := of_decide_eq_true (List.mem_filter.1 secondMember).2
  apply different
  rw [Registration.key, Registration.key, firstKind, secondKind]
  exact congrArg (kind, ·) sameName

/-- The names of a kind are distinct, so a name determines its field. -/
theorem eq_of_name_eq {other : Field} (member : field ∈ registry.fields kind)
    (otherMember : other ∈ registry.fields kind) (sameName : field.name = other.name) :
    field = other :=
  List.inj_on_of_nodup_map (registry.nodup_names kind) member otherMember sameName

/-- A field is found by its name exactly where it is listed. -/
theorem field?_eq_some_iff :
    registry.field? kind name = some field ↔ field ∈ registry.fields kind ∧ field.name = name := by
  rw [field?]
  constructor
  · intro found
    exact ⟨List.mem_of_find?_eq_some found, by simpa using List.find?_some found⟩
  · rintro ⟨member, rfl⟩
    cases found : (registry.fields kind).find? fun other => other.name = field.name with
    | none => simpa using List.find?_eq_none.1 found field member
    | some other =>
        have sameName : other.name = field.name := by simpa using List.find?_some found
        rw [eq_of_name_eq (List.mem_of_find?_eq_some found) member sameName]

/-- A field that is listed is found under its name. -/
theorem isSome_field? (member : field ∈ registry.fields kind) :
    (registry.field? kind field.name).isSome := by
  rw [field?_eq_some_iff.2 ⟨member, rfl⟩]
  rfl

/-- The engine asks for fields with an error for names that are not registered. -/
theorem field_eq_ok_iff :
    registry.field kind name = .ok field ↔ registry.field? kind name = some field := by
  rw [Registry.field]
  cases registry.field? kind name <;> simp

/-- The fields of a kind are the fields of its registrations. -/
theorem mem_fields_iff :
    field ∈ registry.fields kind ↔ (⟨kind, field⟩ : Registration) ∈ registry.registrations := by
  constructor
  · intro member
    obtain ⟨⟨_, _⟩, selected, rfl⟩ := List.mem_map.1 member
    obtain ⟨registered, same⟩ := List.mem_filter.1 selected
    simp only [decide_eq_true_eq] at same
    exact same ▸ registered
  · intro registered
    exact List.mem_map.2 ⟨_, List.mem_filter.2 ⟨registered, by simp⟩, rfl⟩

/-- A kind with a field is a kind of scopes. -/
theorem isScopeKind_of_mem_fields (registered : field ∈ registry.fields kind) :
    registry.isScopeKind kind = true := by
  obtain ⟨registration, member, -⟩ := List.mem_map.1 registered
  obtain ⟨listed, sameKind⟩ := List.mem_filter.1 member
  exact List.any_eq_true.2 ⟨registration, listed, sameKind⟩

/-- Only registrations of the registry are found to target a kind. -/
theorem mem_registrations_of_targeting {registration : Registration}
    (member : registration ∈ registry.targeting kind) :
    registration ∈ registry.registrations := by
  obtain ⟨other, listed, occurs⟩ := List.mem_flatMap.1 member
  split at occurs
  · cases occurs
  · obtain ⟨-, -, rfl⟩ := List.mem_map.1 occurs
    exact listed

end Registry

end HierarchicalQuota
