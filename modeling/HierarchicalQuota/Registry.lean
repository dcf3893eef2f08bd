/-
This file defines the registry, which tells the quota fields of every kind of scope.
-/

import HierarchicalQuota.Field
import Std.Data.ExtTreeSet

namespace HierarchicalQuota

/-- A registration gives a field to a kind of scope. -/
structure Registration where
  kind : String
  field : Field

/-- The key of a registration is the kind of scope together with the name of the field. -/
def Registration.key (registration : Registration) : String × String :=
  (registration.kind, registration.field.name)

/-- A registry lists its registrations in order, and their keys are distinct. -/
structure Registry where
  registrations : List Registration
  distinct : (registrations.map Registration.key).Nodup

namespace Registry

def empty : Registry := ⟨[], by simp⟩

instance : Inhabited Registry := ⟨empty⟩

/-- A field is refused if its kind of scope has a field of the same name. -/
def register (registry : Registry) (kind : String) (field : Field) : Except QuotaError Registry :=
  if taken : (kind, field.name) ∈ registry.registrations.map Registration.key then
    .error (.duplicateField kind field.name)
  else
    .ok
      { registrations := registry.registrations ++ [⟨kind, field⟩]
        distinct := by
          rw [List.map_append]
          refine List.nodup_append.2 ⟨registry.distinct, by simp, ?_⟩
          intro key member other other_mem equal
          simp only [List.map_cons, List.map_nil, List.mem_singleton] at other_mem
          rw [equal, other_mem] at member
          exact taken member }

/-- The fields of a kind are listed in the order of their registration. -/
def fields (registry : Registry) (kind : String) : List Field :=
  (registry.registrations.filter fun registration => registration.kind = kind).map (·.field)

def names (registry : Registry) (kind : String) : List String :=
  (registry.fields kind).map (·.name)

def field? (registry : Registry) (kind name : String) : Option Field :=
  (registry.fields kind).find? fun field => field.name = name

/-- Looking up a field that is not registered is an error. -/
def field (registry : Registry) (kind name : String) : Except QuotaError Field :=
  match registry.field? kind name with
  | some field => .ok field
  | none => .error (.unknownQuota kind name)

/-- A kind is a kind of scope if it has a field. -/
def isScopeKind (registry : Registry) (kind : String) : Bool :=
  registry.registrations.any fun registration => registration.kind = kind

/-- The kinds of scope are listed in order and without repetition. -/
def scopeKinds (registry : Registry) : List String :=
  (Std.ExtTreeSet.ofList (registry.registrations.map (·.kind)) compare).toList

/-- A registration is listed once for every occurrence of the kind among its targets. -/
def targeting (registry : Registry) (kind : String) : List Registration :=
  registry.registrations.flatMap fun registration =>
    match registration.field.targets? with
    | none => []
    | some (targets, _) => (targets.filter (· = kind)).map fun _ => registration

/-- An aggregator is over a quota of the children if it sums that quota's measure. -/
def aggregatorsOver (registry : Registry) (kind childQuota : String) (measure : Measure) :
    List Field :=
  (registry.fields kind).filter fun field =>
    field.childQuota? = some childQuota ∧ field.aggregator?.map (·.measure) = some measure

end Registry

end HierarchicalQuota
