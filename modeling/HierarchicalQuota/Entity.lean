/-
This file defines references to entities, their order and their display.
-/

import Std.Data.ExtTreeMap

namespace HierarchicalQuota

/-- An entity is named by its kind and by its id within that kind. -/
@[ext] structure Entity where
  kind : String
  id : String
deriving DecidableEq, Inhabited

namespace Entity

/-- The display of an entity joins its kind and its id with a colon. -/
def label (entity : Entity) : String := entity.kind ++ ":" ++ entity.id

instance : ToString Entity := ⟨label⟩

/-- Entities are ordered by kind and then by id, both by code points. -/
instance : Ord Entity := ⟨compareLex (compareOn kind) (compareOn id)⟩

theorem compare_def (left right : Entity) :
    compare left right = (compare left.kind right.kind).then (compare left.id right.id) := rfl

instance : Std.TransOrd Entity :=
  inferInstanceAs (Std.TransCmp (compareLex (compareOn kind) (compareOn id)))

instance : Std.LawfulEqOrd Entity where
  eq_of_compare {left right} equal := by
    rw [compare_def, Ordering.then_eq_eq] at equal
    exact Entity.ext (Std.LawfulEqOrd.eq_of_compare equal.1)
      (Std.LawfulEqOrd.eq_of_compare equal.2)

end Entity

/-- A table maps keys to values, lists them in the order of the keys and is determined by its
lookups. -/
abbrev Table (κ : Type) (ν : Type) [Ord κ] [Std.TransOrd κ] := Std.ExtTreeMap κ ν compare

end HierarchicalQuota
