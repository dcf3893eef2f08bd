/-
This file defines the usual functions of a scope for defaults, weights, usages and conditions.
-/

import HierarchicalQuota.Field

namespace HierarchicalQuota.ScopeFunction

/-- A count is the amount nearest to a number of things. -/
def count (number : Nat) : Amount := .clamp number

/-- This function counts the entities of a kind that reference the scope. -/
def countReferencing (kind : String) (path : RelationPath) : ScopeFunction Amount :=
  fun scope graph => count (graph.referencing kind path scope).length

/-- This function reads an attribute of the entity itself. -/
def ownAttribute (name : String) (fallback : Amount) : ScopeFunction Amount :=
  fun entity graph => (graph.attributeOf entity name).getD fallback

/-- This function reads an attribute of a related entity. -/
def relatedAttribute (relation name : String) (fallback : Amount) : ScopeFunction Amount :=
  fun entity graph =>
    ((graph.related entity relation).bind fun target => graph.attributeOf target name).getD fallback

/-- This usage is the same for every target kind. -/
def perTargetKind (amount : Amount) (kinds : List String) : ScopeFunction Amount :=
  fun _ _ => count kinds.length * amount

/-- This usage counts all instances of the target kinds. -/
def instanceCount (kinds : List String) : ScopeFunction Amount :=
  fun _ graph => count (kinds.flatMap graph.instances).length

/-- This condition compares the start of the scope's id. -/
def idStartsWith (start : String) : ScopeFunction Bool :=
  fun scope _ => start.toList.isPrefixOf scope.id.toList

/-- This condition asks whether a relation of the scope is set. -/
def hasRelation (relation : String) : ScopeFunction Bool :=
  fun scope graph => (graph.related scope relation).isSome

/-- This condition compares an attribute of the scope with a value. -/
def attributeEquals (name : String) (value : Amount) : ScopeFunction Bool :=
  fun scope graph => graph.attributeOf scope name = some value

end HierarchicalQuota.ScopeFunction
