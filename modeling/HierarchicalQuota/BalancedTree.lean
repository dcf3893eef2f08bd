/-
This file defines balanced trees of scopes, in which every level sums the usages below it.
-/

import HierarchicalQuota.Engine.Lifecycle
import HierarchicalQuota.Engine.Recalculation

namespace HierarchicalQuota

/-- A tree is fixed by the number of its levels, the children of a scope and the limit of a leaf. -/
structure TreeShape where
  depth : Nat
  fanout : Nat
  leafLimit : Amount := .unlimited
deriving DecidableEq, Inhabited

/-- A tree cannot be built without a level, nor where a quota operation fails. -/
inductive TreeError where
  | noLevels
  | quota (cause : QuotaError)
deriving DecidableEq, Inhabited

def TreeError.message : TreeError → String
  | .noLevels => "hierarchy needs at least one level"
  | .quota cause => cause.message

/-- A balanced tree holds its engine, the scopes of its lowest level, and the number of items
made. -/
structure BalancedTree where
  engine : Engine
  leaves : List Entity
  nextItem : Nat := 0

namespace TreeShape

/-- The kind of entity that leaves count. -/
def itemKind : String := "item"

def levelKind (level : Nat) : String := s!"level{level}"

def root : Entity := ⟨levelKind 0, "0"⟩

/-- This path leads from a scope to its parent. -/
def toParent : RelationPath := ⟨["parent"], by simp, by decide⟩

/-- This path leads from an item to the leaf that owns it. -/
def toOwner : RelationPath := ⟨["owner"], by simp, by decide⟩

/-- The inner levels sum the usage of the level below. -/
def innerField (level : Nat) : Field :=
  { name := "usage"
    rule := .aggregator
      { childKind := levelKind (level + 1), path := toParent, measure := .usage } }

def leafFields (shape : TreeShape) : List Field :=
  [{ name := "usage", defaultLimit := .constant shape.leafLimit },
    { name := "item_count", rule := .counter { targets := [itemKind], path := toOwner } }]

/-- The levels are registered from the root down, and the leaves last. -/
def registerLevels (shape : TreeShape) : Except QuotaError Registry := do
  let inner ← (List.range (shape.depth - 1)).foldlM
    (fun registry level => registry.register (levelKind level) (innerField level)) Registry.empty
  shape.leafFields.foldlM
    (fun registry field => registry.register (levelKind (shape.depth - 1)) field) inner

/-- There is no registry for a tree without levels. -/
def registry (shape : TreeShape) : Except TreeError Registry :=
  if shape.depth = 0 then .error .noLevels else shape.registerLevels.mapError .quota

/-- The parent relation leads up from every level but the first. -/
def emptyGraph (shape : TreeShape) : Graph :=
  (List.range (shape.depth - 1)).foldl
    (fun graph level => graph.withParentRelations (levelKind (level + 1)) ["parent"]) Graph.empty

/-- The children of a scope extend its id by their numbers. -/
def children (shape : TreeShape) (level : Nat) (parent : Entity) : List Entity :=
  (List.range shape.fanout).map fun index => ⟨levelKind level, s!"{parent.id}.{index}"⟩

variable {σ : Type} [QuotaStore σ]

/-- A scope is inserted below its parent and then announced. -/
def addScope (engine : Engine) (scope : Entity) (relations : Table String Entity) :
    Action σ Engine := do
  let engine := { engine with graph := engine.graph.insert scope { relations } }
  engine.entityCreated scope
  return engine

def addChildren (parent : Entity) : List Entity → Engine → Action σ Engine
  | [], engine => return engine
  | child :: children, engine => do
      let engine ← addScope engine child ((∅ : Table String Entity).insert "parent" parent)
      addChildren parent children engine

/-- The children of all given parents are added, one parent after the other. -/
def addLevel (shape : TreeShape) (level : Nat) : List Entity → Engine → Action σ Engine
  | [], engine => return engine
  | parent :: parents, engine => do
      let engine ← addChildren parent (shape.children level parent) engine
      shape.addLevel level parents engine

/-- The remaining levels are added below the scopes of the level that was added last. -/
def addLevels (shape : TreeShape) : Nat → Nat → List Entity → Engine → Action σ BalancedTree
  | 0, _, scopes, engine => return { engine, leaves := scopes }
  | remaining + 1, level, scopes, engine => do
      let engine ← shape.addLevel level scopes engine
      shape.addLevels remaining (level + 1) (scopes.flatMap (shape.children level)) engine

/-- A tree grows from its root, level by level. -/
def grow (shape : TreeShape) (registry : Registry) : Action σ BalancedTree := do
  let engine ← addScope ⟨registry, shape.emptyGraph⟩ root ∅
  shape.addLevels (shape.depth - 1) 1 [root] engine

/-- A tree is built from its registry, and nothing is stored for a tree without levels. -/
def build (shape : TreeShape) : EStateM TreeError σ BalancedTree := fun store =>
  match shape.registry with
  | .error error => .error error store
  | .ok registry => EStateM.adaptExcept .quota (shape.grow registry) store

end TreeShape

namespace BalancedTree

variable {σ : Type} [QuotaStore σ]

/-- The next item is named by the number of items before it. -/
def newItem (tree : BalancedTree) : Entity := ⟨TreeShape.itemKind, toString tree.nextItem⟩

/-- An item that a leaf's quota rejects is not kept, but its name is used up. -/
def addItem (tree : BalancedTree) (leaf : Entity) :
    Action σ (BalancedTree × Except QuotaError Entity) := do
  let item := tree.newItem
  let relations := (∅ : Table String Entity).insert "owner" leaf
  let engine := { tree.engine with graph := tree.engine.graph.insert item { relations } }
  let next := { tree with nextItem := tree.nextItem + 1 }
  match ← Action.attempt (engine.entityCreated item) with
  | .ok () => return ({ next with engine }, .ok item)
  | .error error =>
      return ({ next with engine := { engine with graph := engine.graph.remove item } },
        .error error)

/-- An item is announced as deleted before it is removed. -/
def removeItem (tree : BalancedTree) (item : Entity) : Action σ BalancedTree := do
  tree.engine.entityDeleted item
  return { tree with engine := { tree.engine with graph := tree.engine.graph.remove item } }

end BalancedTree

end HierarchicalQuota
