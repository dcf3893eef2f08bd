/-
This file defines the graph of entities, its edits and the walks along its relations.
-/

import HierarchicalQuota.RelationPath

namespace HierarchicalQuota

/-- A node holds what is known about one entity. -/
@[ext] structure Node where
  relations : Table String Entity := ∅
  attributes : Table String Amount := ∅

/-- A graph holds the existing entities and, for each kind, the relations that lead to quota
parents. -/
@[ext] structure Graph where
  nodes : Table Entity Node := ∅
  parentRelations : Table String (List String) := ∅

namespace Graph

def empty : Graph := {}

/-- The parents of a scope are listed in the order of its kind's relations. -/
def withParentRelations (graph : Graph) (kind : String) (relations : List String) : Graph :=
  { graph with parentRelations := graph.parentRelations.insert kind relations }

/-- An inserted node replaces the earlier node of the same entity. -/
def insert (graph : Graph) (entity : Entity) (node : Node) : Graph :=
  { graph with nodes := graph.nodes.insert entity node }

def remove (graph : Graph) (entity : Entity) : Graph :=
  { graph with nodes := graph.nodes.erase entity }

/-- An attribute of an entity that does not exist cannot be set. -/
def setAttribute (graph : Graph) (entity : Entity) (name : String) (value : Amount) : Graph :=
  { graph with
    nodes := graph.nodes.modify entity fun node =>
      { node with attributes := node.attributes.insert name value } }

def node? (graph : Graph) (entity : Entity) : Option Node := graph.nodes[entity]?

def contains (graph : Graph) (entity : Entity) : Bool := graph.nodes.contains entity

def size (graph : Graph) : Nat := graph.nodes.size

def isEmpty (graph : Graph) : Bool := graph.nodes.isEmpty

/-- The instances of a kind are listed in the order of their ids. -/
def instances (graph : Graph) (kind : String) : List Entity :=
  graph.nodes.keys.filter fun entity => entity.kind = kind

def related (graph : Graph) (entity : Entity) (relation : String) : Option Entity :=
  (graph.node? entity).bind fun node => node.relations[relation]?

def attributeOf (graph : Graph) (entity : Entity) (name : String) : Option Amount :=
  (graph.node? entity).bind fun node => node.attributes[name]?

/-- A relation that is unset contributes no parent. -/
def quotaParents (graph : Graph) (scope : Entity) : List Entity :=
  (graph.parentRelations.getD scope.kind []).filterMap (graph.related scope)

/-- A path resolves to an entity if every hop from the start is set. -/
def resolve (graph : Graph) (entity : Entity) (path : RelationPath) : Option Entity :=
  path.hops.foldlM graph.related entity

/-- An entity references a scope if the path from it resolves to the scope. -/
def referencing (graph : Graph) (kind : String) (path : RelationPath) (scope : Entity) :
    List Entity :=
  (graph.instances kind).filter fun entity => graph.resolve entity path = some scope

end Graph

end HierarchicalQuota
