/-
This file defines inventory snapshots, from which the graph of a repair is built.
-/

import HierarchicalQuota.Json.Form

namespace HierarchicalQuota

/-- A snapshot lists the entities of an inventory. -/
@[ext] structure Snapshot where
  items : List InventoryItem := []

namespace Snapshot

/-- Values may be nested this deep, the snapshot itself included. -/
def maxNesting : Nat := 127

def toJson (snapshot : Snapshot) : Json :=
  .record [("entities", .array (snapshot.items.map InventoryItem.toJson))]

/-- The list of entities lies within the snapshot, and each of its items within the list. -/
def itemsOfJson? : Json → Option Snapshot
  | .array items => do return ⟨← items.mapM (InventoryItem.ofJson? (maxNesting - 3))⟩
  | _ => none

/-- A snapshot without a list of entities is empty. -/
def ofJson? : Json → Option Snapshot
  | .array [] => some {}
  | .array [items] => itemsOfJson? items
  | .object members =>
      if Json.areUnambiguous ["entities"] members then
        match Json.member? members "entities" with
        | none => some {}
        | some items => itemsOfJson? items
      else
        none
  | _ => none

/-- This function reads the text of a snapshot. -/
def parse (text : String) : Option Snapshot := (Json.parse text).bind ofJson?

/-- The items are inserted in order, so the last one listed for an entity counts. -/
def insertInto (snapshot : Snapshot) (graph : Graph) : Graph :=
  snapshot.items.foldl (fun graph item => graph.insert item.entity item.node) graph

end Snapshot

end HierarchicalQuota
