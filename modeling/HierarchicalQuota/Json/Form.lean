/-
This file defines the JSON forms of entities, nodes, measures, records and reports.
-/

import HierarchicalQuota.Engine.Recalculation
import HierarchicalQuota.Json.Parse
import HierarchicalQuota.Json.Print

namespace HierarchicalQuota

namespace Json

def text? : Json → Option String
  | .string text => text
  | _ => none

def integer? : Json → Option Int
  | .number numeral => numeral.toInt?
  | _ => none

def amount? (value : Json) : Option Amount := value.integer?.bind Amount.ofInt?

/-- A count is a natural number that fits into 64 bits. -/
def count? (value : Json) : Option Nat := do
  let integer ← value.integer?
  if 0 ≤ integer ∧ integer ≤ 18446744073709551615 then some integer.toNat else none

def amount (amount : Amount) : Json := integer amount.value

/-- The first member with the key gives its value. -/
def member? (members : List (Option String × Json)) (key : String) : Option Json :=
  (members.find? fun member => member.1 = some key).map (·.2)

/-- Members are unambiguous if their keys are texts and the listed keys occur at most once. -/
def areUnambiguous (keys : List String) (members : List (Option String × Json)) : Bool :=
  members.all (·.1.isSome) &&
    keys.all fun key => (members.filter fun member => member.1 = some key).length ≤ 1

/-- The fields of a structure are the members with the given keys, or the items of an array of
exactly that length. -/
def fields? (keys : List String) : Json → Option (List Json)
  | .array items => if items.length = keys.length then some items else none
  | .object members =>
      if areUnambiguous keys members then keys.mapM (member? members) else none
  | _ => none

/-- A table is read from the members of an object, and of members with one key the last counts. -/
def table? {ν : Type} (read : Json → Option ν) : Json → Option (Table String ν)
  | .object members =>
      members.foldlM
        (fun table member => do
          let key ← member.1
          let value ← read member.2
          return table.insert key value)
        ∅
  | _ => none

def table {ν : Type} (write : ν → Json) (table : Table String ν) : Json :=
  record (table.toList.map fun entry => (entry.1, write entry.2))

end Json

namespace Entity

def toJson (entity : Entity) : Json :=
  .record [("type", .text entity.kind), ("id", .text entity.id)]

def ofJson? (value : Json) : Option Entity :=
  match value.fields? ["type", "id"] with
  | some [kind, id] => do return ⟨← kind.text?, ← id.text?⟩
  | _ => none

end Entity

/-- An item of an inventory is an entity together with what is known about it. -/
@[ext] structure InventoryItem where
  entity : Entity
  node : Node := {}

namespace InventoryItem

def keys : List String := ["type", "id", "relations", "attributes"]

def toJson (item : InventoryItem) : Json :=
  .record
    [("type", .text item.entity.kind), ("id", .text item.entity.id),
      ("relations", .table Entity.toJson item.node.relations),
      ("attributes", .table .amount item.node.attributes)]

/-- A table that is left out is empty. -/
def table? {ν : Type} (read : Json → Option ν) (members : List (Option String × Json))
    (key : String) : Option (Table String ν) :=
  match Json.member? members key with
  | none => some ∅
  | some value => value.table? read

/-- An item is written as an object. Other members than its own are kept while it is read, so they
must be keepable within the levels that are left. -/
def ofJson? (levels : Nat) : Json → Option InventoryItem
  | .object members =>
      let others := members.filter fun member => ¬ member.1.any (keys.contains ·)
      if Json.areUnambiguous keys members ∧ others.all (·.2.isKeepable levels) then do
        let kind ← Json.member? members "type"
        let id ← Json.member? members "id"
        let relations ← table? Entity.ofJson? members "relations"
        let attributes ← table? Json.amount? members "attributes"
        return ⟨⟨← kind.text?, ← id.text?⟩, ⟨relations, attributes⟩⟩
      else
        none
  | _ => none

end InventoryItem

namespace Measure

def label : Measure → String
  | .usage => "usage"
  | .limit => "limit"

def ofLabel? (label : String) : Option Measure :=
  if label = "usage" then some .usage else if label = "limit" then some .limit else none

def toJson (measure : Measure) : Json := .text measure.label

/-- A measure is written as its label, or as an object that maps the label to nothing. -/
def ofJson? : Json → Option Measure
  | .string label => label.bind ofLabel?
  | .object [(label, .null)] => label.bind ofLabel?
  | _ => none

end Measure

namespace Record

def toJson (record : Record) : Json :=
  .record
    [("scope", record.scope.toJson), ("name", .text record.name),
      ("limit", .amount record.quota.limit), ("usage", .amount record.quota.usage)]

def ofJson? (value : Json) : Option Record :=
  match value.fields? ["scope", "name", "limit", "usage"] with
  | some [scope, name, limit, usage] => do
      return ⟨← Entity.ofJson? scope, ← name.text?, ⟨← limit.amount?, ← usage.amount?⟩⟩
  | _ => none

end Record

namespace Report

def toJson (report : Report) : Json :=
  .record
    [("scopes", .integer report.scopes), ("records_created", .integer report.created),
      ("records_updated", .integer report.updated)]

def ofJson? (value : Json) : Option Report :=
  match value.fields? ["scopes", "records_created", "records_updated"] with
  | some [scopes, created, updated] => do
      return ⟨← scopes.count?, ← created.count?, ← updated.count?⟩
  | _ => none

end Report

end HierarchicalQuota
