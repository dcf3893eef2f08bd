/-
This file defines what the file of a database holds.
-/

import HierarchicalQuota.Json.Form
import HierarchicalQuota.Store.Rows

namespace HierarchicalQuota

/-- Changes are made safe by a journal that rolls them back or by a log that is written ahead. -/
inductive Journal where
  | rollback
  | ahead
deriving DecidableEq, Inhabited

namespace Database

/-- No text holds these bytes, so a content that starts with one is never read as a snapshot. -/
def mark : Journal → UInt8
  | .rollback => 0xfe
  | .ahead => 0xff

/-- After its mark a database holds the list of all records once it has a table for them. -/
def content (journal : Journal) (store : Option RowStore) : ByteArray :=
  ⟨#[mark journal]⟩ ++ match store with
    | some store => (Json.array (store.records.map Record.toJson)).print.toUTF8
    | none => .empty

/-- After the mark there is nothing or a list of records. -/
def table? (bytes : ByteArray) : Option (Option RowStore) :=
  if bytes.size ≤ 1 then some none
  else do
    let text ← String.fromUTF8? (bytes.extract 1 bytes.size)
    match ← Json.parse text with
    | .array items => return some (.ofRecords (← items.mapM Record.ofJson?))
    | _ => none

/-- An empty content is a database without a table that has no kind of journal yet. -/
def ofContent? (bytes : ByteArray) : Option (Option Journal × Option RowStore) :=
  match bytes.data[0]? with
  | none => some (none, none)
  | some first =>
      if first = mark .ahead then (table? bytes).map (some .ahead, ·)
      else if first = mark .rollback then (table? bytes).map (some .rollback, ·)
      else none

end Database

end HierarchicalQuota
