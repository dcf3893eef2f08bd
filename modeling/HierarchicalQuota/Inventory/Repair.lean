/-
This file defines the repair of a store from the text of an inventory snapshot.
-/

import HierarchicalQuota.Inventory.Layout
import HierarchicalQuota.Inventory.Snapshot

namespace HierarchicalQuota

/-- A repair fails because of its snapshot, or because the recalculation fails. -/
inductive RepairError where
  | unreadable (path : String)
  | invalid (path : String)
  | recalculation (cause : QuotaError)
deriving DecidableEq, Inhabited

def RepairError.message : RepairError → String
  | .unreadable path => s!"unable to read inventory snapshot {path}"
  | .invalid path => s!"invalid inventory snapshot {path}"
  | .recalculation _ => "quota recalculation failed"

namespace Repair

/-- The graph of a snapshot starts from the parent relations of the layout. -/
def graph (snapshot : Snapshot) : Graph := snapshot.insertInto Layout.emptyGraph

/-- The engine of a repair applies a registry to the snapshot at a path. -/
def engine (registry : Registry) (path : String) (text : Option String) :
    Except RepairError Engine :=
  match text with
  | none => .error (.unreadable path)
  | some text =>
      match Snapshot.parse text with
      | none => .error (.invalid path)
      | some snapshot => .ok ⟨registry, graph snapshot⟩

variable {σ : Type} [QuotaStore σ]

/-- A repair recalculates all quotas of the snapshot, and the store keeps what was repaired. -/
def run (registry : Registry) (path : String) (text : Option String) :
    EStateM RepairError σ Report := fun store =>
  match engine registry path text with
  | .error error => .error error store
  | .ok engine => EStateM.adaptExcept .recalculation engine.recalculateAll store

end Repair

end HierarchicalQuota
