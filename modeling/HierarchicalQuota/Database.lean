/-
This file defines how the databases that keep quota records in files are opened and closed.
-/

import HierarchicalQuota.Database.Address
import HierarchicalQuota.Database.Content
import HierarchicalQuota.Database.FullPath
import HierarchicalQuota.Database.Settings
import HierarchicalQuota.Store.Guarded

namespace HierarchicalQuota

/-- A database file has a kind of journal, and it is opened with or without a file for the memory
of its log. -/
structure DatabaseFile where
  path : String
  journal : Journal
  hasMemoryFile : Bool
deriving DecidableEq, Inhabited

/-- A database has a store and, if the store is written back, a file. -/
structure Database where
  store : GuardedStore RowStore
  file : Option DatabaseFile := none

namespace Database

variable {m : Type → Type} [Monad m] [FileAccess m]

/-- A file that is missing is made if the mode permits it, and the answer is its content. -/
def readFile (mode : AccessMode) (path : String) : OptionT m ByteArray := do
  match ← FileAccess.status path with
  | .file =>
      match ← FileAccess.read path with
      | some bytes => return bytes
      | none => failure
  | .missing =>
      if mode ≠ .create then failure
      else if ← FileAccess.write path .empty then return .empty
      else failure
  | .directory | .blocked => failure

/-- These names are added to the path of a database for its journal, its log and the memory that
belongs to the log. -/
def journalName (path : String) : String := path ++ "-journal"

def logName (path : String) : String := path ++ "-wal"

def memoryName (path : String) : String := path ++ "-shm"

/-- Something that is no file in the place of a journal keeps a database closed. -/
def hasRoomFor (path : String) : m Bool := do
  return [.file, .missing].contains (← FileAccess.status path)

/-- A file of its own is made for a part of the database unless it is there. -/
def ensureFile (path : String) (bytes : ByteArray) : m Unit := do
  if (← FileAccess.status path) = .missing then discard (FileAccess.write path bytes)

/-- A log keeps its memory in a file if others may look at it. -/
def hasMemoryFile (settings : Settings) : Bool :=
  settings.layer = .shared ∨ settings.mode = .readOnly

/-- A log that is written ahead starts empty, and its memory is no text. The answer tells whether
the log can be written. -/
def openLog (settings : Settings) (path : String) : m Bool := do
  ensureFile (logName path) .empty
  if hasMemoryFile settings then
    ensureFile (memoryName path) ⟨#[mark .ahead]⟩
    return (← FileAccess.status (memoryName path)) = .file
  else
    return true

/-- Only a log that is written ahead cannot be left without common memory. A kind of journal that is
not the wanted one is changed, and a table that is missing is made, which both need the right to
write. -/
def openJournal (settings : Settings) (path : String) (journal : Option Journal)
    (table : Option RowStore) : OptionT m Database := do
  let wanted : Journal := if settings.permitLog then .ahead else .rollback
  if journal = some .ahead ∧ wanted = .rollback then failure
  if journal ≠ some wanted then
    if settings.mode = .readOnly then failure
    if ¬ (← FileAccess.write path (content wanted table)) then failure
  let logged ← if wanted = .ahead then liftM (openLog (m := m) settings path) else pure true
  if settings.mode ≠ .readOnly ∧ logged then
    if table.isNone ∧ wanted = .ahead then
      discard (FileAccess.write (logName path) ⟨#[mark .ahead]⟩)
    return ⟨⟨table.getD .empty, true⟩, some ⟨path, wanted, hasMemoryFile settings⟩⟩
  else
    match table with
    | some store => return ⟨⟨store, false⟩, none⟩
    | none => failure

/-- An immutable file has to be a database already, and no journal is looked for. -/
def openFile (settings : Settings) (path : String) : OptionT m Database := do
  if let some other := settings.rightsOf then
    if [.missing, .blocked].contains (← FileAccess.status other) then failure
  let (journal, table) ← (ofContent? (← readFile settings.mode path)).getM
  if settings.immutable then
    match table with
    | some store => return ⟨⟨store, false⟩, none⟩
    | none => failure
  else if (← hasRoomFor (journalName path)) ∧ (← hasRoomFor (logName path)) then
    openJournal settings path journal table
  else failure

/-- Databases without a path or with this one are never kept in a file. -/
def memoryPath : String := ":memory:"

/-- A database in memory is empty, and it can only be opened for writing. -/
def openMemory (settings : Settings) : Option Database :=
  if settings.mode = .readOnly then none else some ⟨⟨.empty, true⟩, none⟩

/-- An address can be wrong, name a database in memory, or lead to a file. -/
def openAt (address : String) : OptionT m Database := do
  let address ← (Address.ofText? address).getM
  let settings ← (Settings.ofParameters? address.parameters).getM
  if address.path = "" ∨ address.path = memoryPath ∨ settings.mode = .memory then
    (openMemory settings).getM
  else if settings.layer = .memory then
    if settings.immutable then failure else (openMemory settings).getM
  else
    let path ← FullPath.ofPath? address.path
    openFile settings path.text

/-- The records are written back to the file, and a log that is written out is taken away. A
database that is only read leaves its log where it is. -/
def close (database : Database) (store : GuardedStore RowStore) : m Unit := do
  if let some file := database.file then
    discard (FileAccess.write file.path (content file.journal (some store.store)))
    if file.journal = .ahead then
      FileAccess.remove (logName file.path)
      if file.hasMemoryFile then FileAccess.remove (memoryName file.path)

end Database

end HierarchicalQuota
