/-
This file defines what the command line does: the commands, their output and their errors.
-/

import HierarchicalQuota.CommandLine.Arguments
import HierarchicalQuota.CommandLine.Config
import HierarchicalQuota.Database
import HierarchicalQuota.Engine.Read
import HierarchicalQuota.Inventory.Repair

namespace HierarchicalQuota

/-- A program ends with an output or an error, or it goes on repairing at an interval. -/
inductive Outcome where
  | usage
  | help
  | output (text : String)
  | failure (message : String)
  | repeating (config : Config)
deriving Inhabited

/-- A usage error has a code of its own. -/
def Outcome.code : Outcome → UInt8
  | .usage => 2
  | .failure _ => 1
  | .help | .output _ | .repeating _ => 0

namespace Program

/-- The database is a file of this name in the data directory. -/
def databaseName : String := "quotas.db"

variable {m : Type → Type} [Monad m] [FileAccess m]

def openDatabase (config : Config) : ExceptT String m Database := do
  match ← (Database.openAt (m := m) (joinPath config.dataDirectory databaseName)).run with
  | some database => return database
  | none => throw "unable to open quota database"

/-- An action fails with the message of its error. -/
abbrev Transaction := EStateM String (GuardedStore RowStore)

/-- While the database is open the snapshot is read, and the database is closed with what an action
leaves in its store, also if the action fails. -/
def transact {α : Type} (config : Config) (action : Option String → Transaction α) :
    ExceptT String m α := do
  let database ← openDatabase config
  let text ← FileAccess.readText config.snapshotPath
  match action text database.store with
  | .ok value store =>
      database.close store
      return value
  | .error message store =>
      database.close store
      throw message

/-- One repair runs over the snapshot as it is now. -/
def repair (config : Config) : ExceptT String m Report :=
  transact config fun text =>
    EStateM.adaptExcept RepairError.message (Repair.run Layout.registry config.snapshotPath text)

/-- The quotas of a scope are shown with their stored or default values. -/
def display (config : Config) (scope : Entity) : ExceptT String m (List Record) :=
  transact config fun text =>
    match Repair.engine Layout.registry config.snapshotPath text with
    | .error error => throw error.message
    | .ok engine =>
        if engine.registry.isScopeKind scope.kind then
          EStateM.adaptExcept QuotaError.message (engine.quotas scope)
        else
          throw s!"{scope.kind} has no registered quotas"

/-- A line of output ends with a new line. -/
def line (value : Json) : Outcome := .output (value.pretty ++ "\n")

/-- The arguments go before the environment, and the environment before the defaults. -/
def configure (arguments : Arguments) (environment : String → Option String) :
    Except ConfigError Config := do
  let config ← Config.ofEnvironment environment
  return { config with
    snapshotPath := arguments.snapshot.getD config.snapshotPath
    dataDirectory := arguments.dataDirectory.getD config.dataDirectory
    interval := match arguments.command with
      | .watch interval => interval.getD config.interval
      | _ => config.interval }

/-- A command starts after its configuration has passed all checks. -/
def execute (arguments : Arguments) (environment : String → Option String) :
    ExceptT String m Outcome := do
  match configure arguments environment with
  | .error error => throw error.message
  | .ok config =>
      match ← liftM (config.validate (m := m)).run with
      | .error error => throw error.message
      | .ok () =>
          match arguments.command with
          | .recalculate => return line (← repair config).toJson
          | .display kind id =>
              let records ← display config ⟨kind, id⟩
              return line (.array (records.map Record.toJson))
          | .watch _ =>
              discard (openDatabase config)
              return .repeating config
          | .help => return .help

/-- The words of the command line are read before anything else happens. -/
def run (words : List String) (environment : String → Option String) : m Outcome := do
  match Arguments.ofWords words with
  | none => return .usage
  | some { command := .help, .. } => return .help
  | some arguments =>
      match ← (execute arguments environment).run with
      | .ok outcome => return outcome
      | .error message => return .failure message

end Program

end HierarchicalQuota
