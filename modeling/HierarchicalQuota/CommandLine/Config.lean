/-
This file defines the configuration of the command line and the checks it has to pass.
-/

import HierarchicalQuota.CommandLine.Number
import HierarchicalQuota.Files.Directories

namespace HierarchicalQuota

/-- A configuration tells where things are and how often they are repaired. -/
structure Config where
  dataDirectory : String := "data/quota"
  snapshotPath : String := "data/inventory.json"
  interval : Nat := 300
  logLevel : String := "info"
deriving DecidableEq, Inhabited

/-- A configuration is refused for one of these reasons. -/
inductive ConfigError where
  | interval (cause : CountError)
  | notDirectory (path : String)
  | directoryNotCreated (path : String)
  | snapshotMissing (path : String)
  | intervalZero
deriving DecidableEq, Inhabited

namespace ConfigError

def message : ConfigError → String
  | .interval _ => "RECALCULATION_INTERVAL_SECS must be a positive integer"
  | .notDirectory path => s!"{path} exists but is not a directory"
  | .directoryNotCreated path => s!"unable to create data directory {path}"
  | .snapshotMissing path => s!"inventory snapshot {path} does not exist"
  | .intervalZero => "RECALCULATION_INTERVAL_SECS must be greater than zero"

/-- The full message also tells the cause where there is one. -/
def fullMessage (error : ConfigError) : String :=
  match error with
  | .interval cause => error.message ++ ": " ++ cause.message
  | _ => error.message

end ConfigError

namespace Config

/-- Variables of the environment replace the defaults, and other variables are ignored. -/
def ofEnvironment (environment : String → Option String) : Except ConfigError Config := do
  let defaults : Config := {}
  let interval ←
    match environment "RECALCULATION_INTERVAL_SECS" with
    | none => .ok defaults.interval
    | some word => (readCount word).mapError .interval
  return {
    dataDirectory := (environment "QUOTA_DATA_DIR").getD defaults.dataDirectory
    snapshotPath := (environment "QUOTA_SNAPSHOT_PATH").getD defaults.snapshotPath
    interval
    logLevel := (environment "LOG_LEVEL").getD defaults.logLevel }

variable {m : Type → Type} [Monad m] [FileAccess m]

/-- A data directory that is missing is created. -/
def ensureDataDirectory (path : String) : ExceptT ConfigError m Unit := do
  if ← FileAccess.isDirectory path then
    return ()
  else if ← FileAccess.isFile path then
    throw (.notDirectory path)
  else if ← FileAccess.createDirectories path then
    return ()
  else
    throw (.directoryNotCreated path)

/-- The data directory is checked first, then the snapshot, and the interval last. -/
def validate (config : Config) : ExceptT ConfigError m Unit := do
  ensureDataDirectory config.dataDirectory
  if ← FileAccess.isFile config.snapshotPath then
    if config.interval = 0 then throw .intervalZero
  else
    throw (.snapshotMissing config.snapshotPath)

end Config

end HierarchicalQuota
