/-
This file runs the command line on the files of the machine.
-/

import HierarchicalQuota.CommandLine.Program

namespace HierarchicalQuota

/-- This function tells whether an access to the machine succeeds. -/
def succeeds {α : Type} (action : IO α) : IO Bool := do
  match ← action.toBaseIO with
  | .ok _ => return true
  | .error _ => return false

/-- What can be opened is a file if its content can be read, and a directory if not. -/
instance : FileAccess IO where
  workingDirectory := do return (← IO.currentDir).toString
  status path := do
    match ← (IO.FS.Handle.mk path .read).toBaseIO with
    | .ok _ => return if ← succeeds (IO.FS.readBinFile path) then .file else .directory
    | .error (.noFileOrDirectory ..) => return .missing
    | .error _ => return .blocked
  makeDirectory path := do
    match ← (IO.FS.createDir path).toBaseIO with
    | .ok () => return .ok ()
    | .error (.noFileOrDirectory ..) => return .error .notFound
    | .error (.alreadyExists ..) => return .error .alreadyExists
    | .error _ => return .error .denied
  read path := do
    match ← (IO.FS.readBinFile path).toBaseIO with
    | .ok content => return some content
    | .error _ => return none
  write path content := succeeds (IO.FS.writeBinFile path content)
  remove path := discard (succeeds (IO.FS.removeFile path))

/-- The variables of the environment that configure the program. -/
def variableNames : List String :=
  ["QUOTA_DATA_DIR", "QUOTA_SNAPSHOT_PATH", "RECALCULATION_INTERVAL_SECS", "LOG_LEVEL"]

def readVariables : IO (List (String × String)) :=
  variableNames.filterMapM fun name => do return (← IO.getEnv name).map fun value => (name, value)

/-- A sleep lasts at most this many milliseconds. -/
def longestSleep : UInt32 := 4294967295

/-- A repair that fails is reported, and the next one runs after the interval all the same. -/
partial def repairForever (config : Config) : IO Unit := do
  match ← (Program.repair (m := IO) config).run with
  | .ok _ => pure ()
  | .error message => IO.eprintln message
  IO.sleep (longestSleep.toNat.min (config.interval * 1000)).toUInt32
  repairForever config

def synopsis : String :=
  "quota-tracker [-s FILE] [-d DIR] recalculate | watch [-i SECS] | show TYPE ID"

end HierarchicalQuota

open HierarchicalQuota in
/-- The exit code tells whether the command succeeded. -/
def main (words : List String) : IO UInt32 := do
  let environment ← readVariables
  let outcome ← Program.run words fun name => environment.lookup name
  match outcome with
  | .output text => IO.print text
  | .failure message => IO.eprintln ("Error: " ++ message)
  | .usage => IO.eprintln synopsis
  | .help => IO.println synopsis
  | .repeating config => repairForever config
  return outcome.code.toUInt32
