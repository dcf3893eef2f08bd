/-
This file defines how a directory is created together with the missing ones above it.
-/

import HierarchicalQuota.Files

namespace HierarchicalQuota

/-- The parts of a path are its names without those that stay in a directory. -/
def pathParts (path : String) : List String :=
  (pathNames path).filter fun name => name ≠ "" ∧ name ≠ "."

/-- The parts are given from the end of a path, and so are the shorter paths above it. -/
def partsAbove : List String → List (List String)
  | [] => []
  | [_] => []
  | _ :: parent :: others => (parent :: others).reverse :: partsAbove (parent :: others)

/-- The directories above a path start with the nearest one and end below the root or the working
directory. -/
def ancestors (path : String) : List String :=
  let start := if isAbsolutePath path then "/" else ""
  (partsAbove (pathParts path).reverse).map fun parts => start ++ "/".intercalate parts

namespace FileAccess

variable {m : Type → Type} [Monad m] [FileAccess m]

/-- A directory that exists already is as good as one that was made. -/
def ensureDirectory (path : String) : m (Except PathError Unit) := do
  match ← makeDirectory path with
  | .error .alreadyExists =>
      if ← isDirectory path then return .ok () else return .error .alreadyExists
  | result => return result

/-- Directories are made one after the other until one cannot be made. -/
def ensureAll : List String → m Bool
  | [] => return true
  | path :: paths => do
      match ← ensureDirectory path with
      | .ok () => ensureAll paths
      | .error _ => return false

/-- The search goes up to the nearest directory that can be made, and then down through the missing
ones. What was made on the way stays also if the end fails. -/
def ensureFrom (missing : List String) : List String → m Bool
  | [] => ensureAll missing
  | path :: above => do
      match ← ensureDirectory path with
      | .ok () => ensureAll missing
      | .error .notFound => ensureFrom (path :: missing) above
      | .error _ => return false

/-- The answer tells whether the directory is there afterwards, and nothing is made for the empty
path. -/
def createDirectories (path : String) : m Bool :=
  if path = "" then return true else ensureFrom [] (path :: ancestors path)

end FileAccess

end HierarchicalQuota
