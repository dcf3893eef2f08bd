/-
This file defines what the command line asks of a file system.
-/

import HierarchicalQuota.Text.Split

namespace HierarchicalQuota

/-- A path leads to a file or a directory, to nothing, or to a place that cannot be looked at. -/
inductive PathStatus where
  | file
  | directory
  | missing
  | blocked
deriving DecidableEq, Inhabited

/-- A path is of no use if a name on it is missing, if it goes through something not a directory,
if a name or the path itself is too long, or if something stands where a new entry is wanted. -/
inductive PathError where
  | notFound
  | notDirectory
  | nameTooLong
  | alreadyExists
  | denied
deriving DecidableEq, Inhabited

/-- A monad gives access to files if it offers these operations on paths. -/
class FileAccess (m : Type → Type) where
  /-- Other paths start here if they do not start with a slash. -/
  workingDirectory : m String
  status (path : String) : m PathStatus
  /-- A directory is made in a directory that exists. -/
  makeDirectory (path : String) : m (Except PathError Unit)
  /-- Only files have a content. -/
  read (path : String) : m (Option ByteArray)
  /-- The answer tells whether the content was written. -/
  write (path : String) (content : ByteArray) : m Bool
  /-- A file that cannot be removed stays. -/
  remove (path : String) : m Unit

instance {m n : Type → Type} [MonadLift m n] [FileAccess m] : FileAccess n where
  workingDirectory := MonadLift.monadLift (FileAccess.workingDirectory (m := m))
  status path := MonadLift.monadLift (FileAccess.status (m := m) path)
  makeDirectory path := MonadLift.monadLift (FileAccess.makeDirectory (m := m) path)
  read path := MonadLift.monadLift (FileAccess.read (m := m) path)
  write path content := MonadLift.monadLift (FileAccess.write (m := m) path content)
  remove path := MonadLift.monadLift (FileAccess.remove (m := m) path)

/-- The names of a path stand between its slashes. -/
def pathNames (path : String) : List String := (Text.split '/' path.toList).map String.ofList

/-- A path that starts with a slash does not depend on the working directory. -/
def isAbsolutePath (path : String) : Bool := path.toList.head? = some '/'

/-- A path is taken relative to a directory, and the empty directory is the current one. -/
def joinPath (directory name : String) : String :=
  if directory = "" then name
  else if directory.toList.getLast? = some '/' then directory ++ name
  else directory ++ "/" ++ name

namespace FileAccess

variable {m : Type → Type} [Monad m] [FileAccess m]

def isFile (path : String) : m Bool := do return (← status path) = .file

def isDirectory (path : String) : m Bool := do return (← status path) = .directory

/-- A content that is no text reads like a missing one. -/
def readText (path : String) : m (Option String) := do
  return (← read path).bind String.fromUTF8?

end FileAccess

end HierarchicalQuota
