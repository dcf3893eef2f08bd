/-
This file defines the full path of a database file.
-/

import HierarchicalQuota.Files

namespace HierarchicalQuota.Database

/-- A full path is the list of names from the root. -/
abbrev FullPath := List String

namespace FullPath

/-- A full path has at most this many bytes. -/
def maxLength : Nat := 504

/-- While names are still to come, a full path has at most this many bytes. -/
def maxPartialLength : Nat := 511

def text (path : FullPath) : String := "/" ++ "/".intercalate path

variable {m : Type → Type} [Monad m] [FileAccess m]

/-- Two dots take back the last name, also if nothing stands there. -/
def extend? (path : FullPath) (name : String) : OptionT m FullPath := do
  if name = "" ∨ name = "." then
    return path
  else if name = ".." then
    return path.dropLast
  else
    let extended : FullPath := path ++ [name]
    if maxPartialLength < extended.text.utf8ByteSize then failure
    else if (← FileAccess.status extended.text) = .blocked then failure
    else return extended

/-- A path is made full by the working directory, and the root is no file. -/
def ofPath? (path : String) : OptionT m FullPath := do
  let start ←
    if isAbsolutePath path then pure []
    else do
      let directory ← FileAccess.workingDirectory
      (pathNames directory).foldlM extend? []
  let full ← (pathNames path).foldlM extend? start
  if full = [] ∨ maxLength < (text full).utf8ByteSize then failure else return full

end FullPath

end HierarchicalQuota.Database
