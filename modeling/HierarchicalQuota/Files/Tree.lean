/-
This file defines a tree of directories and files, and how paths are followed in it.
-/

import HierarchicalQuota.Entity
import HierarchicalQuota.Files.Directories

namespace HierarchicalQuota

/-- A directory knows the numbers of the directory above it and of the entries in it. -/
inductive FileEntry where
  | directory (above : Nat) (children : Table String Nat)
  | file (content : ByteArray)
deriving Inhabited

/-- A file tree numbers its entries, and its root is the first of them. -/
structure FileTree where
  entries : Array FileEntry := #[.directory 0 ∅]
  workingDirectory : String := "/"
deriving Inhabited

namespace FileTree

/-- The longest name has this many bytes. -/
def maxNameLength : Nat := 255

/-- The longest path has this many bytes. -/
def maxPathLength : Nat := 4095

def root : Nat := 0

def isDirectoryAt (tree : FileTree) (number : Nat) : Bool :=
  match tree.entries[number]? with
  | some (.directory ..) => true
  | _ => false

/-- A name is looked up in a directory. -/
def child (tree : FileTree) (directory : Nat) (name : String) : Except PathError Nat :=
  match tree.entries[directory]? with
  | some (.directory above children) =>
      if name = "" ∨ name = "." then .ok directory
      else if name = ".." then .ok above
      else if maxNameLength < name.utf8ByteSize then .error .nameTooLong
      else match children[name]? with
        | some number => .ok number
        | none => .error .notFound
  | _ => .error .notDirectory

/-- An empty name and a single dot stay in a directory, and two dots leave it. -/
def follow (tree : FileTree) (names : List String) (start : Nat) : Except PathError Nat :=
  names.foldlM tree.child start

/-- The names of a path are those from the root, and the empty path leads nowhere. -/
def names (tree : FileTree) (path : String) : Except PathError (List String) :=
  if path = "" then .error .notFound
  else if maxPathLength < path.utf8ByteSize then .error .nameTooLong
  else if isAbsolutePath path then .ok (pathNames path)
  else .ok (pathNames (joinPath tree.workingDirectory path))

def resolve (tree : FileTree) (path : String) : Except PathError Nat := do
  tree.follow (← tree.names path) root

def status (tree : FileTree) (path : String) : PathStatus :=
  match tree.resolve path with
  | .ok number => if tree.isDirectoryAt number then .directory else .file
  | .error .notFound => .missing
  | .error _ => .blocked

def content? (tree : FileTree) (path : String) : Option ByteArray :=
  match tree.resolve path with
  | .ok number =>
      match tree.entries[number]? with
      | some (.file content) => some content
      | _ => none
  | .error _ => none

/-- The end of a path is its last name, without the slashes after it, and the names before. -/
def parentAndName (names : List String) : List String × Option String :=
  let kept := (names.reverse.dropWhile (· = "")).reverse
  (kept.dropLast, kept.getLast?)

/-- A new entry has a name of its own in an existing directory. -/
def place (tree : FileTree) (names : List String) : Except PathError (Nat × String) := do
  match parentAndName names with
  | (_, none) => throw .alreadyExists
  | (parents, some name) =>
      let directory ← tree.follow parents root
      if ¬ tree.isDirectoryAt directory then throw .notDirectory
      if name = "." ∨ name = ".." then throw .alreadyExists
      if maxNameLength < name.utf8ByteSize then throw .nameTooLong
      return (directory, name)

/-- A new entry gets the next number and is put into its directory. -/
def add (tree : FileTree) (directory : Nat) (name : String) (entry : FileEntry) : FileTree :=
  { tree with
    entries :=
      (tree.entries.modify directory fun
        | .directory above children => .directory above (children.insert name tree.entries.size)
        | file => file).push entry }

/-- A directory is made where nothing stands. -/
def makeDirectory (tree : FileTree) (path : String) : Except PathError FileTree := do
  let (directory, name) ← tree.place (← tree.names path)
  match tree.child directory name with
  | .ok _ => throw .alreadyExists
  | .error _ => return tree.add directory name (.directory directory ∅)

/-- A content replaces that of a file, or makes a file in an existing directory. -/
def write (tree : FileTree) (path : String) (content : ByteArray) : Except PathError FileTree := do
  let (directory, name) ← tree.place (← tree.names path)
  match tree.child directory name with
  | .ok number =>
      if tree.isDirectoryAt number then throw .alreadyExists
      return { tree with entries := tree.entries.setIfInBounds number (.file content) }
  | .error _ => return tree.add directory name (.file content)

/-- A name is taken out of its directory. -/
def remove (tree : FileTree) (path : String) : Except PathError FileTree := do
  let (directory, name) ← tree.place (← tree.names path)
  return { tree with
    entries := tree.entries.modify directory fun
      | .directory above children => .directory above (children.erase name)
      | file => file }

/-- What cannot be done to a tree leaves it as it was. -/
def attempt (tree : FileTree) (result : Except PathError FileTree) : FileTree :=
  result.toOption.getD tree

instance : FileAccess (StateM FileTree) where
  workingDirectory := do return (← get).workingDirectory
  status path := do return (← get).status path
  makeDirectory path := do
    match (← get).makeDirectory path with
    | .ok tree => set tree; return .ok ()
    | .error error => return .error error
  read path := do return (← get).content? path
  write path content := do
    match (← get).write path content with
    | .ok tree => set tree; return true
    | .error _ => return false
  remove path := modify fun tree => tree.attempt (tree.remove path)

/-- A file is empty at first, and all directories above it are created. -/
def createFile (path : String) : StateM FileTree Unit := do
  if let some parent := (ancestors path).head? then
    discard (FileAccess.createDirectories parent)
  discard (FileAccess.write path .empty)

/-- A file tree with the given directories and empty files holds all directories above them. -/
def ofPaths (workingDirectory : String) (directories files : List String) : FileTree :=
  let create : StateM FileTree Unit := do
    discard (FileAccess.createDirectories workingDirectory)
    directories.forM fun path => discard (FileAccess.createDirectories path)
    files.forM createFile
  (create.run { workingDirectory }).2

end FileTree

end HierarchicalQuota
