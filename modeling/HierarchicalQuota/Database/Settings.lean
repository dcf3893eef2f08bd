/-
This file defines the settings a database is opened with, and their reading from parameters.
-/

import HierarchicalQuota.Text.Hexadecimal

namespace HierarchicalQuota.Database

/-- A database is only read, is also written, is created if it is missing, or stays in memory. -/
inductive AccessMode where
  | readOnly
  | readWrite
  | create
  | memory
deriving DecidableEq, Inhabited

namespace AccessMode

def ofName? : String → Option AccessMode
  | "ro" => some .readOnly
  | "rw" => some .readWrite
  | "rwc" => some .create
  | "memory" => some .memory
  | _ => none

/-- A mode with a higher rank permits more. -/
def rank : AccessMode → Nat
  | .readOnly => 0
  | .readWrite => 1
  | .create => 2
  | .memory => 3

/-- A mode replaces another one that permits as much, and memory replaces every mode. -/
def replace? (mode : AccessMode) (name : String) : Option AccessMode := do
  let next ← ofName? name
  if next = .memory ∨ next.rank ≤ mode.rank then return next else none

end AccessMode

/-- Files are shared with the help of common memory, are not shared, are shared without common
memory, or stay in memory. -/
inductive FileLayer where
  | shared
  | exclusive
  | plain
  | memory
deriving DecidableEq, Inhabited

def FileLayer.ofName? : String → Option FileLayer
  | "unix" => some .shared
  | "unix-excl" => some .exclusive
  | "unix-none" | "unix-dotfile" => some .plain
  | "memdb" => some .memory
  | _ => none

/-- An immutable database is known not to change, and one without locks is never shared. -/
structure Settings where
  mode : AccessMode := .create
  layer : FileLayer := .shared
  withoutLocks : Bool := false
  immutable : Bool := false
  /-- A new file gets the rights of this one. -/
  rightsOf : Option String := none
deriving DecidableEq, Inhabited

namespace Settings

/-- A log can be written ahead by all who see the same memory. -/
def permitLog (settings : Settings) : Bool :=
  (settings.layer = .shared ∨ settings.layer = .exclusive) ∧ ¬ settings.withoutLocks

/-- The digits are those of the given base. -/
def number (base : Nat) (digits : List Char) : Nat :=
  (digits.filterMap Text.hexDigit?).foldl (fun value digit => base * value + digit) 0

/-- A text may start with a number in base ten, or in base sixteen after a zero and an x. -/
def leadingNumber : List Char → Nat
  | '0' :: 'x' :: digit :: rest | '0' :: 'X' :: digit :: rest =>
      number 16 ((digit :: rest).takeWhile fun char => (Text.hexDigit? char).isSome)
  | text => number 10 (text.takeWhile Char.isDigit)

/-- The largest number that a flag can have. -/
def maxFlag : Nat := 2147483647

/-- A flag is set by a word or by a number, of which the last byte counts. -/
def isSet (value : String) : Bool :=
  match value.toList with
  | char :: rest =>
      if char.isDigit then
        let flag := leadingNumber (char :: rest)
        flag ≤ maxFlag ∧ flag % 256 ≠ 0
      else ["on", "yes", "true"].contains value.toLower
  | [] => false

/-- All values of a parameter are listed in their order. -/
def values (parameters : List (String × String)) (name : String) : List String :=
  (parameters.filter fun parameter => parameter.1 = name).map (·.2)

/-- Of several flags with one name the first one counts. -/
def flag (parameters : List (String × String)) (name : String) : Bool :=
  (values parameters name).head?.any isSet

/-- The last layer counts, every mode restricts the ones after it, and unknown parameters are
ignored. -/
def ofParameters? (parameters : List (String × String)) : Option Settings := do
  if ¬ (values parameters "cache").all fun value => value = "shared" ∨ value = "private" then none
  let mode ← (values parameters "mode").foldlM AccessMode.replace? .create
  let layer ← FileLayer.ofName? ((values parameters "vfs").getLast?.getD "unix")
  return {
    mode
    layer
    withoutLocks := flag parameters "nolock"
    immutable := flag parameters "immutable"
    rightsOf := (values parameters "modeof").head? }

end Settings

end HierarchicalQuota.Database
