/-
This file defines the arguments of the command line and how they are read.
-/

import HierarchicalQuota.CommandLine.Number

namespace HierarchicalQuota

/-- A command repairs once, repairs again and again, or shows the quotas of a scope. -/
inductive Command where
  | recalculate
  | watch (interval : Option Nat)
  | display (kind id : String)
  | help
deriving DecidableEq, Inhabited

/-- The arguments are a command and the paths that are used instead of the configured ones. -/
structure Arguments where
  command : Command
  snapshot : Option String := none
  dataDirectory : Option String := none
deriving DecidableEq, Inhabited

/-- A flag is followed by a value. -/
inductive Flag where
  | snapshot
  | dataDirectory
  | interval
deriving DecidableEq, Inhabited

namespace Flag

/-- These flags may stand before and after the command. -/
def everywhere : List Flag := [.snapshot, .dataDirectory]

def name : Flag → List Char
  | .snapshot => "snapshot".toList
  | .dataDirectory => "data-dir".toList
  | .interval => "interval".toList

def letter : Flag → Char
  | .snapshot => 's'
  | .dataDirectory => 'd'
  | .interval => 'i'

end Flag

/-- A word of the command line is one of these, by its dashes. -/
inductive WordShape where
  | plain
  | separator
  | help
  | flag (flag : Flag) (value : Option String)
  | unknown
deriving DecidableEq, Inhabited

namespace WordShape

/-- The value of a long flag stands after an equals sign or is the next word. -/
def ofLong (allowed : List Flag) (text : List Char) : WordShape :=
  let name := text.takeWhile (· ≠ '=')
  let value := match text.dropWhile (· ≠ '=') with
    | [] => none
    | _ :: value => some (String.ofList value)
  if text = "help".toList then .help
  else match allowed.find? (·.name = name) with
    | some found => .flag found value
    | none => .unknown

/-- The value of a short flag is the rest of the word or the next word. -/
def ofShort (allowed : List Flag) (letter : Char) (rest : List Char) : WordShape :=
  let value := match rest with
    | [] => none
    | '=' :: value => some (String.ofList value)
    | value => some (String.ofList value)
  if letter = 'h' then .help
  else match allowed.find? (·.letter = letter) with
    | some found => .flag found value
    | none => .unknown

/-- A single dash is a plain word. -/
def ofWord (allowed : List Flag) (word : String) : WordShape :=
  match word.toList with
  | ['-', '-'] => .separator
  | '-' :: '-' :: text => ofLong allowed text
  | '-' :: letter :: rest => ofShort allowed letter rest
  | _ => .plain

end WordShape

/-- The values of the flags that were read, and the plain words with the latest first. -/
structure FlagValues where
  snapshot : Option String := none
  dataDirectory : Option String := none
  interval : Option Nat := none
  words : List String := []
deriving DecidableEq, Inhabited

namespace FlagValues

/-- A flag may be given once, a path may not be empty, and an interval must be a count. -/
def set (values : FlagValues) (flag : Flag) (value : String) : Option FlagValues :=
  match flag with
  | .snapshot =>
      if value = "" ∨ values.snapshot.isSome then none
      else some { values with snapshot := some value }
  | .dataDirectory =>
      if value = "" ∨ values.dataDirectory.isSome then none
      else some { values with dataDirectory := some value }
  | .interval =>
      if values.interval.isSome then none
      else match readCount value with
        | .ok interval => some { values with interval := some interval }
        | .error _ => none

end FlagValues

/-- A reading ends with the values of all words, or with a wish for help. -/
inductive Reading where
  | values (values : FlagValues)
  | help
deriving DecidableEq, Inhabited

/-- After the command plain words are kept up to a bound, and after a separator every word is
plain. The first word that is out of place decides. -/
def readRest (allowed : List Flag) (bound : Nat) : List String → FlagValues → Option Reading
  | [], values => some (.values values)
  | word :: words, values =>
      match WordShape.ofWord allowed word with
      | .plain =>
          if values.words.length < bound then
            readRest allowed bound words { values with words := word :: values.words }
          else
            none
      | .separator => some (.values { values with words := words.reverse ++ values.words })
      | .help => some .help
      | .unknown => none
      | .flag flag (some value) => do readRest allowed bound words (← values.set flag value)
      | .flag flag none =>
          match words with
          | [] => none
          | value :: words =>
              if WordShape.ofWord allowed value = .plain then do
                readRest allowed bound words (← values.set flag value)
              else
                none

/-- The first plain word is the command. -/
def readCommand : List String → FlagValues → Option (Option (String × List String) × FlagValues)
  | [], _ => none
  | word :: words, values =>
      match WordShape.ofWord Flag.everywhere word with
      | .plain => some (some (word, words), values)
      | .help => some (none, values)
      | .separator | .unknown => none
      | .flag flag (some value) => do readCommand words (← values.set flag value)
      | .flag flag none =>
          match words with
          | [] => none
          | value :: words =>
              if WordShape.ofWord Flag.everywhere value = .plain then do
                readCommand words (← values.set flag value)
              else
                none

/-- The names of the commands that can be explained, the explanation among them. -/
def commandNames : List String := ["recalculate", "watch", "show", "help"]

/-- A scope is named by two words, and no other command takes any. -/
def wordBound (name : String) : Nat := if name = "show" then 2 else 0

/-- An explanation is about the whole program or about one command. -/
def helpOf : List String → Option Arguments
  | [] => some { command := .help }
  | [name] => if commandNames.contains name then some { command := .help } else none
  | _ => none

/-- Every command takes its own number of words, and only one takes an interval. -/
def commandOf (name : String) (words : List String) (interval : Option Nat) : Option Command :=
  match name, words with
  | "recalculate", [] => some .recalculate
  | "watch", [] => some (.watch interval)
  | "show", [kind, id] => some (.display kind id)
  | _, _ => none

/-- The flags after a command go before those in front of it. -/
def Arguments.ofWords (words : List String) : Option Arguments := do
  let (command, outer) ← readCommand words {}
  match command with
  | none => return { command := .help }
  | some ("help", rest) => helpOf rest
  | some (name, rest) =>
      if commandNames.contains name then
        let allowed := if name = "watch" then .interval :: Flag.everywhere else Flag.everywhere
        match ← readRest allowed (wordBound name) rest {} with
        | .help => return { command := .help }
        | .values inner =>
            let command ← commandOf name inner.words.reverse inner.interval
            return {
              command
              snapshot := inner.snapshot.or outer.snapshot
              dataDirectory := inner.dataDirectory.or outer.dataDirectory }
      else
        none

end HierarchicalQuota
