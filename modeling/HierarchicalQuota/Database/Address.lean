/-
This file defines the addresses of databases, which are paths or URIs.
-/

import HierarchicalQuota.Text.Percent
import HierarchicalQuota.Text.Split

namespace HierarchicalQuota.Database

/-- An address leads to a path, and a URI may add parameters. -/
structure Address where
  path : String
  parameters : List (String × String) := []
deriving DecidableEq, Inhabited

namespace Address

/-- An address that starts with this scheme is a URI. -/
def scheme : List Char := ['f', 'i', 'l', 'e', ':']

/-- A text is cut at the first mark, which belongs to neither part. -/
def cut (mark : Char) (text : List Char) : List Char × List Char :=
  (text.takeWhile (· ≠ mark), (text.dropWhile (· ≠ mark)).tail)

/-- Between two slashes and the path a URI may name a host, but only this machine. -/
def withoutHost? : List Char → Option (List Char)
  | '/' :: '/' :: rest =>
      let host := String.ofList (rest.takeWhile (· ≠ '/'))
      if host = "" ∨ host = "localhost" then some (rest.dropWhile (· ≠ '/')) else none
  | text => some text

/-- A parameter is a name with a value, and without a name it is ignored. -/
def parameter? (text : List Char) : Option (String × String) :=
  let (name, value) := cut '=' text
  let name := Text.unescapePercent name
  if name = "" then none else some (name, Text.unescapePercent value)

/-- The path ends where the query starts, and a fragment belongs to neither. -/
def ofUri? (text : List Char) : Option Address := do
  let text ← withoutHost? text
  let (path, query) := cut '?' (text.takeWhile (· ≠ '#'))
  return {
    path := Text.unescapePercent path
    parameters := (Text.split '&' query).filterMap parameter? }

/-- Any other text is a path as it stands. -/
def ofText? (text : String) : Option Address :=
  let chars := text.toList
  if chars.take scheme.length = scheme then ofUri? (chars.drop scheme.length)
  else some { path := text }

end Address

end HierarchicalQuota.Database
