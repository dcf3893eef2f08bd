/-
This file defines the description of a field, one line that shows every part of it.
-/

import HierarchicalQuota.Field

namespace HierarchicalQuota.Description

/-- A record is described by its name and its labelled parts. -/
def record (name : String) (parts : List (String × String)) : String :=
  name ++ " \x7b " ++ ", ".intercalate (parts.map fun part => part.1 ++ ": " ++ part.2) ++ " \x7d"

def list (items : List String) : String := "[" ++ ", ".intercalate items ++ "]"

def texts (items : List String) : String := list (items.map Text.quote)

def flag (value : Bool) : String := if value then "true" else "false"

def optionalText : Option String → String
  | none => "None"
  | some text => "Some(" ++ Text.quote text ++ ")"

def relationPath (path : RelationPath) : String :=
  record "RelationPath" [("hops", texts path.hops)]

def measure : Measure → String
  | .usage => "Usage"
  | .limit => "Limit"

/-- The function of a computed default is not shown. -/
def default : DefaultValue → String
  | .constant amount => s!"Constant({amount})"
  | .computed _ => "Computed(..)"

def rule : UsageRule → String
  | .direct => "Direct"
  | .counter rule =>
      record "Counter" [("targets", texts rule.targets), ("path", Text.quote rule.path.text)]
  | .total rule =>
      "Total(" ++ record "TotalRule"
        [("targets", texts rule.targets), ("path", relationPath rule.path),
          ("target_field", Text.quote rule.summedAttribute)] ++ ")"
  | .aggregator rule =>
      "Aggregator(" ++ record "AggregatorRule"
        [("children", record "ChildSelector"
            [("child_type", Text.quote rule.childKind), ("path", relationPath rule.path)]),
          ("measure", measure rule.measure),
          ("child_quota_name", optionalText rule.childQuota)] ++ ")"

/-- The description of a field shows its defaults and its rule. -/
def field (field : Field) : String :=
  record "QuotaField"
    [("name", Text.quote field.name), ("default_limit", default field.defaultLimit),
      ("default_usage", default field.defaultUsage), ("is_backend", flag field.isBackend),
      ("has_creation_condition", flag field.condition.isSome), ("kind", rule field.rule)]

end HierarchicalQuota.Description
