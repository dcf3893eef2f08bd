/-
This file defines the causes for which a quota operation fails, and their messages.
-/

import HierarchicalQuota.Amount
import HierarchicalQuota.Entity
import HierarchicalQuota.Text.Quoted

namespace HierarchicalQuota

/-- A store fails because a record is missing or because the store itself is unusable. -/
inductive StorageError where
  | notFound (scope : Entity) (name : String)
  | poisoned (reason : String)
  | inputOutput (reason : String)
  | readOnly
deriving DecidableEq, Inhabited

def StorageError.message : StorageError → String
  | .notFound scope name => s!"quota {name} not found for scope {scope}"
  | .poisoned reason => s!"store lock poisoned: {reason}"
  | .inputOutput reason => s!"io error: {reason}"
  | .readOnly => "database error: attempt to write a readonly database"

/-- A violation tells which usage one change of a batch would have needed. -/
structure Violation where
  scope : Entity
  name : String
  limit : Amount
  requested : Amount
deriving DecidableEq, Inhabited

def Violation.message (violation : Violation) : String :=
  s!"{violation.name} quota limit: {violation.limit}, requires {violation.requested} " ++
    s!"({violation.scope})"

/-- A chain of quota parents may have fewer hops than this bound. -/
def maxHierarchyDepth : Nat := 64

/-- A quota operation fails for one of these causes. -/
inductive QuotaError where
  | unknownQuota (kind name : String)
  | duplicateField (kind name : String)
  | creationConditionFailed (scope : Entity) (name : String)
  | scopeKindMismatch (scope : Entity) (name expected : String)
  | invalidPath (text : String)
  | hierarchyTooDeep (scope : Entity)
  | limitExceeded (violation : Violation)
  | quotasExceeded (violations : List Violation)
  | backendQuota (scope : Entity) (name : String)
  | limitBelowUsage (usage limit : Amount)
  | storage (error : StorageError)
deriving DecidableEq, Inhabited

/-- Errors are split by who can mend them: the setup, the caller, or neither. -/
inductive ErrorClass where
  | configuration
  | validation
  | other
deriving DecidableEq, Inhabited

namespace QuotaError

def message : QuotaError → String
  | .unknownQuota kind name => s!"quota {name} is not registered for scope type {kind}"
  | .duplicateField kind name => s!"quota {name} is already registered for scope type {kind}"
  | .creationConditionFailed scope name =>
      s!"cannot create quota {name} for scope {scope}: creation condition failed"
  | .scopeKindMismatch scope name expected =>
      s!"quota {name} resolved to scope {scope} but is registered for {expected}"
  | .invalidPath text => "invalid relation path: " ++ Text.quote text
  | .hierarchyTooDeep scope =>
      s!"scope hierarchy above {scope} is deeper than {maxHierarchyDepth} levels"
  | .limitExceeded violation => "one or more quotas were exceeded: " ++ violation.message
  | .quotasExceeded violations =>
      "one or more quotas were exceeded: " ++ "; ".intercalate (violations.map Violation.message)
  | .backendQuota scope name => s!"quota {name} of {scope} is controlled by the backend"
  | .limitBelowUsage usage limit => s!"current quota usage {usage} exceeds new limit {limit}"
  | .storage error => "storage error: " ++ error.message

def classify : QuotaError → ErrorClass
  | .unknownQuota .. | .duplicateField .. | .creationConditionFailed .. | .scopeKindMismatch ..
  | .invalidPath .. | .hierarchyTooDeep .. => .configuration
  | .limitExceeded .. | .quotasExceeded .. => .validation
  | .backendQuota .. | .limitBelowUsage .. | .storage .. => .other

end QuotaError

end HierarchicalQuota
