/-
This file defines the scopes and quotas of the inventory, and which relations lead to parents.
-/

import HierarchicalQuota.Registry

namespace HierarchicalQuota.Layout

def customer : String := "customer"

def project : String := "project"

def service : String := "service"

def tenant : String := "tenant"

/-- Resources are counted for projects and for their customers. -/
def resourceKinds : List String := ["vm", "volume"]

/-- A tenant gets these quotas from its backend, and a service sums them over its tenants. -/
def backendQuotas : List String := ["vcpu", "ram", "storage"]

def toCustomer : RelationPath := ⟨["customer"], by simp, by decide⟩

def toProject : RelationPath := ⟨["project"], by simp, by decide⟩

/-- This path leads from a resource over its project to the customer. -/
def toProjectCustomer : RelationPath := ⟨["project", "customer"], by simp, by decide⟩

def toService : RelationPath := ⟨["service"], by simp, by decide⟩

def toTenant : RelationPath := ⟨["tenant"], by simp, by decide⟩

def counter (name : String) (targets : List String) (path : RelationPath) : Field :=
  { name, rule := .counter { targets, path } }

def customerFields : List Field :=
  [counter "nc_project_count" [project] toCustomer, { name := "nc_user_count" },
    counter "nc_resource_count" resourceKinds toProjectCustomer]

def projectFields : List Field :=
  [counter "nc_resource_count" resourceKinds toProject,
    { name := "storage",
      rule := .total { targets := ["volume"], path := toProject, summedAttribute := "size" } }]

/-- Each backend quota belongs to the tenant and, as a sum, to the service. -/
def backendRegistrations : List Registration :=
  backendQuotas.flatMap fun name =>
    [⟨service,
        { name
          rule := .aggregator { childKind := tenant, path := toService, measure := .usage } }⟩,
      ⟨tenant, { name, isBackend := true }⟩]

/-- The registrations of the inventory stand in this order. -/
def registrations : List Registration :=
  customerFields.map (⟨customer, ·⟩) ++ projectFields.map (⟨project, ·⟩) ++
    [⟨service, counter "tenant_count" [tenant] toService⟩] ++ backendRegistrations ++
    [⟨tenant, counter "instances" ["vm"] toTenant⟩]

def registry : Registry := ⟨registrations, by decide⟩

/-- The quota parent of a project is its customer, and that of a tenant its service. -/
def emptyGraph : Graph :=
  (Graph.empty.withParentRelations project ["customer"]).withParentRelations tenant ["service"]

end HierarchicalQuota.Layout
