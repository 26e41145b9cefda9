import Authorization.Resolver.Program

namespace Authorization

structure WarmupReport where
  permissionsCreated : Nat
  rolesWarmed : Nat
  rolesSkipped : List RoleId
  deriving DecidableEq

namespace Query

/-- Whether another writer has created a permission since the catalog was listed. -/
def createdElsewhere (name : String) : Program Bool := do
  match ← Program.attempt .listPermissions with
  | .ok _ => Program.perform (.knowsPermission name)
  | .error _ => return false

def createMissing (created : Nat) : List String → Query Nat
  | [] => return created
  | name :: names => do
    if ← perform (.knowsPermission name) then createMissing created names
    else
      match ← ExceptT.lift (Program.attempt (.createPermission name)) with
      | .ok _ => createMissing (created + 1) names
      | .error e =>
        if ← ExceptT.lift (createdElsewhere name) then createMissing created names
        else throw (.creationFailed name e.message)

/-- Makes sure that every name is in the directory's catalog and counts the names it created. -/
def ensurePermissions (names : List String) : Query Nat := do
  let _ ← ask .listPermissions
  createMissing 0 names

def listRoles : Projection → Query (List RoleId)
  | .directory => ask .listRoles
  | .fixed roles => return roles

/-- The roles that were not loaded, once for each time they were asked for. -/
def skippedRoles (loads : List RoleLoad) : List RoleId :=
  (loads.filter fun load => !load.2.isOk).map (·.1)

/-- Caches the projected roles and reports on them, after some permissions were created. -/
def warmRoles (projection : Option Projection) (created : Nat) : Query WarmupReport := do
  match projection with
  | none =>
    perform (.recordWarmup 0)
    return ⟨created, 0, []⟩
  | some source =>
    let loads ← ExceptT.lift (Program.attemptRoles (← listRoles source))
    let skipped := skippedRoles loads
    perform (.recordWarmup skipped.length)
    return ⟨created, loads.length - skipped.length, skipped.mergeSort fun a b => decide (a ≤ b)⟩

/-- Prepares for traffic: the named permissions exist and the projected roles are cached. -/
def warmup (projection : Option Projection) (names : List String) : Query WarmupReport := do
  warmRoles projection (← ensurePermissions names)

end Query

namespace Resolver

def warmup (r : Resolver) (names : List String) : Query WarmupReport :=
  Query.warmup r.projection names

/-- A warmup with the permissions of the configuration, unless that switches it off. -/
def warmupFromConfig (r : Resolver) : Query (Option WarmupReport) := do
  if r.config.warmupOnStart then return some (← r.warmup r.config.knownPermissions)
  else return none

end Resolver

end Authorization
