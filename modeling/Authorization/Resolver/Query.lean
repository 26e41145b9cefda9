import Authorization.Resolver.Program

namespace Authorization

namespace Query

/-- The roles of a user, from the cache if they are there. -/
def membership (user : UserId) : Query Membership := do
  match ← perform (.seekMembership user) with
  | some found => return found
  | none => return .ofUser (← ask (.loadUser user))

/-- What a role grants, from the cache if it is there. -/
def roleGrant (role : RoleId) : Query RoleGrant := do
  match ← perform (.seekGrant role) with
  | some found => return found
  | none => return .ofRole (← ask (.loadRole role))

/-- Whether one of the roles grants a permission. The roles after the first such one are not looked
up. -/
def grantedByOne (scope : OrganizationId) (permission : String) : List RoleId → Query Bool
  | [] => return false
  | role :: roles => do
    if (← roleGrant role).grants scope permission then return true
    else grantedByOne scope permission roles

/-- The permissions that some of the roles grant in a scope, added to those given. -/
def grantedByAll (scope : OrganizationId) (granted : OrderedSet String) :
    List RoleId → Query (OrderedSet String)
  | [] => return granted
  | role :: roles => do
    let grant ← roleGrant role
    grantedByAll scope
      (if grant.appliesIn scope then granted.union grant.permissions else granted) roles

def belongsToRole (user : UserId) (role : RoleId) : Query Bool := do
  return (← membership user).contains role

def hasPermission (user : UserId) (scope : OrganizationId) (permission : String) :
    Query Bool := do
  let allowed ← grantedByOne scope permission (← membership user).roles
  perform (.recordCheck allowed)
  return allowed

/-- A check that counts what cannot be resolved as denied. -/
def checkOrDeny (user : UserId) (scope : OrganizationId) (permission : String) :
    Program Bool := do
  match ← (hasPermission user scope permission).run with
  | .ok allowed => return allowed
  | .error _ => return false

def userRoles (user : UserId) : Query (List RoleId) := do
  return (← membership user).roles

def userPermissions (user : UserId) (scope : OrganizationId) : Query (OrderedSet String) := do
  grantedByAll scope .empty (← membership user).roles

/-- Writes, and then invalidates what the write made stale. -/
def command (command : Command) : Query command.Answer := ask (.write command)

end Query

end Authorization
