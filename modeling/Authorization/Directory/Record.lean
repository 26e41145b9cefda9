import Authorization.Collection.OrderedSet
import Authorization.Identity

namespace Authorization

/-- A user and the roles the user is a member of, in the order in which they were given. -/
structure User where
  id : UserId
  roles : List RoleId
  deriving DecidableEq

def User.new (id : UserId) : User := ⟨id, []⟩

def User.withRole (user : User) (role : RoleId) : User :=
  if role ∈ user.roles then user else { user with roles := user.roles ++ [role] }

def User.withoutRole (user : User) (role : RoleId) : User :=
  { user with roles := user.roles.filter (· ≠ role) }

/-- A role with the permissions it grants. A deleted role keeps them but grants nothing. -/
structure Role where
  id : RoleId
  organization : OrganizationId
  name : String
  systemName : String
  permissions : OrderedSet String
  deleted : Bool
  deriving DecidableEq

/-- A permission of the catalog. -/
structure PermissionRecord where
  id : PermissionId
  name : String
  deriving DecidableEq

end Authorization
