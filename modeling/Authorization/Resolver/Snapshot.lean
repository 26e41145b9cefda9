import Authorization.Directory.Record

namespace Authorization

/-- The roles of a user at the time of a load. -/
structure Membership where
  user : UserId
  roles : List RoleId
  deriving DecidableEq

namespace Membership

def ofUser (user : User) : Membership := ⟨user.id, user.roles⟩

def contains (m : Membership) (role : RoleId) : Bool := m.roles.contains role

end Membership

/-- What a role grants, and where, at the time of a load. -/
structure RoleGrant where
  role : RoleId
  organization : OrganizationId
  permissions : OrderedSet String
  deleted : Bool
  deriving DecidableEq

namespace RoleGrant

def ofRole (role : Role) : RoleGrant :=
  ⟨role.id, role.organization, role.permissions, role.deleted⟩

/-- Whether the role grants anything in a scope. -/
def appliesIn (g : RoleGrant) (scope : OrganizationId) : Bool :=
  !g.deleted && scope.admits g.organization

def grants (g : RoleGrant) (scope : OrganizationId) (permission : String) : Bool :=
  g.appliesIn scope && g.permissions.contains permission

end RoleGrant

end Authorization
