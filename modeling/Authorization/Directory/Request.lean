import Authorization.Directory.Record

namespace Authorization

/-- A change of one user or one role. -/
inductive Edit where
  | addPermission (role : RoleId) (permission : String)
  | removePermission (role : RoleId) (permission : String)
  | addMember (user : UserId) (role : RoleId)
  | removeMember (user : UserId) (role : RoleId)
  | moveRole (role : RoleId) (owner : OrganizationId)
  | deleteRole (role : RoleId)
  | restoreRole (role : RoleId)
  deriving DecidableEq

/-- A role that has no identifier yet. -/
structure RoleDraft where
  owner : OrganizationId
  name : String
  systemName : String
  permissions : List String
  deriving DecidableEq

inductive Command where
  | edit (change : Edit)
  | createRole (draft : RoleDraft)
  deriving DecidableEq

abbrev Command.Answer : Command → Type
  | edit _ => Unit
  | createRole _ => RoleId

/-- What a resolver asks of the directory. -/
inductive Request where
  | loadUser (user : UserId)
  | loadRole (role : RoleId)
  | listPermissions
  | createPermission (name : String)
  | listRoles
  | write (command : Command)
  deriving DecidableEq

abbrev Request.Answer : Request → Type
  | loadUser _ => User
  | loadRole _ => Role
  | listPermissions => List PermissionRecord
  | createPermission _ => PermissionId
  | listRoles => List RoleId
  | write command => command.Answer

end Authorization
