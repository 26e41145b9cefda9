import Authorization.Collection.Table
import Authorization.Directory.Request
import Authorization.Error

namespace Authorization

/-- The users, roles and permissions on record, with the faults that are switched on and the loads
that were served. -/
structure Directory where
  users : Table UserId User
  roles : Table RoleId Role
  permissions : Table String PermissionId
  lastRole : RoleId
  lastPermission : PermissionId
  available : Bool
  failingRoles : OrderedSet RoleId
  rejectedNames : OrderedSet String
  userLoads : UInt64
  roleLoads : UInt64
  permissionsCreated : UInt64

namespace Directory

def empty : Directory where
  users := .empty
  roles := .empty
  permissions := .empty
  lastRole := ⟨0⟩
  lastPermission := ⟨0⟩
  available := true
  failingRoles := .empty
  rejectedNames := .empty
  userLoads := 0
  roleLoads := 0
  permissionsCreated := 0

def insertUser (d : Directory) (user : User) : Directory :=
  { d with users := d.users.insert user.id user }

/-- Puts a role on record. Roles created later get greater identifiers. -/
def insertRole (d : Directory) (role : Role) : Directory :=
  { d with
    roles := d.roles.insert role.id role
    lastRole := if d.lastRole < role.id then role.id else d.lastRole }

def setAvailable (d : Directory) (available : Bool) : Directory :=
  { d with available := available }

def failRole (d : Directory) (role : RoleId) : Directory :=
  { d with failingRoles := d.failingRoles.insert role }

def rejectName (d : Directory) (name : String) : Directory :=
  { d with rejectedNames := d.rejectedNames.insert name }

def findUser (d : Directory) (user : UserId) : Except Error User :=
  match d.users.find? user with
  | some record => .ok record
  | none => .error (.userNotFound user)

def findRole (d : Directory) (role : RoleId) : Except Error Role :=
  if d.failingRoles.contains role then .error (.unavailable (.roleNotReplayed role))
  else
    match d.roles.find? role with
    | some record => .ok record
    | none => .error (.roleNotFound role)

/-- The catalog, by name. -/
def catalog (d : Directory) : List PermissionRecord :=
  d.permissions.entries.map fun e => ⟨e.2, e.1⟩

def createPermission (d : Directory) (name : String) : Except Error (PermissionId × Directory) :=
  if d.rejectedNames.contains name then .error (.unavailable (.nameRejected name))
  else if d.permissions.contains name then .error (.invalidInput (.permissionExists name))
  else
    let id : PermissionId := ⟨d.lastPermission.value + 1⟩
    .ok (id,
      { d with
        permissions := d.permissions.insert name id
        lastPermission := id
        permissionsCreated := d.permissionsCreated + 1 })

def editRole (d : Directory) (role : RoleId) (change : Role → Role) : Except Error Directory :=
  if d.roles.contains role then .ok { d with roles := d.roles.modify role change }
  else .error (.roleNotFound role)

def editUser (d : Directory) (user : UserId) (change : User → User) : Except Error Directory :=
  if d.users.contains user then .ok { d with users := d.users.modify user change }
  else .error (.userNotFound user)

def edit (d : Directory) : Edit → Except Error Directory
  | .addPermission role permission =>
    d.editRole role fun r => { r with permissions := r.permissions.insert permission }
  | .removePermission role permission =>
    d.editRole role fun r => { r with permissions := r.permissions.erase permission }
  | .addMember user role =>
    if d.roles.contains role then d.editUser user (·.withRole role)
    else .error (.roleNotFound role)
  | .removeMember user role => d.editUser user (·.withoutRole role)
  | .moveRole role owner =>
    if owner.isAny then .error (.invalidInput .noConcreteOwner)
    else d.editRole role fun r => { r with organization := owner }
  | .deleteRole role => d.editRole role fun r => { r with deleted := true }
  | .restoreRole role => d.editRole role fun r => { r with deleted := false }

/-- Puts a new role on record under the next identifier. A role is found by its identifier, so that
none is created once the counter is at its end: the next identifier may belong to another role. -/
def createRole (d : Directory) (draft : RoleDraft) : Except Error (RoleId × Directory) :=
  if draft.owner.isAny then .error (.invalidInput .noConcreteOwner)
  else if d.lastRole.value = Int64.maxValue then .error (.unavailable .counterOverflow)
  else
    let id : RoleId := ⟨d.lastRole.value + 1⟩
    let role : Role :=
      ⟨id, draft.owner, draft.name, draft.systemName, .ofList draft.permissions, false⟩
    .ok (id, { d with roles := d.roles.insert id role, lastRole := id })

/-- The outcome of a write: a refused one changes nothing. -/
def commit {α : Type} (d : Directory) : Except Error (α × Directory) → Except Error α × Directory
  | .ok (a, changed) => (.ok a, changed)
  | .error e => (.error e, d)

def execute (d : Directory) : (command : Command) → Except Error command.Answer × Directory
  | .edit change => d.commit ((d.edit change).map fun changed => ((), changed))
  | .createRole draft => d.commit (d.createRole draft)

/-- Answers a request. Only loads and successful writes change the directory. -/
def serve (d : Directory) (request : Request) : Except Error request.Answer × Directory :=
  if d.available then
    match request with
    | .loadUser user => (d.findUser user, { d with userLoads := d.userLoads + 1 })
    | .loadRole role => (d.findRole role, { d with roleLoads := d.roleLoads + 1 })
    | .listPermissions => (.ok d.catalog, d)
    | .createPermission name => d.commit (d.createPermission name)
    | .listRoles => (.ok d.roles.keys, d)
    | .write command => d.execute command
  else (.error (.unavailable .markedUnavailable), d)

end Directory

end Authorization
