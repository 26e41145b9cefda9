import Authorization.Directory.Record
import Authorization.Json.Schema

namespace Authorization

namespace Id

variable {kind : Kind}

def toJson (id : Id kind) : Json := .integer id.value.toInt

def ofJson? (json : Json) : Option (Id kind) := json.int64?.map Id.mk

end Id

namespace User

def toJson (user : User) : Json :=
  .object [("id", user.id.toJson), ("role_ids", .array (user.roles.map Id.toJson))]

def ofJson? (json : Json) : Option User := do
  match ← json.fields? ["id", "role_ids"] with
  | [id, roles] =>
    return {
      id := ← Json.required Id.ofJson? id
      roles := ← Json.withDefault [] (Json.list? Id.ofJson?) roles }
  | _ => none

end User

namespace Role

def toJson (role : Role) : Json :=
  .object [
    ("id", role.id.toJson),
    ("organization_id", role.organization.toJson),
    ("name", .string role.name),
    ("system_name", .string role.systemName),
    ("permissions", .array (role.permissions.toList.map .string)),
    ("deleted", .bool role.deleted)]

def ofJson? (json : Json) : Option Role := do
  match ← json.fields?
      ["id", "organization_id", "name", "system_name", "permissions", "deleted"] with
  | [id, organization, name, systemName, permissions, deleted] =>
    return {
      id := ← Json.required Id.ofJson? id
      organization := ← Json.required Id.ofJson? organization
      name := ← Json.required Json.string? name
      systemName := ← Json.required Json.string? systemName
      permissions := .ofList (← Json.withDefault [] (Json.list? Json.string?) permissions)
      deleted := ← Json.withDefault false Json.bool? deleted }
  | _ => none

end Role

namespace PermissionRecord

def toJson (record : PermissionRecord) : Json :=
  .object [("id", record.id.toJson), ("name", .string record.name)]

def ofJson? (json : Json) : Option PermissionRecord := do
  match ← json.fields? ["id", "name"] with
  | [id, name] =>
    return {
      id := ← Json.required Id.ofJson? id
      name := ← Json.required Json.string? name }
  | _ => none

end PermissionRecord

end Authorization
