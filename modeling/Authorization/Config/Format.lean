import Authorization.Config.Basic
import Authorization.Json.Schema
import Authorization.Toml.Document

namespace Authorization

namespace Toml.Value

def size? : Value → Option UInt64
  | integer n => if 0 ≤ n.toInt then some (UInt64.ofNat n.toInt.toNat) else none
  | _ => none

def boolean? : Value → Option Bool
  | boolean b => some b
  | _ => none

def string? : Value → Option String
  | string text => some text
  | _ => none

def strings? : Value → Option (List String)
  | array items => items.mapM string?
  | _ => none

end Toml.Value

namespace Config

def toJson (c : Config) : Json :=
  .object [
    ("membership_cache_size", .integer c.membershipCacheSize.toNat),
    ("permission_cache_size", .integer c.permissionCacheSize.toNat),
    ("warmup_on_start", .bool c.warmupOnStart),
    ("known_permissions", .array (c.knownPermissions.map .string))]

/-- Reads a configuration without validating it. -/
def ofJson? (json : Json) : Option Config := do
  let names :=
    ["membership_cache_size", "permission_cache_size", "warmup_on_start", "known_permissions"]
  match ← json.fields? names with
  | [membership, permission, warmup, known] =>
    return {
      membershipCacheSize := ← Json.withDefault default.membershipCacheSize Json.uint64? membership
      permissionCacheSize := ← Json.withDefault default.permissionCacheSize Json.uint64? permission
      warmupOnStart := ← Json.withDefault default.warmupOnStart Json.bool? warmup
      knownPermissions :=
        ← Json.withDefault default.knownPermissions (Json.list? Json.string?) known }
  | _ => none

def tomlField {α : Type} (members : Toml.Members) (name : String) (default : α)
    (read : Toml.Value → Option α) : Option α :=
  match members.find? name with
  | none => some default
  | some value => read value

def ofMembers? (members : Toml.Members) : Option Config := do
  return {
    membershipCacheSize :=
      ← tomlField members "membership_cache_size" default.membershipCacheSize Toml.Value.size?
    permissionCacheSize :=
      ← tomlField members "permission_cache_size" default.permissionCacheSize Toml.Value.size?
    warmupOnStart :=
      ← tomlField members "warmup_on_start" default.warmupOnStart Toml.Value.boolean?
    knownPermissions :=
      ← tomlField members "known_permissions" default.knownPermissions Toml.Value.strings? }

/-- Reads a TOML document and validates what it says. -/
def ofToml (text : String) : Except Error Config :=
  match (Toml.read? text.toList).bind ofMembers? with
  | some c => c.validated
  | none => .error (.config .unreadable)

end Config

/-- What a path leads to. -/
inductive File where
  | missing
  | directory
  | regular (bytes : ByteArray)

def File.text : File → Except Error String
  | missing => .error (.io .missing)
  | directory => .error (.io .directory)
  | regular bytes =>
    match String.fromUTF8? bytes with
    | some text => .ok text
    | none => .error (.io .notUtf8)

def Config.ofFile (file : File) : Except Error Config := do
  Config.ofToml (← file.text)

end Authorization
