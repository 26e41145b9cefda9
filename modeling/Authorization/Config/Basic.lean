import Authorization.Error
import Authorization.Text.Blank

namespace Authorization

/-- How a resolver is set up. -/
structure Config where
  membershipCacheSize : UInt64
  permissionCacheSize : UInt64
  warmupOnStart : Bool
  knownPermissions : List String
  deriving DecidableEq

namespace Config

def default : Config := ⟨10000, 1000, true, []⟩

/-- The first rule that the configuration breaks. -/
def fault? (c : Config) : Option ConfigFault :=
  if c.membershipCacheSize = 0 then some .zeroMembershipCache
  else if c.permissionCacheSize = 0 then some .zeroPermissionCache
  else (c.knownPermissions.findIdx? isBlankName).map .blankPermission

def validate (c : Config) : Except Error Unit :=
  match c.fault? with
  | some fault => .error (.config fault)
  | none => .ok ()

def validated (c : Config) : Except Error Config :=
  match c.validate with
  | .ok _ => .ok c
  | .error e => .error e

end Config

end Authorization
