import Authorization.Identity
import Authorization.Text.Size

namespace Authorization

/-- Why the directory does not answer. -/
inductive Outage where
  | markedUnavailable
  | roleNotReplayed (role : RoleId)
  | nameRejected (name : String)
  | counterOverflow
  | reported (text : String)
  deriving DecidableEq

def Outage.message : Outage → String
  | markedUnavailable => "in-memory store marked unavailable"
  | roleNotReplayed role => "role " ++ role.display ++ " could not be replayed"
  | nameRejected name => "permission catalog rejected '" ++ name ++ "'"
  | counterOverflow => "attempt to add with overflow"
  | reported text => text

/-- What is wrong with the input of a write. -/
inductive InputFault where
  | permissionExists (name : String)
  | noConcreteOwner
  | reported (text : String)
  deriving DecidableEq

def InputFault.message : InputFault → String
  | permissionExists name => "permission '" ++ name ++ "' already exists"
  | noConcreteOwner => "a role must belong to a concrete organization"
  | reported text => text

/-- Why the value of a variable is not one of its type. -/
inductive ValueFault where
  | size (fault : SizeFault)
  | notFlag
  deriving DecidableEq

def ValueFault.message : ValueFault → String
  | size fault => fault.message
  | notFlag => "provided string was not `true` or `false`"

/-- Why a configuration is refused. -/
inductive ConfigFault where
  | unreadable
  | badValue (setting value : String) (fault : ValueFault)
  | zeroMembershipCache
  | zeroPermissionCache
  | blankPermission (index : Nat)
  | reported (text : String)
  deriving DecidableEq

def ConfigFault.message : ConfigFault → String
  | unreadable => "Failed to parse config"
  | badValue setting value fault => setting ++ "='" ++ value ++ "': " ++ fault.message
  | zeroMembershipCache => "membership_cache_size must be at least 1"
  | zeroPermissionCache => "permission_cache_size must be at least 1"
  | blankPermission index => "known_permissions[" ++ toString index ++ "] is empty"
  | reported text => text

/-- Why a file has no text. -/
inductive FileFault where
  | notUtf8
  | missing
  | directory
  | reported (text : String)
  deriving DecidableEq

def FileFault.message : FileFault → String
  | notUtf8 => "stream did not contain valid UTF-8"
  | missing => "No such file or directory (os error 2)"
  | directory => "Is a directory (os error 21)"
  | reported text => text

inductive Error where
  | userNotFound (user : UserId)
  | roleNotFound (role : RoleId)
  | unavailable (outage : Outage)
  | creationFailed (name reason : String)
  | invalidInput (fault : InputFault)
  | config (fault : ConfigFault)
  | io (fault : FileFault)
  deriving DecidableEq

namespace Error

def message : Error → String
  | userNotFound user => "user " ++ toString user.value.toInt ++ " not found"
  | roleNotFound role => "role " ++ toString role.value.toInt ++ " not found"
  | unavailable outage => "Source unavailable: " ++ outage.message
  | creationFailed name reason => "Failed to create permission '" ++ name ++ "': " ++ reason
  | invalidInput fault => "Invalid input: " ++ fault.message
  | config fault => "Configuration error: " ++ fault.message
  | io fault => "I/O error: " ++ fault.message

def isNotFound : Error → Bool
  | userNotFound _ => true
  | roleNotFound _ => true
  | _ => false

/-- Whether a later attempt may succeed. -/
def isTransient : Error → Bool
  | unavailable _ => true
  | _ => false

end Error

end Authorization
