import Authorization.Resolver.Query
import Authorization.Resolver.Warmup

namespace Authorization

/-- What is asked of a resolver, its catalog and its command handler. -/
inductive Call where
  | belongsToRole (user : UserId) (role : RoleId)
  | hasPermission (user : UserId) (scope : OrganizationId) (permission : String)
  | checkOrDeny (user : UserId) (scope : OrganizationId) (permission : String)
  | userRoles (user : UserId)
  | userPermissions (user : UserId) (scope : OrganizationId)
  | ensurePermissions (names : List String)
  | warmup (names : List String)
  | warmupFromConfig
  | command (command : Command)

namespace Call

abbrev Answer : Call → Type
  | belongsToRole _ _ => Except Error Bool
  | hasPermission _ _ _ => Except Error Bool
  | checkOrDeny _ _ _ => Bool
  | userRoles _ => Except Error (List RoleId)
  | userPermissions _ _ => Except Error (OrderedSet String)
  | ensurePermissions _ => Except Error Nat
  | warmup _ => Except Error WarmupReport
  | warmupFromConfig => Except Error (Option WarmupReport)
  | command c => Except Error c.Answer

def program (r : Resolver) : (call : Call) → Program call.Answer
  | belongsToRole user role => (Query.belongsToRole user role).run
  | hasPermission user scope permission => (Query.hasPermission user scope permission).run
  | checkOrDeny user scope permission => Query.checkOrDeny user scope permission
  | userRoles user => (Query.userRoles user).run
  | userPermissions user scope => (Query.userPermissions user scope).run
  | ensurePermissions names => (Query.ensurePermissions names).run
  | warmup names => (r.warmup names).run
  | warmupFromConfig => r.warmupFromConfig.run
  | command c => (Query.command c).run

end Call

end Authorization
