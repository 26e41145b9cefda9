import Authorization.Collection.Cache
import Authorization.Collection.Table
import Authorization.Config.Basic
import Authorization.Metrics.Activity
import Authorization.Resolver.Snapshot

namespace Authorization

/-- Where a warmup learns which roles there are. -/
inductive Projection where
  | directory
  | fixed (roles : List RoleId)
  deriving DecidableEq

/-- Answers permission checks from snapshots of a directory that it does not own. An epoch counts
the invalidations of its cache. -/
structure Resolver where
  config : Config
  projection : Option Projection
  memberships : Cache UserId Membership
  grants : Cache RoleId RoleGrant
  membershipEpoch : UInt64
  grantEpoch : UInt64
  catalog : Table String PermissionId
  activity : Activity

namespace Resolver

/-- A resolver that knows nothing yet, if the configuration is valid. -/
def build (config : Config) (projection : Option Projection) : Except Error Resolver := do
  config.validate
  return {
    config
    projection
    memberships := .new config.membershipCacheSize.toNat
    grants := .new config.permissionCacheSize.toNat
    membershipEpoch := 0
    grantEpoch := 0
    catalog := .empty
    activity := .none }

/-- Drops what is cached of a role. -/
def invalidateRole (r : Resolver) (role : RoleId) : Resolver :=
  { r with
    grantEpoch := r.grantEpoch + 1
    grants := (r.grants.remove role).2
    activity := r.activity.recordInvalidation }

/-- Drops what is cached of a user. -/
def invalidateUser (r : Resolver) (user : UserId) : Resolver :=
  { r with
    membershipEpoch := r.membershipEpoch + 1
    memberships := (r.memberships.remove user).2
    activity := r.activity.recordInvalidation }

def invalidateAll (r : Resolver) : Resolver :=
  { r with
    membershipEpoch := r.membershipEpoch + 1
    grantEpoch := r.grantEpoch + 1
    memberships := r.memberships.clear
    grants := r.grants.clear }

def record (catalog : Table String PermissionId) (records : List PermissionRecord) :
    Table String PermissionId :=
  records.foldl (fun catalog r => catalog.insert r.name r.id) catalog

end Resolver

end Authorization
