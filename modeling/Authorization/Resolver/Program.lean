import Authorization.Directory.Basic
import Authorization.Resolver.Basic

namespace Authorization

/-- What a resolver does by itself, at once. -/
inductive Act where
  | seekMembership (user : UserId)
  | seekGrant (role : RoleId)
  | knowsPermission (name : String)
  | recordCheck (allowed : Bool)
  | recordWarmup (skipped : Nat)
  deriving DecidableEq

abbrev Act.Answer : Act → Type
  | seekMembership _ => Option Membership
  | seekGrant _ => Option RoleGrant
  | knowsPermission _ => Bool
  | recordCheck _ => Unit
  | recordWarmup _ => Unit

/-- A role with the outcome of loading it. -/
abbrev RoleLoad := RoleId × Except Error Role

/-- Work of a resolver: acts of its own, requests for whose answers it waits, and loads of many
roles whose answers it takes in any order. Between a request and its answer anything may happen to
the resolver and to the directory. -/
inductive Program (α : Type) where
  | done (a : α)
  | act (act : Act) (next : act.Answer → Program α)
  | ask (request : Request) (next : Except Error request.Answer → Program α)
  | loadRoles (roles : List RoleId) (next : List RoleLoad → Program α)

namespace Program

variable {α β : Type}

def bind : Program α → (α → Program β) → Program β
  | done a, f => f a
  | act a next, f => act a fun answer => (next answer).bind f
  | ask request next, f => ask request fun answer => (next answer).bind f
  | loadRoles roles next, f => loadRoles roles fun loads => (next loads).bind f

instance : Monad Program where
  pure := done
  bind := bind

theorem bind_done (p : Program α) : p.bind done = p := by
  induction p with
  | done _ => rfl
  | act a next ih => exact congrArg (act a) (funext ih)
  | ask request next ih => exact congrArg (ask request) (funext ih)
  | loadRoles roles next ih => exact congrArg (loadRoles roles) (funext ih)

theorem bind_assoc {γ : Type} (p : Program α) (f : α → Program β) (g : β → Program γ) :
    (p.bind f).bind g = p.bind fun a => (f a).bind g := by
  induction p with
  | done _ => rfl
  | act a next ih => exact congrArg (act a) (funext ih)
  | ask request next ih => exact congrArg (ask request) (funext ih)
  | loadRoles roles next ih => exact congrArg (loadRoles roles) (funext ih)

instance : LawfulMonad Program :=
  .mk' Program bind_done (fun _ _ => rfl) bind_assoc

def perform (a : Act) : Program a.Answer := act a done

def attempt (request : Request) : Program (Except Error request.Answer) := ask request done

def attemptRoles (roles : List RoleId) : Program (List RoleLoad) := loadRoles roles done

end Program

/-- Work that may fail. -/
abbrev Query := ExceptT Error Program

namespace Query

def perform (a : Act) : Query a.Answer := ExceptT.lift (Program.perform a)

def ask (request : Request) : Query request.Answer := ExceptT.mk (Program.attempt request)

end Query

/-- The epochs of both caches at the time of a request. -/
structure Epochs where
  memberships : UInt64
  grants : UInt64
  deriving DecidableEq

namespace Resolver

def epochs (r : Resolver) : Epochs := ⟨r.membershipEpoch, r.grantEpoch⟩

def perform (r : Resolver) : (a : Act) → a.Answer × Resolver
  | .seekMembership user =>
    ((r.memberships.get user).1, { r with memberships := (r.memberships.get user).2 })
  | .seekGrant role => ((r.grants.get role).1, { r with grants := (r.grants.get role).2 })
  | .knowsPermission name => (r.catalog.contains name, r)
  | .recordCheck allowed => ((), { r with activity := r.activity.recordCheck allowed })
  | .recordWarmup skipped => ((), { r with activity := r.activity.recordWarmup skipped })

/-- Writes a loaded value back, and drops it again if its cache was invalidated since the load
began. -/
def writeBack {κ ν : Type} [DecidableEq κ] (cache : Cache κ ν) (key : κ) (value : ν)
    (raced : Bool) : Cache κ ν :=
  if raced then ((cache.put key value).2.remove key).2 else (cache.put key value).2

def afterCommand (r : Resolver) : Command → Resolver
  | .edit (.addPermission role _) => r.invalidateRole role
  | .edit (.removePermission role _) => r.invalidateRole role
  | .edit (.addMember user _) => r.invalidateUser user
  | .edit (.removeMember user _) => r.invalidateUser user
  | .edit (.moveRole role _) => r.invalidateRole role
  | .edit (.deleteRole role) => r.invalidateRole role
  | .edit (.restoreRole role) => r.invalidateRole role
  | .createRole _ => r

def loadFailed (r : Resolver) : Resolver := { r with activity := r.activity.recordLoadError }

/-- Takes in the answer to a request that was made at the given epochs. -/
def absorb (r : Resolver) (asked : Epochs) :
    (request : Request) → Except Error request.Answer → Resolver
  | .loadUser user, .ok found =>
    { r with
      memberships := writeBack r.memberships user (.ofUser found)
        (r.membershipEpoch != asked.memberships) }
  | .loadUser _, .error _ => r.loadFailed
  | .loadRole role, .ok found =>
    { r with
      grants := writeBack r.grants role (.ofRole found) (r.grantEpoch != asked.grants) }
  | .loadRole _, .error _ => r.loadFailed
  | .listPermissions, .ok records => { r with catalog := record r.catalog records }
  | .listPermissions, .error _ => r
  | .createPermission name, .ok id => { r with catalog := r.catalog.insert name id }
  | .createPermission _, .error _ => r
  | .listRoles, _ => r
  | .write command, .ok _ => r.afterCommand command
  | .write _, .error _ => r

end Resolver

/-- A resolver with the directory that it reads. -/
structure System where
  resolver : Resolver
  directory : Directory

namespace System

def perform (s : System) (a : Act) : a.Answer × System :=
  ((s.resolver.perform a).1, { s with resolver := (s.resolver.perform a).2 })

/-- Makes a request and takes in its answer with nothing in between. -/
def request (s : System) (request : Request) : Except Error request.Answer × System :=
  let served := s.directory.serve request
  (served.1, ⟨s.resolver.absorb s.resolver.epochs request served.1, served.2⟩)

/-- Loads roles one after the other with nothing in between. -/
def loadRoles (s : System) : List RoleId → List RoleLoad × System
  | [] => ([], s)
  | role :: roles =>
    let first := s.request (.loadRole role)
    let others := first.2.loadRoles roles
    ((role, first.1) :: others.1, others.2)

end System

namespace Program

variable {α β : Type}

/-- Runs work to its end with nothing in between. -/
def run : Program α → System → α × System
  | .done a, s => (a, s)
  | .act a next, s => (next (s.perform a).1).run (s.perform a).2
  | .ask request next, s => (next (s.request request).1).run (s.request request).2
  | .loadRoles roles next, s => (next (s.loadRoles roles).1).run (s.loadRoles roles).2

theorem run_bind (p : Program α) (f : α → Program β) (s : System) :
    (p >>= f).run s = (f (p.run s).1).run (p.run s).2 := by
  induction p generalizing s with
  | done _ => rfl
  | act _ _ ih => exact ih _ _
  | ask _ _ ih => exact ih _ _
  | loadRoles _ _ ih => exact ih _ _

end Program

end Authorization
