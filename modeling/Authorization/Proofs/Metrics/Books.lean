import Authorization.Proofs.Cache.Conservation
import Authorization.Proofs.Snapshots.Flight
import Mathlib.Algebra.Group.Pi.Basic

namespace Authorization

/-- A counter of a resolver. -/
inductive Meter where
  | totalChecks
  | allowedChecks
  | loadErrors
  | invalidations
  | warmups
  | skippedRoles
  | membershipMisses
  | grantMisses
  deriving DecidableEq

def Meter.read (r : Resolver) : Meter → UInt64
  | totalChecks => r.activity.totalChecks
  | allowedChecks => r.activity.allowedChecks
  | loadErrors => r.activity.loadErrors
  | invalidations => r.activity.invalidations
  | warmups => r.activity.warmups
  | skippedRoles => r.activity.skippedRoles
  | membershipMisses => r.memberships.misses
  | grantMisses => r.grants.misses

/-- A kind of loads that a directory serves. -/
inductive LoadKind where
  | users
  | roles
  | failed
  deriving DecidableEq

def LoadKind.counts :
    LoadKind → (request : Request) → Except Error request.Answer → Bool
  | users, .loadUser _, _ => true
  | roles, .loadRole _, _ => true
  | failed, .loadUser _, .error _ => true
  | failed, .loadRole _, .error _ => true
  | _, _, _ => false

inductive Entry where
  | meter (meter : Meter)
  | load (kind : LoadKind)

/-- What some work has its resolver count, and the loads that it has the directory serve. -/
abbrev Books := Entry → Nat

def Act.booked : (a : Act) → a.Answer → Books
  | .seekMembership _, found, .meter .membershipMisses => if found.isNone then 1 else 0
  | .seekGrant _, found, .meter .grantMisses => if found.isNone then 1 else 0
  | .recordCheck _, _, .meter .totalChecks => 1
  | .recordCheck allowed, _, .meter .allowedChecks => if allowed then 1 else 0
  | .recordWarmup _, _, .meter .warmups => 1
  | .recordWarmup skipped, _, .meter .skippedRoles => skipped
  | _, _, _ => 0

namespace Request

/-- What is booked when the directory serves a request. -/
def charged (request : Request) (given : Except Error request.Answer) : Books
  | .load kind => if kind.counts request given then 1 else 0
  | .meter _ => 0

/-- What is booked when the answer reaches the resolver. -/
def metered : (request : Request) → Except Error request.Answer → Books
  | .loadUser _, .error _, .meter .loadErrors => 1
  | .loadRole _, .error _, .meter .loadErrors => 1
  | .write (.edit _), .ok _, .meter .invalidations => 1
  | _, _, _ => 0

end Request

/-- An invalidation is counted unless it is one of everything. -/
def Invalidation.metered : Invalidation → Meter → Nat
  | .one _, .invalidations => 1
  | _, _ => 0

theorem Act.booked_load (a : Act) (found : a.Answer) (kind : LoadKind) :
    a.booked found (.load kind) = 0 := by
  cases a <;> rfl

theorem Request.metered_load (request : Request) (given : Except Error request.Answer)
    (kind : LoadKind) : request.metered given (.load kind) = 0 := by
  unfold metered
  split <;> simp_all

theorem ofNat_ite (p : Prop) [Decidable p] :
    UInt64.ofNat (if p then 1 else 0) = if p then 1 else 0 := by
  split <;> rfl

namespace Resolver

variable (r : Resolver) (m : Meter)

theorem read_perform (a : Act) :
    m.read (r.perform a).2 = m.read r + .ofNat (a.booked (r.perform a).1 (.meter m)) := by
  cases a with
  | seekMembership user =>
    cases m with
    | membershipMisses =>
      simp only [Act.booked, ofNat_ite]
      exact (r.memberships.counters_get user).2.1
    | _ => exact (UInt64.add_zero _).symm
  | seekGrant role =>
    cases m with
    | grantMisses =>
      simp only [Act.booked, ofNat_ite]
      exact (r.grants.counters_get role).2.1
    | _ => exact (UInt64.add_zero _).symm
  | knowsPermission name => exact (UInt64.add_zero _).symm
  | recordCheck allowed =>
    cases m with
    | totalChecks => rfl
    | allowedChecks =>
      cases allowed with
      | true => rfl
      | false => exact (UInt64.add_zero _).symm
    | _ => exact (UInt64.add_zero _).symm
  | recordWarmup skipped =>
    cases m with
    | warmups | skippedRoles => rfl
    | _ => exact (UInt64.add_zero _).symm

theorem read_invalidate (what : Invalidation) :
    m.read (r.invalidate what) = m.read r + .ofNat (what.metered m) := by
  cases what with
  | all => cases m <;> exact (UInt64.add_zero _).symm
  | one key =>
    cases key with
    | user user =>
      cases m with
      | invalidations => rfl
      | _ => exact (UInt64.add_zero _).symm
    | role role =>
      cases m with
      | invalidations => rfl
      | _ => exact (UInt64.add_zero _).symm

theorem read_loadFailed : m.read r.loadFailed =
    m.read r + .ofNat (if m = .loadErrors then 1 else 0) := by
  cases m with
  | loadErrors => rfl
  | _ => exact (UInt64.add_zero _).symm

theorem misses_writeBack {κ ν : Type} [DecidableEq κ] (cache : Cache κ ν) (key : κ) (value : ν)
    (raced : Bool) : (writeBack cache key value raced).misses = cache.misses := by
  unfold writeBack
  split <;> rfl

theorem read_absorb (asked : Epochs) (request : Request) (given : Except Error request.Answer) :
    m.read (r.absorb asked request given) =
      m.read r + .ofNat (request.metered given (.meter m)) := by
  match request, given with
  | .loadUser user, .ok found =>
    refine .trans ?_ (UInt64.add_zero _).symm
    cases m with
    | membershipMisses => exact misses_writeBack ..
    | _ => rfl
  | .loadRole role, .ok found =>
    refine .trans ?_ (UInt64.add_zero _).symm
    cases m with
    | grantMisses => exact misses_writeBack ..
    | _ => rfl
  | .loadUser user, .error e =>
    refine (r.read_loadFailed m).trans ?_
    cases m <;> rfl
  | .loadRole role, .error e =>
    refine (r.read_loadFailed m).trans ?_
    cases m <;> rfl
  | .write (.edit change), .ok _ =>
    have owed : (Request.write (.edit change)).invalidation? (.ok ()) =
        some (.one change.key) := rfl
    rw [absorb_of_invalidation r asked _ _ owed, read_invalidate]
    cases m <;> rfl
  | .write (.createRole _), .ok _ | .write (.createRole _), .error _ | .write (.edit _), .error _
  | .listPermissions, .ok _ | .listPermissions, .error _ | .createPermission _, .ok _
  | .createPermission _, .error _ | .listRoles, _ => exact (UInt64.add_zero _).symm

/-- One resolver has come of another one by counting what is booked. -/
def Counts (r : Resolver) (b : Books) (s : Resolver) : Prop :=
  ∀ m : Meter, m.read s = m.read r + .ofNat (b (.meter m))

variable {r}

theorem Counts.refl : r.Counts 0 r := fun _ => (UInt64.add_zero _).symm

theorem Counts.trans {s t : Resolver} {b c : Books} (first : r.Counts b s) (second : s.Counts c t) :
    r.Counts (b + c) t := by
  intro m
  rw [second m, first m, Pi.add_apply, UInt64.ofNat_add, UInt64.add_assoc]

end Resolver

end Authorization
