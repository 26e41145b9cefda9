import Authorization.Proofs.Cache.History
import Authorization.Proofs.Catalog.Growth
import Authorization.Proofs.Queries.Call

namespace Authorization

@[ext] structure CacheCounts where
  hits : UInt64
  misses : UInt64
  evictions : UInt64

/-- Everything that a resolver counts. -/
@[ext] structure Counters where
  memberships : CacheCounts
  grants : CacheCounts
  activity : Activity

/-- What a resolver has counted up to some moment. -/
structure Carried where
  epochs : Epochs
  counters : Counters

instance : Add Epochs := ⟨fun a b => ⟨a.memberships + b.memberships, a.grants + b.grants⟩⟩

instance : Add CacheCounts :=
  ⟨fun a b => ⟨a.hits + b.hits, a.misses + b.misses, a.evictions + b.evictions⟩⟩

instance : Sub CacheCounts :=
  ⟨fun a b => ⟨a.hits - b.hits, a.misses - b.misses, a.evictions - b.evictions⟩⟩

instance : Add Activity :=
  ⟨fun a b => ⟨a.totalChecks + b.totalChecks, a.allowedChecks + b.allowedChecks,
    a.loadErrors + b.loadErrors, a.invalidations + b.invalidations, a.warmups + b.warmups,
    a.skippedRoles + b.skippedRoles⟩⟩

instance : Sub Activity :=
  ⟨fun a b => ⟨a.totalChecks - b.totalChecks, a.allowedChecks - b.allowedChecks,
    a.loadErrors - b.loadErrors, a.invalidations - b.invalidations, a.warmups - b.warmups,
    a.skippedRoles - b.skippedRoles⟩⟩

instance : Add Counters :=
  ⟨fun a b => ⟨a.memberships + b.memberships, a.grants + b.grants, a.activity + b.activity⟩⟩

instance : Sub Counters :=
  ⟨fun a b => ⟨a.memberships - b.memberships, a.grants - b.grants, a.activity - b.activity⟩⟩

theorem add_sub_add_right (a b c : UInt64) : (a + c) - (b + c) = a - b := by grind

theorem add_right_comm (a b c : UInt64) : a + b + c = a + c + b := by grind

theorem CacheCounts.add_sub_add (a b c : CacheCounts) : (a + c) - (b + c) = a - b := by
  ext1 <;> exact add_sub_add_right ..

theorem Activity.add_sub_add (a b c : Activity) : (a + c) - (b + c) = a - b := by
  simp only [HAdd.hAdd, HSub.hSub, Add.add, Sub.sub, Activity.mk.injEq]
  exact ⟨add_sub_add_right .., add_sub_add_right .., add_sub_add_right .., add_sub_add_right ..,
    add_sub_add_right .., add_sub_add_right ..⟩

theorem Counters.add_sub_add (a b c : Counters) : (a + c) - (b + c) = a - b := by
  ext1
  · exact CacheCounts.add_sub_add ..
  · exact CacheCounts.add_sub_add ..
  · exact Activity.add_sub_add ..

namespace Cache

variable {κ ν : Type}

def counts (c : Cache κ ν) : CacheCounts := ⟨c.hits, c.misses, c.evictions⟩

/-- A cache that has counted some more. -/
def carry (c : Cache κ ν) (more : CacheCounts) : Cache κ ν :=
  { c with
    hits := c.hits + more.hits
    misses := c.misses + more.misses
    evictions := c.evictions + more.evictions }

variable [DecidableEq κ] (c : Cache κ ν) (more : CacheCounts) (k : κ)

theorem get_carry : (c.carry more).get k = ((c.get k).1, (c.get k).2.carry more) := by
  have same : (c.carry more).peek? k = c.peek? k := rfl
  unfold get
  rw [same]
  split
  · simp only [carry, add_right_comm]
  · simp only [carry, add_right_comm]

theorem put_carry (v : ν) : (c.carry more).put k v = ((c.put k v).1, (c.put k v).2.carry more) := by
  have same : (c.carry more).contains k = c.contains k := rfl
  have pushed : (c.carry more).push k v = ((c.push k v).1, (c.push k v).2.carry more) := rfl
  simp only [put, same, pushed]
  split
  · simp only [carry, add_right_comm]
  · rfl

theorem remove_carry : (c.carry more).remove k = ((c.remove k).1, (c.remove k).2.carry more) := rfl

end Cache

namespace Activity

variable (a more : Activity)

theorem recordCheck_add (allowed : Bool) :
    (a + more).recordCheck allowed = a.recordCheck allowed + more := by
  have total : a.totalChecks + more.totalChecks + 1 = a.totalChecks + 1 + more.totalChecks :=
    add_right_comm ..
  cases allowed with
  | true =>
    exact congrArg₂ (fun total allowed => { a + more with
      totalChecks := total
      allowedChecks := allowed }) total (add_right_comm ..)
  | false => exact congrArg (fun total => { a + more with totalChecks := total }) total

theorem recordWarmup_add (skipped : Nat) :
    (a + more).recordWarmup skipped = a.recordWarmup skipped + more :=
  congrArg₂ (fun warmups skipped => { a + more with warmups, skippedRoles := skipped })
    (add_right_comm ..) (add_right_comm ..)

theorem recordLoadError_add : (a + more).recordLoadError = a.recordLoadError + more :=
  congrArg (fun errors => { a + more with loadErrors := errors }) (add_right_comm ..)

theorem recordInvalidation_add : (a + more).recordInvalidation = a.recordInvalidation + more :=
  congrArg (fun invalidations => { a + more with invalidations }) (add_right_comm ..)

end Activity

namespace Resolver

def counters (r : Resolver) : Counters := ⟨r.memberships.counts, r.grants.counts, r.activity⟩

/-- A resolver that has counted some more and has another catalog. -/
def carry (r : Resolver) (more : Carried) (catalog : Table String PermissionId) : Resolver :=
  { r with
    memberships := r.memberships.carry more.counters.memberships
    grants := r.grants.carry more.counters.grants
    membershipEpoch := r.membershipEpoch + more.epochs.memberships
    grantEpoch := r.grantEpoch + more.epochs.grants
    catalog
    activity := r.activity + more.counters.activity }

variable (r : Resolver) (more : Carried) (catalog : Table String PermissionId)

theorem counters_carry : (r.carry more catalog).counters = r.counters + more.counters := rfl

theorem epochs_carry : (r.carry more catalog).epochs = r.epochs + more.epochs := rfl

/-- The catalog is consulted by one act only. -/
theorem perform_carry {a : Act} (same : ∀ name, a = .knowsPermission name → catalog = r.catalog) :
    (r.carry more catalog).perform a =
      ((r.perform a).1, (r.perform a).2.carry more catalog) := by
  cases a with
  | seekMembership user => simp only [perform, carry, Cache.get_carry]
  | seekGrant role => simp only [perform, carry, Cache.get_carry]
  | knowsPermission name =>
    have known : catalog.contains name = r.catalog.contains name := by rw [same name rfl]
    exact Prod.ext known rfl
  | recordCheck allowed => simp only [perform, carry, Activity.recordCheck_add]
  | recordWarmup skipped => simp only [perform, carry, Activity.recordWarmup_add]

theorem invalidate_carry (what : Invalidation) :
    (r.carry more catalog).invalidate what = (r.invalidate what).carry more catalog := by
  cases what with
  | one key =>
    cases key with
    | user user =>
      simp only [invalidate, invalidateUser, carry, Cache.remove_carry, add_right_comm,
        Activity.recordInvalidation_add]
    | role role =>
      simp only [invalidate, invalidateRole, carry, Cache.remove_carry, add_right_comm,
        Activity.recordInvalidation_add]
  | all =>
    simp only [invalidate, invalidateAll, carry, add_right_comm]
    rfl

theorem writeBack_carry {κ ν : Type} [DecidableEq κ] (cache : Cache κ ν) (more : CacheCounts)
    (key : κ) (value : ν) (raced : Bool) : writeBack (cache.carry more) key value raced =
      (writeBack cache key value raced).carry more := by
  unfold writeBack
  rw [Cache.put_carry]
  split <;> rfl

theorem capacity_writeBack {κ ν : Type} [DecidableEq κ] (cache : Cache κ ν) (key : κ) (value : ν)
    (raced : Bool) : (writeBack cache key value raced).capacity = cache.capacity := by
  unfold writeBack
  split <;> rfl

theorem raced_carry (a b c : UInt64) : (a + c != b + c) = (a != b) := by
  rw [Bool.eq_iff_iff, bne_iff_ne, bne_iff_ne, ne_eq, UInt64.add_left_inj]

theorem loadFailed_carry : (r.carry more catalog).loadFailed = r.loadFailed.carry more catalog := by
  simp only [loadFailed, carry, Activity.recordLoadError_add]

/-- What is carried over from before makes no difference to what becomes of an answer, as long as
the load was begun with it. -/
theorem absorb_carry {request : Request} {asked askedToo : Epochs}
    (timed : ∀ k : Key, request = k.load → asked = askedToo + more.epochs)
    (given : Except Error request.Answer) :
    (r.carry more catalog).absorb asked request given =
      (r.absorb askedToo request given).carry more (record catalog (request.records given)) := by
  cases request with
  | loadUser user =>
    cases given with
    | ok found =>
      obtain rfl := timed (.user user) rfl
      have raced : ((r.carry more catalog).membershipEpoch !=
          (askedToo + more.epochs).memberships) = (r.membershipEpoch != askedToo.memberships) :=
        raced_carry ..
      simp only [absorb, raced]
      simp only [carry, writeBack_carry]
      rfl
    | error _ => exact loadFailed_carry ..
  | loadRole role =>
    cases given with
    | ok found =>
      obtain rfl := timed (.role role) rfl
      have raced : ((r.carry more catalog).grantEpoch != (askedToo + more.epochs).grants) =
          (r.grantEpoch != askedToo.grants) :=
        raced_carry ..
      simp only [absorb, raced]
      simp only [carry, writeBack_carry]
      rfl
    | error _ => exact loadFailed_carry ..
  | write command =>
    cases given with
    | ok _ =>
      cases command with
      | edit change =>
        have owed : (Request.write (.edit change)).invalidation? (.ok ()) =
            some (.one change.key) := rfl
        rw [absorb_of_invalidation _ asked _ _ owed, absorb_of_invalidation r askedToo _ _ owed]
        exact r.invalidate_carry more catalog (.one change.key)
      | createRole _ => rfl
    | error _ => rfl
  | listPermissions => cases given <;> rfl
  | createPermission _ => cases given <;> rfl
  | listRoles => rfl

theorem program_carry (call : Call) :
    call.program (r.carry more catalog) = call.program r := by
  cases call <;> rfl

/-- What a resolver is built with. -/
def settings (r : Resolver) : Config × Option Projection × Nat × Nat :=
  (r.config, r.projection, r.memberships.capacity, r.grants.capacity)

theorem settings_perform (a : Act) : (r.perform a).2.settings = r.settings := by
  cases a with
  | seekMembership user =>
    exact congrArg (fun capacity => (r.config, r.projection, capacity, r.grants.capacity))
      (r.memberships.capacity_apply (.get user))
  | seekGrant role =>
    exact congrArg (fun capacity => (r.config, r.projection, r.memberships.capacity, capacity))
      (r.grants.capacity_apply (.get role))
  | _ => rfl

theorem settings_invalidate (what : Invalidation) : (r.invalidate what).settings = r.settings := by
  match what with
  | .one (.user _) | .one (.role _) | .all => rfl

theorem settings_absorb (asked : Epochs) (request : Request)
    (given : Except Error request.Answer) :
    (r.absorb asked request given).settings = r.settings := by
  match request, given with
  | .loadUser _, .ok _ => simp only [absorb, settings, capacity_writeBack]
  | .loadRole _, .ok _ => simp only [absorb, settings, capacity_writeBack]
  | .write (.edit change), .ok _ =>
    have owed : (Request.write (.edit change)).invalidation? (.ok ()) =
        some (.one change.key) := rfl
    rw [absorb_of_invalidation r asked _ _ owed, settings_invalidate]
  | .write (.createRole _), .ok _ | .write _, .error _ => rfl
  | .loadUser _, .error _ | .loadRole _, .error _ => rfl
  | .listPermissions, .ok _ | .listPermissions, .error _ => rfl
  | .createPermission _, .ok _ | .createPermission _, .error _ => rfl
  | .listRoles, _ => rfl

end Resolver

end Authorization
