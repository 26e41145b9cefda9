import Authorization.Resolver.Program

namespace Authorization

/-- What a resolver caches: the membership of a user or the grant of a role. -/
inductive Key where
  | user (user : UserId)
  | role (role : RoleId)
  deriving DecidableEq

abbrev Key.Snapshot : Key → Type
  | user _ => Membership
  | role _ => RoleGrant

def Key.load : Key → Request
  | user u => .loadUser u
  | role x => .loadRole x

theorem Key.load_injective {k x : Key} (same : k.load = x.load) : k = x := by
  cases k <;> cases x <;> cases same <;> rfl

def Epochs.of (epochs : Epochs) : Key → UInt64
  | .user _ => epochs.memberships
  | .role _ => epochs.grants

inductive Invalidation where
  | one (key : Key)
  | all
  deriving DecidableEq

namespace Invalidation

def Hits (what : Invalidation) (k : Key) : Prop := what = one k ∨ what = all

instance (what : Invalidation) (k : Key) : Decidable (what.Hits k) :=
  inferInstanceAs (Decidable (_ ∨ _))

def raises : Invalidation → Key → Bool
  | one (.user _), .user _ => true
  | one (.role _), .role _ => true
  | one _, _ => false
  | all, _ => true

theorem raises_of_hits {what : Invalidation} {k : Key} (hit : what.Hits k) :
    what.raises k = true := by
  rcases hit with rfl | rfl <;> cases k <;> rfl

end Invalidation

namespace Resolver

def cached? (r : Resolver) : (k : Key) → Option k.Snapshot
  | .user user => r.memberships.peek? user
  | .role role => r.grants.peek? role

def invalidate (r : Resolver) : Invalidation → Resolver
  | .one (.user user) => r.invalidateUser user
  | .one (.role role) => r.invalidateRole role
  | .all => r.invalidateAll

/-- Two resolvers with the same entries, in whatever order of recency, the same epochs and the same
catalog. -/
structure Agrees (r s : Resolver) : Prop where
  cached (k : Key) : r.cached? k = s.cached? k
  epochs : r.epochs = s.epochs
  catalog : r.catalog = s.catalog

theorem Agrees.refl (r : Resolver) : r.Agrees r := ⟨fun _ => rfl, rfl, rfl⟩

theorem Agrees.trans {r s t : Resolver} (left : r.Agrees s) (right : s.Agrees t) : r.Agrees t :=
  ⟨fun k => (left.cached k).trans (right.cached k), left.epochs.trans right.epochs,
    left.catalog.trans right.catalog⟩

theorem build_ok {config : Config} {projection : Option Projection} {r : Resolver}
    (built : build config projection = .ok r) :
    r = ⟨config, projection, .new config.membershipCacheSize.toNat,
      .new config.permissionCacheSize.toNat, 0, 0, .empty, .none⟩ := by
  unfold build at built
  cases valid : config.validate with
  | error e =>
    rw [valid] at built
    cases built
  | ok _ =>
    rw [valid] at built
    cases built
    rfl

theorem cached?_build {config : Config} {projection : Option Projection} {r : Resolver}
    (built : build config projection = .ok r) (k : Key) : r.cached? k = none := by
  obtain rfl := build_ok built
  cases k <;> rfl

theorem catalog_build {config : Config} {projection : Option Projection} {r : Resolver}
    (built : build config projection = .ok r) : r.catalog = .empty := by
  obtain rfl := build_ok built
  rfl

theorem cached?_invalidate (r : Resolver) (what : Invalidation) (k : Key) :
    (r.invalidate what).cached? k = if what.Hits k then none else r.cached? k := by
  cases what with
  | all =>
    cases k <;> simp [invalidate, invalidateAll, cached?, Invalidation.Hits, Cache.peek?_clear]
  | one key =>
    cases key <;> cases k <;>
      simp [invalidate, invalidateUser, invalidateRole, cached?, Invalidation.Hits,
        Cache.peek?_remove, eq_comm]

theorem epochs_invalidate (r : Resolver) (what : Invalidation) (k : Key) :
    (r.invalidate what).epochs.of k = r.epochs.of k + if what.raises k then 1 else 0 := by
  cases what with
  | all => cases k <;> rfl
  | one key =>
    cases key <;> cases k <;>
      simp [invalidate, invalidateUser, invalidateRole, epochs, Epochs.of, Invalidation.raises]

theorem catalog_invalidate (r : Resolver) (what : Invalidation) :
    (r.invalidate what).catalog = r.catalog := by
  cases what with
  | all => rfl
  | one key => cases key <;> rfl

/-- What a resolver does by itself changes the recency of its entries, not the entries. -/
theorem perform_agrees (r : Resolver) (a : Act) : (r.perform a).2.Agrees r := by
  cases a with
  | seekMembership user =>
    have same (k : Key) : (r.perform (.seekMembership user)).2.cached? k = r.cached? k := by
      cases k with
      | user x => exact Cache.peek?_get r.memberships user x
      | role _ => rfl
    exact ⟨same, rfl, rfl⟩
  | seekGrant role =>
    have same (k : Key) : (r.perform (.seekGrant role)).2.cached? k = r.cached? k := by
      cases k with
      | user _ => rfl
      | role x => exact Cache.peek?_get r.grants role x
    exact ⟨same, rfl, rfl⟩
  | knowsPermission _ => exact .refl r
  | recordCheck _ => exact ⟨fun k => by cases k <;> rfl, rfl, rfl⟩
  | recordWarmup _ => exact ⟨fun k => by cases k <;> rfl, rfl, rfl⟩

/-- A write-back leaves the values of the other keys as they were, though it may displace some. -/
theorem peek?_writeBack {κ ν : Type} [DecidableEq κ] {cache : Cache κ ν} {key x : κ} {value v : ν}
    {raced : Bool} (held : (writeBack cache key value raced).peek? x = some v) :
    (x ≠ key ∧ cache.peek? x = some v) ∨ (x = key ∧ value = v ∧ raced = false) := by
  unfold writeBack at held
  cases raced with
  | true =>
    rw [if_pos rfl, Cache.peek?_remove] at held
    by_cases same : x = key
    · simp [same] at held
    · rw [if_neg same, Cache.peek?_put, if_neg same] at held
      split at held
      · exact .inl ⟨same, held⟩
      · cases held
  | false =>
    rw [if_neg Bool.false_ne_true, Cache.peek?_put] at held
    split at held
    · by_cases same : x = key
      · rw [if_pos same] at held
        exact .inr ⟨same, Option.some.inj held, rfl⟩
      · rw [if_neg same] at held
        exact .inl ⟨same, held⟩
    · cases held

theorem peek?_writeBack_raced {κ ν : Type} [DecidableEq κ] (cache : Cache κ ν) (key : κ)
    (value : ν) : (writeBack cache key value true).peek? key = none := by
  rw [writeBack, if_pos rfl, Cache.peek?_remove, if_pos rfl]

def sample : Resolver := ⟨⟨1, 1, false, []⟩, none, .new 1, .new 1, 0, 0, .empty, .none⟩

theorem build_sample : build ⟨1, 1, false, []⟩ none = .ok sample := rfl

end Resolver

end Authorization
