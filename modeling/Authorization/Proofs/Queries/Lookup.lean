import Authorization.Proofs.Queries.Listing

namespace Authorization

namespace Key

/-- The snapshot that comes with the answer to a load. -/
def taken : (k : Key) → Except Error k.load.Answer → Except Error k.Snapshot
  | .user _, given => given.map .ofUser
  | .role _, given => given.map .ofRole

theorem taken_error_iff {k : Key} {given : Except Error k.load.Answer} {e : Error} :
    k.taken given = .error e ↔ given = .error e := by
  cases k <;> cases given <;> simp [taken, Except.map]

end Key

namespace Resolver

/-- A key that is found in its cache becomes the most recently used one. -/
def used (r : Resolver) : Key → Resolver
  | .user user => { r with memberships := (r.memberships.get user).2 }
  | .role role => { r with grants := (r.grants.get role).2 }

def missed (r : Resolver) : Key → Resolver
  | .user _ => { r with memberships := { r.memberships with misses := r.memberships.misses + 1 } }
  | .role _ => { r with grants := { r.grants with misses := r.grants.misses + 1 } }

def keep (r : Resolver) : (k : Key) → k.Snapshot → Resolver
  | .user user, m => { r with memberships := (r.memberships.put user m).2 }
  | .role role, g => { r with grants := (r.grants.put role g).2 }

variable (r : Resolver) (k : Key)

theorem cached?_used : (r.used k).cached? k = r.cached? k := by
  cases k <;> exact Cache.peek?_get ..

theorem cached?_missed : (r.missed k).cached? k = r.cached? k := by
  cases k <;> rfl

theorem cached?_keep (v : k.Snapshot) : (r.keep k v).cached? k = some v := by
  cases k <;> exact Cache.peek?_put_self ..

theorem activity_used : (r.used k).activity = r.activity := by
  cases k <;> rfl

theorem activity_missed : (r.missed k).activity = r.activity := by
  cases k <;> rfl

theorem activity_keep (v : k.Snapshot) : (r.keep k v).activity = r.activity := by
  cases k <;> rfl

/-- A load that nothing has raced is kept. -/
theorem absorb_taken {given : Except Error k.load.Answer} {v : k.Snapshot}
    (taken : k.taken given = .ok v) : r.absorb r.epochs k.load given = r.keep k v := by
  cases k <;> cases given <;> simp [Key.taken, Except.map] at taken <;> subst taken <;>
    simp [Key.load, absorb, keep, writeBack, epochs]

theorem absorb_refused {asked : Epochs} {given : Except Error k.load.Answer} {e : Error}
    (refused : given = .error e) : r.absorb asked k.load given = r.loadFailed := by
  subst refused
  cases k <;> rfl

end Resolver

namespace System

/-- Loads a key with nothing in between, whether or not it is cached. -/
def load (s : System) (k : Key) : Except Error k.Snapshot × System :=
  match k.taken (s.directory.serve k.load).1 with
  | .ok v => (.ok v, ⟨s.resolver.keep k v, (s.directory.serve k.load).2⟩)
  | .error e => (.error e, ⟨s.resolver.loadFailed, (s.directory.serve k.load).2⟩)

/-- Resolves a key with nothing in between: a snapshot that is cached is used, any other is
loaded. -/
def lookUp (s : System) (k : Key) : Except Error k.Snapshot × System :=
  match s.resolver.cached? k with
  | some v => (.ok v, ⟨s.resolver.used k, s.directory⟩)
  | none => load ⟨s.resolver.missed k, s.directory⟩ k

def lookedUp (s : System) (keys : List Key) : System := keys.foldl (fun s k => (s.lookUp k).2) s

/-- Some keys can be resolved, one after the other. -/
def Resolves (s : System) : List Key → Prop
  | [] => True
  | k :: keys => (∃ v, (s.lookUp k).1 = .ok v) ∧ (s.lookUp k).2.Resolves keys

/-- A key is not cached, and the directory answers a load of it with an error. -/
def Fails (s : System) (k : Key) (e : Error) : Prop :=
  s.resolver.cached? k = none ∧ (s.directory.serve k.load).1 = .error e

def failed (s : System) (k : Key) : System :=
  ⟨(s.resolver.missed k).loadFailed, (s.directory.serve k.load).2⟩

section

variable {s : System} {k : Key} {e : Error}

theorem lookUp_of_fails (fails : s.Fails k e) : s.lookUp k = (.error e, s.failed k) := by
  have refused := Key.taken_error_iff.2 fails.2
  rw [lookUp, fails.1]
  simp only [load, refused]
  rfl

theorem fails_of_lookUp (failed : (s.lookUp k).1 = .error e) : s.Fails k e := by
  unfold lookUp at failed
  split at failed
  · cases failed
  · rename_i missing
    unfold load at failed
    split at failed
    · cases failed
    · rename_i refused
      cases failed
      exact ⟨missing, Key.taken_error_iff.1 refused⟩

theorem lookUp_ok {v : k.Snapshot} (found : (s.lookUp k).1 = .ok v) :
    (s.lookUp k).2.resolver.cached? k = some v ∧
      (s.lookUp k).2.resolver.activity = s.resolver.activity := by
  unfold lookUp at found ⊢
  split at found
  · rename_i held
    cases found
    exact ⟨(Resolver.cached?_used ..).trans held, Resolver.activity_used ..⟩
  · unfold load at found ⊢
    split at found
    · cases found
      exact ⟨Resolver.cached?_keep ..,
        (Resolver.activity_keep ..).trans (Resolver.activity_missed ..)⟩
    · cases found

theorem Resolves.activity {keys : List Key} (resolves : s.Resolves keys) :
    (s.lookedUp keys).resolver.activity = s.resolver.activity := by
  induction keys generalizing s with
  | nil => rfl
  | cons k keys ih =>
    obtain ⟨⟨v, found⟩, others⟩ := resolves
    exact (ih others).trans (lookUp_ok found).2

theorem Resolves.cached? {front back : List Key} (resolves : s.Resolves (front ++ k :: back)) :
    ∃ v, ((s.lookedUp front).lookUp k).1 = .ok v ∧
      (s.lookedUp (front ++ [k])).resolver.cached? k = some v := by
  induction front generalizing s with
  | nil =>
    obtain ⟨⟨v, found⟩, _⟩ := resolves
    exact ⟨v, found, (lookUp_ok found).1⟩
  | cons first front ih => exact ih resolves.2

end

variable (s : System) (k : Key)

theorem request_load : s.request k.load = ((s.directory.serve k.load).1, (s.load k).2) := by
  simp only [load, System.request]
  cases taken : k.taken (s.directory.serve k.load).1 with
  | ok v => rw [Resolver.absorb_taken _ _ taken]
  | error e => rw [Resolver.absorb_refused _ _ (Key.taken_error_iff.1 taken)]

end System

namespace Query

variable (s : System)

theorem ask_load_run {k : Key} (snapshot : k.load.Answer → k.Snapshot)
    (taken : ∀ given, k.taken given = given.map snapshot) :
    (ask k.load >>= fun found => pure (snapshot found)).run.run s = s.load k := by
  have asked : (ask k.load).run.run s = ((s.directory.serve k.load).1, (s.load k).2) :=
    s.request_load k
  cases served : (s.directory.serve k.load).1 with
  | ok found =>
    rw [served] at asked
    rw [run_bind_ok asked]
    simp only [System.load, taken, served]
    rfl
  | error e =>
    rw [served] at asked
    rw [run_bind_error asked]
    simp only [System.load, taken, served]
    rfl

theorem seekMembership_run (user : UserId) : (perform (.seekMembership user)).run.run s =
    (.ok (s.resolver.cached? (.user user)), ⟨s.resolver.used (.user user), s.directory⟩) :=
  Prod.ext (congrArg Except.ok (Cache.fst_get ..)) rfl

theorem seekGrant_run (role : RoleId) : (perform (.seekGrant role)).run.run s =
    (.ok (s.resolver.cached? (.role role)), ⟨s.resolver.used (.role role), s.directory⟩) :=
  Prod.ext (congrArg Except.ok (Cache.fst_get ..)) rfl

theorem membership_run (user : UserId) :
    (membership user).run.run s = s.lookUp (.user user) := by
  rw [membership, run_bind_ok (seekMembership_run s user), System.lookUp]
  cases held : s.resolver.cached? (.user user) with
  | some m => rfl
  | none =>
    have missed : s.resolver.used (.user user) = s.resolver.missed (.user user) :=
      congrArg (fun c => { s.resolver with memberships := c }) (Cache.snd_get_of_absent held)
    rw [missed]
    exact ask_load_run (k := .user user) _ .ofUser fun _ => rfl

theorem roleGrant_run (role : RoleId) :
    (roleGrant role).run.run s = s.lookUp (.role role) := by
  rw [roleGrant, run_bind_ok (seekGrant_run s role), System.lookUp]
  cases held : s.resolver.cached? (.role role) with
  | some g => rfl
  | none =>
    have missed : s.resolver.used (.role role) = s.resolver.missed (.role role) :=
      congrArg (fun c => { s.resolver with grants := c }) (Cache.snd_get_of_absent held)
    rw [missed]
    exact ask_load_run (k := .role role) _ .ofRole fun _ => rfl

end Query

end Authorization
