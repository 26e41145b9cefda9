import Authorization.Proofs.Snapshots.Key

namespace Authorization

def Edit.key : Edit → Key
  | .addPermission role _ => .role role
  | .removePermission role _ => .role role
  | .addMember user _ => .user user
  | .removeMember user _ => .user user
  | .moveRole role _ => .role role
  | .deleteRole role => .role role
  | .restoreRole role => .role role

/-- The snapshot of a key that comes with an answer. -/
def Request.snapshot? :
    (request : Request) → Except Error request.Answer → (k : Key) → Option k.Snapshot
  | .loadUser user, .ok found, .user asked => if user = asked then some (.ofUser found) else none
  | .loadRole role, .ok found, .role asked => if role = asked then some (.ofRole found) else none
  | _, _, _ => none

theorem Request.load_of_snapshot? {request : Request} {answer : Except Error request.Answer}
    {k : Key} {v : k.Snapshot} (brought : request.snapshot? answer k = some v) :
    request = k.load := by
  match request, answer, k with
  | .loadUser user, .ok _, .user x =>
    by_cases same : user = x
    · rw [same, Key.load]
    · simp [Request.snapshot?, same] at brought
  | .loadRole role, .ok _, .role x =>
    by_cases same : role = x
    · rw [same, Key.load]
    · simp [Request.snapshot?, same] at brought
  | .loadUser _, .ok _, .role _ | .loadRole _, .ok _, .user _ => cases brought
  | .loadUser _, .error _, k | .loadRole _, .error _, k => cases k <;> cases brought
  | .listPermissions, _, k | .createPermission _, _, k | .listRoles, _, k | .write _, _, k =>
    cases k <;> cases brought

/-- A request that writes neither users nor roles. -/
def Request.Reads : Request → Prop
  | .write _ => False
  | _ => True

theorem Request.reads_load (k : Key) : k.load.Reads := by cases k <;> trivial

/-- The invalidation that follows an answer. -/
def Request.invalidation? : (request : Request) → Except Error request.Answer → Option Invalidation
  | .write (.edit change), .ok _ => some (.one change.key)
  | _, _ => none

namespace Resolver

theorem absorb_of_invalidation (r : Resolver) (asked : Epochs) (request : Request)
    (answer : Except Error request.Answer) {what : Invalidation}
    (owed : request.invalidation? answer = some what) :
    r.absorb asked request answer = r.invalidate what := by
  match request, answer with
  | .write (.edit change), .ok _ =>
    cases owed
    cases change <;> rfl
  | .write (.createRole _), .ok _ => cases owed
  | .write _, .error _ => simp [Request.invalidation?] at owed
  | .loadUser _, _ | .loadRole _, _ | .listPermissions, _ | .createPermission _, _
  | .listRoles, _ => cases owed

theorem epochs_absorb (r : Resolver) (asked : Epochs) (request : Request)
    (answer : Except Error request.Answer) (calm : request.invalidation? answer = none) :
    (r.absorb asked request answer).epochs = r.epochs := by
  match request, answer with
  | .write (.edit _), .ok _ => cases calm
  | .write (.createRole _), .ok _ => rfl
  | .write _, .error _ => rfl
  | .loadUser _, .ok _ | .loadUser _, .error _ => rfl
  | .loadRole _, .ok _ | .loadRole _, .error _ => rfl
  | .listPermissions, .ok _ | .listPermissions, .error _ => rfl
  | .createPermission _, .ok _ | .createPermission _, .error _ => rfl
  | .listRoles, _ => rfl

/-- An entry was there before, or it came with the answer to a load that no invalidation of its
cache has raced. -/
theorem cached?_absorb {r : Resolver} {asked : Epochs} {request : Request}
    {answer : Except Error request.Answer} {k : Key} {v : k.Snapshot}
    (calm : request.invalidation? answer = none)
    (held : (r.absorb asked request answer).cached? k = some v) :
    r.cached? k = some v ∨ (request.snapshot? answer k = some v ∧ r.epochs.of k = asked.of k) := by
  match request, answer, k with
  | .loadUser user, .ok found, .user x =>
    rcases peek?_writeBack held with ⟨_, before⟩ | ⟨same, value, timely⟩
    · exact .inl before
    · refine .inr ⟨?_, by simpa [epochs, Epochs.of] using timely⟩
      rw [Request.snapshot?, if_pos same.symm, value]
  | .loadRole role, .ok found, .role x =>
    rcases peek?_writeBack held with ⟨_, before⟩ | ⟨same, value, timely⟩
    · exact .inl before
    · refine .inr ⟨?_, by simpa [epochs, Epochs.of] using timely⟩
      rw [Request.snapshot?, if_pos same.symm, value]
  | .loadUser _, .ok _, .role _ | .loadRole _, .ok _, .user _ => exact .inl held
  | .loadUser _, .error _, k | .loadRole _, .error _, k => cases k <;> exact .inl held
  | .listPermissions, .ok _, k | .listPermissions, .error _, k => cases k <;> exact .inl held
  | .createPermission _, .ok _, k | .createPermission _, .error _, k =>
    cases k <;> exact .inl held
  | .listRoles, _, _ => exact .inl held
  | .write (.edit _), .ok _, _ => cases calm
  | .write (.createRole _), .ok _, _ => exact .inl held
  | .write _, .error _, _ => exact .inl held

theorem cached?_absorb_raced {r : Resolver} {asked : Epochs} {request : Request}
    {answer : Except Error request.Answer} {k : Key} {v : k.Snapshot}
    (brought : request.snapshot? answer k = some v) (raced : r.epochs.of k ≠ asked.of k) :
    (r.absorb asked request answer).cached? k = none := by
  obtain rfl := Request.load_of_snapshot? brought
  cases answer with
  | error _ => cases k <;> cases brought
  | ok found =>
    cases k with
    | user x =>
      have late : (r.membershipEpoch != asked.memberships) = true := by
        simpa [epochs, Epochs.of] using raced
      simp only [Key.load, absorb, cached?, late]
      exact peek?_writeBack_raced ..
    | role x =>
      have late : (r.grantEpoch != asked.grants) = true := by
        simpa [epochs, Epochs.of] using raced
      simp only [Key.load, absorb, cached?, late]
      exact peek?_writeBack_raced ..

end Resolver

/-- A request under way: the epochs and the moment at which it was made, and its answer once the
directory has served it. -/
structure Flight where
  request : Request
  asked : Epochs
  since : Nat
  answer : Option (Except Error request.Answer)

namespace Flight

def answered (f : Flight) (answer : Except Error f.request.Answer) : Flight :=
  { f with answer := some answer }

/-- The snapshot of a key that a flight brings to its resolver. -/
def snapshot? (f : Flight) (k : Key) : Option k.Snapshot :=
  f.answer.bind fun answer => f.request.snapshot? answer k

theorem load_of_snapshot? {f : Flight} {k : Key} {v : k.Snapshot}
    (brought : f.snapshot? k = some v) : f.request = k.load := by
  obtain ⟨answer, _, brings⟩ := Option.bind_eq_some_iff.1 brought
  exact Request.load_of_snapshot? brings

theorem served_of_snapshot? {f : Flight} {k : Key} {v : k.Snapshot}
    (brought : f.snapshot? k = some v) : f.answer ≠ none := by
  intro unserved
  rw [snapshot?, unserved] at brought
  cases brought

def invalidation? (f : Flight) : Option Invalidation :=
  f.answer.bind f.request.invalidation?

end Flight

def Resolver.receive (r : Resolver) (f : Flight) : Resolver :=
  match f.answer with
  | some answer => r.absorb f.asked f.request answer
  | none => r

namespace Resolver

theorem receive_of_invalidation (r : Resolver) {f : Flight} {what : Invalidation}
    (owed : f.invalidation? = some what) : r.receive f = r.invalidate what := by
  obtain ⟨answer, served, follows⟩ := Option.bind_eq_some_iff.1 owed
  rw [receive, served]
  exact r.absorb_of_invalidation f.asked f.request answer follows

theorem epochs_receive (r : Resolver) {f : Flight} (calm : f.invalidation? = none) :
    (r.receive f).epochs = r.epochs := by
  unfold receive
  split
  · rename_i answer served
    rw [Flight.invalidation?, served] at calm
    exact r.epochs_absorb f.asked f.request answer calm
  · rfl

theorem cached?_receive {r : Resolver} {f : Flight} {k : Key} {v : k.Snapshot}
    (calm : f.invalidation? = none) (held : (r.receive f).cached? k = some v) :
    r.cached? k = some v ∨ (f.snapshot? k = some v ∧ r.epochs.of k = f.asked.of k) := by
  unfold receive at held
  split at held
  · rename_i answer served
    rw [Flight.invalidation?, served] at calm
    rw [Flight.snapshot?, served]
    exact cached?_absorb calm held
  · exact .inl held

theorem cached?_receive_raced {r : Resolver} {f : Flight} {k : Key} {v : k.Snapshot}
    (brought : f.snapshot? k = some v) (raced : r.epochs.of k ≠ f.asked.of k) :
    (r.receive f).cached? k = none := by
  obtain ⟨answer, served, follows⟩ := Option.bind_eq_some_iff.1 brought
  rw [receive, served]
  exact cached?_absorb_raced follows raced

end Resolver

end Authorization
