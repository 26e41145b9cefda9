import Authorization.Proofs.Snapshots.Flight

namespace Authorization

namespace Directory

/-- The snapshot that a load of a key takes now. -/
def snapshot? (d : Directory) : (k : Key) → Option k.Snapshot
  | .user user => (d.users.find? user).map .ofUser
  | .role role => (d.roles.find? role).map .ofRole

/-- The identifiers that are still to be given out are greater than those in use. -/
def Numbered (d : Directory) : Prop := ∀ role ∈ d.roles.keys, role ≤ d.lastRole

structure SameRecords (d after : Directory) : Prop where
  users : after.users = d.users
  roles : after.roles = d.roles
  lastRole : after.lastRole = d.lastRole

/-- Two directories that give the same answers to loads. -/
structure Alike (d after : Directory) : Prop extends SameRecords d after where
  available : after.available = d.available
  failingRoles : after.failingRoles = d.failingRoles

theorem SameRecords.symm {d after : Directory} (same : d.SameRecords after) :
    after.SameRecords d :=
  ⟨same.users.symm, same.roles.symm, same.lastRole.symm⟩

theorem SameRecords.trans {d between after : Directory} (first : d.SameRecords between)
    (second : between.SameRecords after) : d.SameRecords after :=
  ⟨second.users.trans first.users, second.roles.trans first.roles,
    second.lastRole.trans first.lastRole⟩

theorem Alike.trans {d between after : Directory} (first : d.Alike between)
    (second : between.Alike after) : d.Alike after where
  toSameRecords := first.toSameRecords.trans second.toSameRecords
  available := second.available.trans first.available
  failingRoles := second.failingRoles.trans first.failingRoles

theorem SameRecords.snapshot? {d after : Directory} (same : d.SameRecords after) (k : Key) :
    after.snapshot? k = d.snapshot? k := by
  cases k with
  | user _ => rw [Directory.snapshot?, Directory.snapshot?, same.users]
  | role _ => rw [Directory.snapshot?, Directory.snapshot?, same.roles]

theorem SameRecords.numbered {d after : Directory} (same : d.SameRecords after)
    (numbered : d.Numbered) : after.Numbered := by
  rw [Numbered, same.roles, same.lastRole]
  exact numbered

theorem findUser_ok {d : Directory} {user : UserId} {found : User}
    (ok : d.findUser user = .ok found) : d.users.find? user = some found := by
  unfold findUser at ok
  split at ok
  · rename_i record there
    cases ok
    exact there
  · cases ok

theorem findRole_ok {d : Directory} {role : RoleId} {found : Role}
    (ok : d.findRole role = .ok found) : d.roles.find? role = some found := by
  unfold findRole at ok
  split at ok
  · cases ok
  · split at ok
    · rename_i record there
      cases ok
      exact there
    · cases ok

theorem serve_unavailable {d : Directory} (down : d.available = false) (request : Request) :
    d.serve request = (.error (.unavailable .markedUnavailable), d) := by
  simp [serve, down]

theorem snapshot?_of_serve {d : Directory} {request : Request} {k : Key} {v : k.Snapshot}
    (brought : request.snapshot? (d.serve request).1 k = some v) : d.snapshot? k = some v := by
  cases up : d.available with
  | false =>
    rw [serve_unavailable up] at brought
    cases request <;> cases k <;> cases brought
  | true =>
    match request, k with
    | .loadUser user, .user x =>
      simp only [serve, up, if_true] at brought
      cases found : d.findUser user with
      | error _ =>
        rw [found] at brought
        cases brought
      | ok record =>
        rw [found, Request.snapshot?] at brought
        split at brought
        · rename_i same
          rw [snapshot?, ← same, findUser_ok found]
          exact brought
        · cases brought
    | .loadRole role, .role x =>
      simp only [serve, up, if_true] at brought
      cases found : d.findRole role with
      | error _ =>
        rw [found] at brought
        cases brought
      | ok record =>
        rw [found, Request.snapshot?] at brought
        split at brought
        · rename_i same
          rw [snapshot?, ← same, findRole_ok found]
          exact brought
        · cases brought
    | .loadUser user, .role _ | .loadRole role, .user _ =>
      cases found : (d.serve _).1 <;> rw [found] at brought <;> cases brought
    | .listPermissions, k | .createPermission _, k | .listRoles, k | .write _, k =>
      cases k <;> cases brought

theorem editRole_ok {d changed : Directory} {role : RoleId} {f : Role → Role}
    (ok : d.editRole role f = .ok changed) :
    d.roles.contains role = true ∧ changed = { d with roles := d.roles.modify role f } := by
  unfold editRole at ok
  split at ok
  · cases ok
    exact ⟨‹_›, rfl⟩
  · cases ok

theorem editUser_ok {d changed : Directory} {user : UserId} {f : User → User}
    (ok : d.editUser user f = .ok changed) :
    d.users.contains user = true ∧ changed = { d with users := d.users.modify user f } := by
  unfold editUser at ok
  split at ok
  · cases ok
    exact ⟨‹_›, rfl⟩
  · cases ok

theorem edit_cases {d changed : Directory} {change : Edit} (ok : d.edit change = .ok changed) :
    (∃ role f, change.key = .role role ∧ d.roles.contains role = true ∧
      changed = { d with roles := d.roles.modify role f }) ∨
    ∃ user f, change.key = .user user ∧ d.users.contains user = true ∧
      changed = { d with users := d.users.modify user f } := by
  cases change with
  | addPermission role _ => exact .inl ⟨role, _, rfl, editRole_ok ok⟩
  | removePermission role _ => exact .inl ⟨role, _, rfl, editRole_ok ok⟩
  | addMember user role =>
    simp only [edit] at ok
    split at ok
    · exact .inr ⟨user, _, rfl, editUser_ok ok⟩
    · cases ok
  | removeMember user _ => exact .inr ⟨user, _, rfl, editUser_ok ok⟩
  | moveRole role owner =>
    simp only [edit] at ok
    split at ok
    · cases ok
    · exact .inl ⟨role, _, rfl, editRole_ok ok⟩
  | deleteRole role => exact .inl ⟨role, _, rfl, editRole_ok ok⟩
  | restoreRole role => exact .inl ⟨role, _, rfl, editRole_ok ok⟩

/-- Identifiers are given out in ascending order. -/
theorem createRole_cases {d changed : Directory} {draft : RoleDraft} {id : RoleId}
    (ok : d.createRole draft = .ok (id, changed)) :
    d.lastRole < id ∧ id.value = d.lastRole.value + 1 ∧ changed =
      { d with
        roles := d.roles.insert id
          ⟨id, draft.owner, draft.name, draft.systemName, .ofList draft.permissions, false⟩
        lastRole := id } := by
  unfold createRole at ok
  split at ok
  · cases ok
  · split at ok
    · cases ok
    · rename_i before
      cases ok
      exact ⟨Id.lt_next before, rfl, rfl⟩

theorem serve_reads (d : Directory) {request : Request} (reads : request.Reads) :
    d.Alike (d.serve request).2 := by
  cases up : d.available with
  | false =>
    rw [serve_unavailable up]
    exact ⟨⟨rfl, rfl, rfl⟩, rfl, rfl⟩
  | true =>
    unfold serve
    rw [if_pos up]
    cases request with
    | write _ => exact reads.elim
    | createPermission name =>
      simp only [createPermission]
      split
      · exact ⟨⟨rfl, rfl, rfl⟩, rfl, rfl⟩
      · split <;> exact ⟨⟨rfl, rfl, rfl⟩, rfl, rfl⟩
    | _ => exact ⟨⟨rfl, rfl, rfl⟩, rfl, rfl⟩

/-- What serving a request does to the records, and the invalidation that it calls for. -/
inductive Served (d : Directory) : Directory → Option Invalidation → Prop where
  | kept {after : Directory} (same : d.SameRecords after) : Served d after none
  | edited {change : Edit} {after : Directory} (ok : d.edit change = .ok after) :
      Served d after (some (.one change.key))
  | created {draft : RoleDraft} {id : RoleId} {after : Directory}
      (ok : d.createRole draft = .ok (id, after)) : Served d after none

theorem serve_served (d : Directory) (request : Request) :
    Served d (d.serve request).2 (request.invalidation? (d.serve request).1) := by
  cases request with
  | write command =>
    cases up : d.available with
    | false =>
      rw [serve_unavailable up]
      cases command <;> exact .kept ⟨rfl, rfl, rfl⟩
    | true =>
      simp only [serve, up, if_true]
      cases command with
      | edit change =>
        cases made : d.edit change with
        | ok changed =>
          simp only [execute, made, Except.map, commit]
          exact .edited made
        | error _ =>
          simp only [execute, made, Except.map, commit]
          exact .kept ⟨rfl, rfl, rfl⟩
      | createRole draft =>
        cases made : d.createRole draft with
        | ok created =>
          simp only [execute, made, commit]
          exact .created made
        | error _ =>
          simp only [execute, made, commit]
          exact .kept ⟨rfl, rfl, rfl⟩
  | _ => exact .kept (d.serve_reads (by trivial)).toSameRecords

theorem created_fresh {d after : Directory} {draft : RoleDraft} {id : RoleId}
    (numbered : d.Numbered) (ok : d.createRole draft = .ok (id, after)) : id ∉ d.roles.keys :=
  fun taken => Std.not_lt.2 (numbered id taken) (createRole_cases ok).1

theorem Served.numbered {d after : Directory} {owed : Option Invalidation} (numbered : d.Numbered)
    (served : Served d after owed) : after.Numbered := by
  cases served with
  | kept same => exact same.numbered numbered
  | edited ok =>
    rcases edit_cases ok with ⟨role, f, _, _, rfl⟩ | ⟨user, f, _, _, rfl⟩
    · rw [Numbered, Table.keys_modify]
      exact numbered
    · exact numbered
  | created ok =>
    obtain ⟨greater, _, rfl⟩ := createRole_cases ok
    intro x member
    rcases Table.mem_keys_insert.1 member with rfl | old
    · exact Std.le_refl _
    · exact Std.le_trans (numbered x old) (Std.le_of_lt greater)

theorem snapshot?_edit {d after : Directory} {change : Edit} {k : Key}
    (ok : d.edit change = .ok after) (other : change.key ≠ k) :
    after.snapshot? k = d.snapshot? k := by
  rcases edit_cases ok with ⟨role, f, key, _, rfl⟩ | ⟨user, f, key, _, rfl⟩
  · cases k with
    | user _ => rfl
    | role x =>
      have other : x ≠ role := fun equal => other (key.trans (congrArg Key.role equal.symm))
      simp [Directory.snapshot?, Table.find?_modify, other]
  · cases k with
    | user x =>
      have other : x ≠ user := fun equal => other (key.trans (congrArg Key.user equal.symm))
      simp [Directory.snapshot?, Table.find?_modify, other]
    | role _ => rfl

/-- A record stays as it is until an edit of it succeeds. -/
theorem Served.snapshot? {d after : Directory} {owed : Option Invalidation} {k : Key}
    {v : k.Snapshot} (numbered : d.Numbered) (served : Served d after owed)
    (there : d.snapshot? k = some v) :
    after.snapshot? k = some v ∨ owed = some (.one k) := by
  cases served with
  | kept same => exact .inl ((same.snapshot? k).trans there)
  | @edited change _ ok =>
    by_cases same : change.key = k
    · exact .inr (by rw [same])
    · exact .inl ((snapshot?_edit ok same).trans there)
  | @created _ id _ ok =>
    left
    have fresh := created_fresh numbered ok
    obtain ⟨_, _, rfl⟩ := createRole_cases ok
    cases k with
    | user _ => exact there
    | role x =>
      obtain ⟨record, found, _⟩ := Option.map_eq_some_iff.1 there
      have present : x ∈ d.roles.keys :=
        Table.contains_iff_mem_keys.1 (Table.contains_iff.2 ⟨record, found⟩)
      have other : x ≠ id := fun equal => fresh (equal ▸ present)
      rw [← there]
      simp [Directory.snapshot?, Table.find?_insert, other]

end Directory

/-- A change of the directory that goes through no resolver. -/
inductive Upkeep where
  | insertUser (user : User)
  | insertRole (role : Role)
  | setAvailable (available : Bool)
  | failRole (role : RoleId)
  | rejectName (name : String)
  | request (request : Request)

def Upkeep.writes : Upkeep → Bool
  | insertUser _ => true
  | insertRole _ => true
  | request (.write _) => true
  | _ => false

namespace Directory

def upkeep (d : Directory) : Upkeep → Directory
  | .insertUser user => d.insertUser user
  | .insertRole role => d.insertRole role
  | .setAvailable available => d.setAvailable available
  | .failRole role => d.failRole role
  | .rejectName name => d.rejectName name
  | .request request => (d.serve request).2

theorem insertRole_numbered {d : Directory} (numbered : d.Numbered) (role : Role) :
    (d.insertRole role).Numbered := by
  intro x member
  unfold insertRole
  dsimp only
  split
  · rename_i greater
    rcases Table.mem_keys_insert.1 member with rfl | old
    · exact Std.le_refl _
    · exact Std.le_trans (numbered x old) (Std.le_of_lt greater)
  · rename_i notGreater
    rcases Table.mem_keys_insert.1 member with rfl | old
    · exact Std.not_lt.1 notGreater
    · exact numbered x old

theorem upkeep_numbered {d : Directory} (numbered : d.Numbered) (change : Upkeep) :
    (d.upkeep change).Numbered := by
  cases change with
  | insertRole role => exact insertRole_numbered numbered role
  | request request => exact (d.serve_served request).numbered numbered
  | _ => exact numbered

/-- A directory as it may be found, whatever was done to it since it was empty. -/
inductive Filled : Directory → Prop where
  | empty : Filled .empty
  | upkeep {d : Directory} (filled : Filled d) (change : Upkeep) : Filled (d.upkeep change)

theorem Filled.numbered {d : Directory} (filled : d.Filled) : d.Numbered := by
  induction filled with
  | empty => exact fun _ member => nomatch member
  | upkeep _ change ih => exact upkeep_numbered ih change

theorem upkeep_records (d : Directory) {change : Upkeep} (harmless : change.writes = false) :
    d.SameRecords (d.upkeep change) := by
  cases change with
  | insertUser _ => cases harmless
  | insertRole _ => cases harmless
  | request request =>
    refine (d.serve_reads ?_).toSameRecords
    cases request with
    | write _ => cases harmless
    | _ => trivial
  | _ => exact ⟨rfl, rfl, rfl⟩

def sample : Directory :=
  (empty.insertUser ⟨⟨1⟩, [⟨7⟩]⟩).insertRole ⟨⟨7⟩, ⟨3⟩, "", "", .ofList ["x"], false⟩

end Directory

end Authorization
