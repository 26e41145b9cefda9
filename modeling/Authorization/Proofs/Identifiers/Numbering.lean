import Authorization.Proofs.Catalog.Growth
import Authorization.Proofs.Snapshots.Effect

namespace Authorization

theorem Table.perm_insertSorted {κ ν : Type} [LT κ] [DecidableLT κ] [LE κ]
    [Std.LawfulOrderLT κ] [Std.IsLinearOrder κ] {k : κ} {es : List (κ × ν)}
    (absent : k ∉ es.map (·.1)) (v : ν) : (insertSorted k v es).Perm ((k, v) :: es) := by
  induction es with
  | nil => exact .refl _
  | cons e es ih =>
    rw [List.map_cons, List.mem_cons, not_or] at absent
    unfold insertSorted
    split
    · exact .refl _
    · split
      · exact ((ih absent.2).cons e).trans (.swap _ _ es)
      · rename_i notBelow notAbove
        exact absurd (Std.le_antisymm (Std.not_lt.1 notAbove) (Std.not_lt.1 notBelow)) absent.1

theorem Id.toInt_succ {kind : Kind} {a b : Id kind} (next : b.value = a.value + 1)
    (growing : a ≤ b) : b.value.toInt = a.value.toInt + 1 := by
  have below : a.value.toInt ≤ b.value.toInt := Int64.le_iff_toInt_le.1 growing
  have sum := Int64.toInt_add a.value 1
  rw [← next] at sum
  have lower := a.value.le_toInt
  have upper := a.value.toInt_lt
  have one : (1 : Int64).toInt = 1 := rfl
  rw [one, Int.bmod_def] at sum
  omega

namespace Directory

/-- Users and roles are on record under their own identifiers. -/
structure OwnIds (d : Directory) : Prop where
  users : ∀ user record, d.users.find? user = some record → record.id = user
  roles : ∀ role record, d.roles.find? role = some record → record.id = role

def permissionIds (d : Directory) : List PermissionId := d.permissions.entries.map (·.2)

/-- The identifiers of permissions are the numbers from one up to the last one given out. -/
structure Consecutive (d : Directory) : Prop where
  nodup : d.permissionIds.Nodup
  mem_iff (id : PermissionId) : id ∈ d.permissionIds ↔
    1 ≤ id.value.toInt ∧ id.value.toInt ≤ d.lastPermission.value.toInt
  last : d.lastPermission.value.toInt = d.permissions.size

variable {d after : Directory}

theorem OwnIds.editRole {role : RoleId} {f : Role → Role} (own : d.OwnIds)
    (ok : d.editRole role f = .ok after) (keeps : ∀ record, (f record).id = record.id) :
    after.OwnIds := by
  obtain ⟨_, rfl⟩ := editRole_ok ok
  refine ⟨own.users, fun x record found => ?_⟩
  dsimp only at found
  rw [Table.find?_modify] at found
  split at found
  · obtain ⟨old, there, rfl⟩ := Option.map_eq_some_iff.1 found
    rw [keeps, own.roles x old there]
  · exact own.roles x record found

theorem OwnIds.editUser {user : UserId} {f : User → User} (own : d.OwnIds)
    (ok : d.editUser user f = .ok after) (keeps : ∀ record, (f record).id = record.id) :
    after.OwnIds := by
  obtain ⟨_, rfl⟩ := editUser_ok ok
  refine ⟨fun x record found => ?_, own.roles⟩
  dsimp only at found
  rw [Table.find?_modify] at found
  split at found
  · obtain ⟨old, there, rfl⟩ := Option.map_eq_some_iff.1 found
    rw [keeps, own.users x old there]
  · exact own.users x record found

theorem OwnIds.edit {change : Edit} (own : d.OwnIds) (ok : d.edit change = .ok after) :
    after.OwnIds := by
  cases change with
  | addMember _ role =>
    have keeps (record : User) : (record.withRole role).id = record.id := by
      unfold User.withRole
      split <;> rfl
    exact own.editUser (addMember_ok ok).2 keeps
  | removeMember _ _ => exact own.editUser ok fun _ => rfl
  | moveRole _ _ => exact own.editRole (moveRole_ok ok) fun _ => rfl
  | _ => exact own.editRole ok fun _ => rfl

theorem OwnIds.createRole {draft : RoleDraft} {id : RoleId} (own : d.OwnIds)
    (ok : d.createRole draft = .ok (id, after)) : after.OwnIds := by
  obtain ⟨_, _, rfl⟩ := createRole_cases ok
  refine ⟨own.users, fun x record found => ?_⟩
  dsimp only at found
  rw [Table.find?_insert] at found
  split at found
  · rename_i same
    cases found
    exact same.symm
  · exact own.roles x record found

namespace Served

variable {owed : Option Invalidation}

theorem ownIds (served : Served d after owed) (own : d.OwnIds) : after.OwnIds := by
  cases served with
  | kept same => exact ⟨same.users ▸ own.users, same.roles ▸ own.roles⟩
  | edited ok => exact own.edit ok
  | created ok => exact own.createRole ok

theorem closed (served : Served d after owed) (closed : d.Closed) : after.Closed := by
  cases served with
  | kept same =>
    rw [Closed, same.users, same.roles]
    exact closed
  | edited ok => exact closed.edit ok
  | created ok => exact closed.createRole ok

theorem keys_subset (served : Served d after owed) :
    d.users.keys ⊆ after.users.keys ∧ d.roles.keys ⊆ after.roles.keys := by
  cases served with
  | kept same =>
    rw [same.users, same.roles]
    exact ⟨fun _ => id, fun _ => id⟩
  | edited ok =>
    rw [users_keys_of_edit ok, roles_keys_of_edit ok]
    exact ⟨fun _ => id, fun _ => id⟩
  | created ok =>
    obtain ⟨_, _, rfl⟩ := createRole_cases ok
    exact ⟨fun _ => id, fun _ member => Table.mem_keys_insert.2 (.inr member)⟩

end Served

theorem upkeep_ownIds (own : d.OwnIds) (change : Upkeep) : (d.upkeep change).OwnIds := by
  cases change with
  | insertUser user =>
    refine ⟨fun x record found => ?_, own.roles⟩
    rw [upkeep, insertUser, Table.find?_insert] at found
    split at found
    · rename_i same
      cases found
      exact same.symm
    · exact own.users x record found
  | insertRole role =>
    refine ⟨own.users, fun x record found => ?_⟩
    rw [upkeep, insertRole, Table.find?_insert] at found
    split at found
    · rename_i same
      cases found
      exact same.symm
    · exact own.roles x record found
  | request request => exact (d.serve_served request).ownIds own
  | _ => exact ⟨own.users, own.roles⟩

theorem upkeep_keys_subset (d : Directory) (change : Upkeep) :
    d.users.keys ⊆ (d.upkeep change).users.keys ∧ d.roles.keys ⊆ (d.upkeep change).roles.keys := by
  cases change with
  | insertUser _ => exact ⟨fun _ member => Table.mem_keys_insert.2 (.inr member), fun _ => id⟩
  | insertRole _ => exact ⟨fun _ => id, fun _ member => Table.mem_keys_insert.2 (.inr member)⟩
  | request request => exact (d.serve_served request).keys_subset
  | _ => exact ⟨fun _ => id, fun _ => id⟩

theorem upkeep_closed (closed : d.Closed) {change : Upkeep}
    (lists : ∀ user, change = .insertUser user → ∀ role ∈ user.roles, role ∈ d.roles.keys) :
    (d.upkeep change).Closed := by
  cases change with
  | insertUser user =>
    intro x record found role member
    rw [upkeep, insertUser, Table.find?_insert] at found
    split at found
    · cases found
      exact lists user rfl role member
    · exact closed x record found role member
  | insertRole _ =>
    intro x record found role member
    exact Table.mem_keys_insert.2 (.inr (closed x record found role member))
  | request request => exact (d.serve_served request).closed closed
  | _ => exact closed

theorem execute_lastPermission (d : Directory) (command : Command) :
    (d.execute command).2.lastPermission = d.lastPermission := by
  cases command with
  | edit change =>
    cases made : d.edit change with
    | ok changed =>
      simp only [execute, made, Except.map, commit]
      rcases edit_cases made with ⟨_, _, _, _, rfl⟩ | ⟨_, _, _, _, rfl⟩ <;> rfl
    | error _ => simp only [execute, made, Except.map, commit]
  | createRole draft =>
    cases made : d.createRole draft with
    | ok created =>
      obtain ⟨_, _, same⟩ := createRole_cases made
      simp only [execute, made, commit, same]
    | error _ => simp only [execute, made, commit]

/-- What a change does to the permissions and to the counter of their identifiers. -/
inductive Issued (d : Directory) : Directory → Prop where
  | kept {after : Directory} (permissions : after.permissions = d.permissions)
    (last : after.lastPermission = d.lastPermission) : Issued d after
  | next {after : Directory} {name : String} (absent : name ∉ d.permissions.keys)
    (last : after.lastPermission.value = d.lastPermission.value + 1)
    (permissions : after.permissions = d.permissions.insert name after.lastPermission) :
    Issued d after

theorem serve_issued (d : Directory) (request : Request) : Issued d (d.serve request).2 := by
  cases up : d.available with
  | false =>
    rw [serve_unavailable up]
    exact .kept rfl rfl
  | true =>
    unfold serve
    rw [if_pos up]
    cases request with
    | createPermission name =>
      simp only [createPermission]
      split
      · exact .kept rfl rfl
      · split
        · exact .kept rfl rfl
        · rename_i absent
          exact .next (fun member => absent (Table.contains_iff_mem_keys.2 member)) rfl rfl
    | write command =>
      exact .kept (d.execute_permissions command).permissions (d.execute_lastPermission command)
    | _ => exact .kept rfl rfl

theorem upkeep_issued (d : Directory) (change : Upkeep) : Issued d (d.upkeep change) := by
  cases change with
  | request request => exact d.serve_issued request
  | _ => exact .kept rfl rfl

theorem Issued.consecutive (issued : Issued d after) (consecutive : d.Consecutive)
    (growing : d.lastPermission ≤ after.lastPermission) : after.Consecutive := by
  cases issued with
  | kept permissions last =>
    have same : after.permissionIds = d.permissionIds := by
      rw [permissionIds, permissions, permissionIds]
    constructor
    · rw [same]
      exact consecutive.nodup
    · rw [same, last]
      exact consecutive.mem_iff
    · rw [permissions, last, consecutive.last]
  | @next name absent last permissions =>
    have issued : after.permissionIds.Perm (after.lastPermission :: d.permissionIds) := by
      rw [permissionIds, permissions]
      exact (Table.perm_insertSorted absent _).map _
    have succ := Id.toInt_succ last growing
    have size := consecutive.last
    constructor
    · refine issued.nodup_iff.2 (List.nodup_cons.2 ⟨fun member => ?_, consecutive.nodup⟩)
      have bound := ((consecutive.mem_iff _).1 member).2
      omega
    · intro id
      rw [issued.mem_iff, List.mem_cons, consecutive.mem_iff]
      constructor
      · intro known
        cases known with
        | inl newest =>
          subst newest
          omega
        | inr bounds => omega
      · intro bounds
        by_cases here : id.value.toInt = after.lastPermission.value.toInt
        · left
          cases id
          exact congrArg Id.mk (Int64.toInt_inj.1 here)
        · right
          omega
    · rw [permissions, Table.size_insert absent, succ, size]
      rfl

structure WellFormed (d : Directory) : Prop where
  ownIds : d.OwnIds
  numbered : d.Numbered
  consecutive : d.Consecutive

theorem wellFormed_empty : empty.WellFormed where
  ownIds := ⟨nofun, nofun⟩
  numbered _ member := nomatch member
  consecutive := by
    refine ⟨.nil, fun id => ⟨(fun member => nomatch member), fun bounds => ?_⟩, rfl⟩
    have none : id.value.toInt ≤ 0 := bounds.2
    omega

theorem upkeep_wellFormed (wellFormed : d.WellFormed) {change : Upkeep}
    (growing : d.lastPermission ≤ (d.upkeep change).lastPermission) :
    (d.upkeep change).WellFormed :=
  ⟨upkeep_ownIds wellFormed.ownIds change, upkeep_numbered wellFormed.numbered change,
    (d.upkeep_issued change).consecutive wellFormed.consecutive growing⟩

end Directory

end Authorization
