import Authorization.Proofs.Snapshots.Fact

namespace Authorization

namespace Edit

/-- The role that an edit is about, be it the role or the membership in it that changes. -/
def role : Edit → RoleId
  | .addPermission role _ => role
  | .removePermission role _ => role
  | .addMember _ role => role
  | .removeMember _ role => role
  | .moveRole role _ => role
  | .deleteRole role => role
  | .restoreRole role => role

def Widens : Edit → Prop
  | .addPermission _ _ | .addMember _ _ | .restoreRole _ => True
  | _ => False

def Narrows : Edit → Prop
  | .removePermission _ _ | .removeMember _ _ | .deleteRole _ => True
  | _ => False

/-- The facts that an edit may change. -/
def Concerns : Edit → Fact → Prop
  | .addPermission role name, .granted x _ permission => x = role ∧ permission = name
  | .removePermission role name, .granted x _ permission => x = role ∧ permission = name
  | .addMember user role, .listed x y => x = user ∧ y = role
  | .removeMember user role, .listed x y => x = user ∧ y = role
  | .moveRole role _, .granted x scope _ => x = role ∧ scope.isAny = false
  | .deleteRole role, .granted x _ _ => x = role
  | .restoreRole role, .granted x _ _ => x = role
  | _, _ => False

/-- An edit that names a permission, or a user, is about that one only. -/
def Names : Edit → UserId → String → Prop
  | .addPermission _ name, _, permission => permission = name
  | .removePermission _ name, _, permission => permission = name
  | .addMember user _, x, _ => x = user
  | .removeMember user _, x, _ => x = user
  | _, _, _ => True

theorem Concerns.listed {change : Edit} {user : UserId} {x : RoleId}
    (concerns : change.Concerns (.listed user x)) (permission : String) :
    x = change.role ∧ change.Names user permission := by
  cases change with
  | addMember _ _ => exact ⟨concerns.2, concerns.1⟩
  | removeMember _ _ => exact ⟨concerns.2, concerns.1⟩
  | _ => exact concerns.elim

theorem Concerns.granted {change : Edit} {x : RoleId} {scope : OrganizationId}
    {permission : String} (concerns : change.Concerns (.granted x scope permission))
    (user : UserId) : x = change.role ∧ change.Names user permission := by
  cases change with
  | addPermission _ _ => exact concerns
  | removePermission _ _ => exact concerns
  | moveRole _ _ => exact ⟨concerns.1, trivial⟩
  | deleteRole _ => exact ⟨concerns, trivial⟩
  | restoreRole _ => exact ⟨concerns, trivial⟩
  | _ => exact concerns.elim

end Edit

namespace User

theorem mem_withRole {user : User} {role x : RoleId} :
    x ∈ (user.withRole role).roles ↔ x ∈ user.roles ∨ x = role := by
  unfold withRole
  split
  · rename_i member
    exact (or_iff_left_of_imp fun same => same ▸ member).symm
  · simp

theorem mem_withoutRole {user : User} {role x : RoleId} :
    x ∈ (user.withoutRole role).roles ↔ x ∈ user.roles ∧ x ≠ role := by
  simp [withoutRole]

end User

namespace Directory

variable {d after : Directory} {change : Edit} {role x : RoleId} {user u : UserId}
  {scope : OrganizationId} {permission : String}

section Role

variable {f : Role → Role}

theorem editRole_listed (ok : d.editRole role f = .ok after) :
    after.Holds (.listed u x) ↔ d.Holds (.listed u x) := by
  obtain ⟨_, rfl⟩ := editRole_ok ok
  exact Iff.rfl

theorem editRole_granted (ok : d.editRole role f = .ok after) :
    after.Holds (.granted x scope permission) ↔ ∃ record, d.roles.find? x = some record ∧
      (if x = role then f record else record).Grants scope permission := by
  obtain ⟨_, rfl⟩ := editRole_ok ok
  simp only [Holds, Table.find?_modify]
  by_cases same : x = role
  · simp only [if_pos same, Option.map_eq_some_iff]
    constructor
    · intro granted
      obtain ⟨_, ⟨record, there, rfl⟩, grants⟩ := granted
      exact ⟨record, there, grants⟩
    · intro granted
      obtain ⟨record, there, grants⟩ := granted
      exact ⟨f record, ⟨record, there, rfl⟩, grants⟩
  · simp only [if_neg same]

/-- An edit of a role after which the role grants at least, or at most, what it granted. -/
theorem editRole_widens (ok : d.editRole role f = .ok after)
    (granted : ∀ record, x = role → d.roles.find? x = some record →
      record.Grants scope permission → (f record).Grants scope permission)
    (holds : d.Holds (.granted x scope permission)) :
    after.Holds (.granted x scope permission) := by
  obtain ⟨record, there, grants⟩ := holds
  refine (editRole_granted ok).2 ⟨record, there, ?_⟩
  split
  · rename_i same
    exact granted record same there grants
  · exact grants

theorem editRole_narrows (ok : d.editRole role f = .ok after)
    (granted : ∀ record, x = role → d.roles.find? x = some record →
      (f record).Grants scope permission → record.Grants scope permission)
    (holds : after.Holds (.granted x scope permission)) :
    d.Holds (.granted x scope permission) := by
  obtain ⟨record, there, grants⟩ := (editRole_granted ok).1 holds
  split at grants
  · rename_i same
    exact ⟨record, there, granted record same there grants⟩
  · exact ⟨record, there, grants⟩

theorem editRole_elsewhere (ok : d.editRole role f = .ok after) (other : x ≠ role) :
    after.Holds (.granted x scope permission) ↔ d.Holds (.granted x scope permission) := by
  simp only [editRole_granted ok, if_neg other]
  rfl

end Role

section User

variable {f : User → User}

theorem editUser_granted (ok : d.editUser user f = .ok after) :
    after.Holds (.granted x scope permission) ↔ d.Holds (.granted x scope permission) := by
  obtain ⟨_, rfl⟩ := editUser_ok ok
  exact Iff.rfl

theorem editUser_listed (ok : d.editUser user f = .ok after) :
    after.Holds (.listed u x) ↔ ∃ record, d.users.find? u = some record ∧
      x ∈ (if u = user then f record else record).roles := by
  obtain ⟨_, rfl⟩ := editUser_ok ok
  simp only [Holds, Table.find?_modify]
  by_cases same : u = user
  · simp only [if_pos same, Option.map_eq_some_iff]
    constructor
    · intro listed
      obtain ⟨_, ⟨record, there, rfl⟩, member⟩ := listed
      exact ⟨record, there, member⟩
    · intro listed
      obtain ⟨record, there, member⟩ := listed
      exact ⟨f record, ⟨record, there, rfl⟩, member⟩
  · simp only [if_neg same]

end User

section Edit

theorem addMember_ok (ok : d.edit (.addMember user role) = .ok after) :
    role ∈ d.roles.keys ∧ d.editUser user (·.withRole role) = .ok after := by
  simp only [edit] at ok
  split at ok
  · rename_i present
    exact ⟨Table.contains_iff_mem_keys.1 present, ok⟩
  · cases ok

theorem moveRole_ok {owner : OrganizationId} (ok : d.edit (.moveRole role owner) = .ok after) :
    d.editRole role (fun r => { r with organization := owner }) = .ok after := by
  simp only [edit] at ok
  split at ok
  · cases ok
  · exact ok

theorem holds_of_widens (ok : d.edit change = .ok after) (widens : change.Widens) {fact : Fact}
    (holds : d.Holds fact) : after.Holds fact := by
  match change, fact with
  | .addPermission _ _, .listed _ _ => exact (editRole_listed ok).2 holds
  | .addPermission _ _, .granted _ _ _ =>
    refine editRole_widens ok (fun record _ _ grants => ?_) holds
    exact ⟨grants.1, OrderedSet.mem_insert.2 (.inr grants.2)⟩
  | .restoreRole _, .listed _ _ => exact (editRole_listed ok).2 holds
  | .restoreRole _, .granted _ _ _ =>
    exact editRole_widens ok (fun _ _ _ grants => ⟨⟨rfl, grants.1.2⟩, grants.2⟩) holds
  | .addMember _ _, .granted _ _ _ => exact (editUser_granted (addMember_ok ok).2).2 holds
  | .addMember _ _, .listed _ _ =>
    obtain ⟨record, there, member⟩ := holds
    refine (editUser_listed (addMember_ok ok).2).2 ⟨record, there, ?_⟩
    split
    · exact User.mem_withRole.2 (.inl member)
    · exact member

theorem holds_of_narrows (ok : d.edit change = .ok after) (narrows : change.Narrows) {fact : Fact}
    (holds : after.Holds fact) : d.Holds fact := by
  match change, fact with
  | .removePermission _ _, .listed _ _ => exact (editRole_listed ok).1 holds
  | .removePermission _ _, .granted _ _ _ =>
    refine editRole_narrows ok (fun record _ _ grants => ?_) holds
    exact ⟨grants.1, (OrderedSet.mem_erase.1 grants.2).1⟩
  | .deleteRole _, .listed _ _ => exact (editRole_listed ok).1 holds
  | .deleteRole _, .granted _ _ _ =>
    exact editRole_narrows ok (fun _ _ _ grants => nomatch grants.1.1) holds
  | .removeMember _ _, .granted _ _ _ => exact (editUser_granted ok).1 holds
  | .removeMember _ _, .listed _ _ =>
    obtain ⟨record, there, member⟩ := (editUser_listed ok).1 holds
    split at member
    · exact ⟨record, there, (User.mem_withoutRole.1 member).1⟩
    · exact ⟨record, there, member⟩

/-- An edit leaves every fact as it is that it does not concern. -/
theorem holds_iff_of_edit (ok : d.edit change = .ok after) {fact : Fact}
    (other : ¬ change.Concerns fact) : after.Holds fact ↔ d.Holds fact := by
  match change, fact with
  | .addPermission _ _, .listed _ _ | .removePermission _ _, .listed _ _
  | .deleteRole _, .listed _ _ | .restoreRole _, .listed _ _ => exact editRole_listed ok
  | .moveRole _ _, .listed _ _ => exact editRole_listed (moveRole_ok ok)
  | .removeMember _ _, .granted _ _ _ => exact editUser_granted ok
  | .addMember _ _, .granted _ _ _ => exact editUser_granted (addMember_ok ok).2
  | .deleteRole _, .granted _ _ _ | .restoreRole _, .granted _ _ _ =>
    exact editRole_elsewhere ok other
  | .addPermission role name, .granted x _ permission =>
    refine ⟨editRole_narrows ok fun record here _ grants => ?_, holds_of_widens ok trivial⟩
    have different : permission ≠ name := fun same => other ⟨here, same⟩
    exact ⟨grants.1, (OrderedSet.mem_insert.1 grants.2).resolve_left different⟩
  | .removePermission role name, .granted x _ permission =>
    refine ⟨holds_of_narrows ok trivial, editRole_widens ok fun record here _ grants => ?_⟩
    have different : permission ≠ name := fun same => other ⟨here, same⟩
    exact ⟨grants.1, OrderedSet.mem_erase.2 ⟨grants.2, different⟩⟩
  | .moveRole role owner, .granted x scope _ =>
    have visible (here : x = role) (owner : OrganizationId) : scope.admits owner = true := by
      have wild : scope.isAny = true := eq_true_of_ne_false fun concrete => other ⟨here, concrete⟩
      simp [OrganizationId.admits, wild]
    constructor
    · exact editRole_narrows (moveRole_ok ok) fun record here _ grants =>
        ⟨⟨grants.1.1, visible here record.organization⟩, grants.2⟩
    · exact editRole_widens (moveRole_ok ok) fun _ here _ grants =>
        ⟨⟨grants.1.1, visible here owner⟩, grants.2⟩
  | .addMember user role, .listed x y =>
    refine ⟨fun holds => ?_, holds_of_widens ok trivial⟩
    obtain ⟨record, there, member⟩ := (editUser_listed (addMember_ok ok).2).1 holds
    split at member
    · rename_i here
      have different : y ≠ role := fun same => other ⟨here, same⟩
      exact ⟨record, there, (User.mem_withRole.1 member).resolve_right different⟩
    · exact ⟨record, there, member⟩
  | .removeMember user role, .listed x y =>
    refine ⟨holds_of_narrows ok trivial, fun holds => ?_⟩
    obtain ⟨record, there, member⟩ := holds
    refine (editUser_listed ok).2 ⟨record, there, ?_⟩
    split
    · rename_i here
      have different : y ≠ role := fun same => other ⟨here, same⟩
      exact User.mem_withoutRole.2 ⟨member, different⟩
    · exact member

variable {owner : OrganizationId} {record : Role}

theorem createRole_of_serve {draft : RoleDraft} {id : RoleId}
    (served : d.serve (.write (.createRole draft)) = (.ok id, after)) :
    d.createRole draft = .ok (id, after) := by
  unfold serve at served
  split at served
  · cases made : d.createRole draft with
    | ok created =>
      simp only [execute, made, commit] at served
      obtain ⟨first, rfl⟩ := Prod.mk.inj served
      cases first
      rfl
    | error _ => simp [execute, made, commit] at served
  · cases (Prod.mk.inj served).1

theorem users_keys_of_edit (ok : d.edit change = .ok after) : after.users.keys = d.users.keys := by
  rcases edit_cases ok with ⟨role, f, _, _, rfl⟩ | ⟨user, f, _, _, rfl⟩
  · rfl
  · exact Table.keys_modify d.users user f

theorem roles_keys_of_edit (ok : d.edit change = .ok after) : after.roles.keys = d.roles.keys := by
  rcases edit_cases ok with ⟨role, f, _, _, rfl⟩ | ⟨user, f, _, _, rfl⟩
  · exact Table.keys_modify d.roles role f
  · rfl

/-- Users are members of roles on record only. -/
def Closed (d : Directory) : Prop :=
  ∀ user record, d.users.find? user = some record → ∀ role ∈ record.roles, role ∈ d.roles.keys

theorem Closed.edit (closed : d.Closed) (ok : d.edit change = .ok after) : after.Closed := by
  intro user record found role member
  rw [roles_keys_of_edit ok]
  have holds : after.Holds (.listed user role) := ⟨record, found, member⟩
  by_cases concerned : change.Concerns (.listed user role)
  · match change with
    | .addMember _ _ =>
      obtain ⟨rfl, rfl⟩ := concerned
      exact (addMember_ok ok).1
    | .removeMember _ _ =>
      obtain ⟨old, there, before⟩ := holds_of_narrows ok trivial holds
      exact closed user old there role before
  · obtain ⟨old, there, before⟩ := (holds_iff_of_edit ok concerned).1 holds
    exact closed user old there role before

theorem Closed.createRole {draft : RoleDraft} {id : RoleId} (closed : d.Closed)
    (ok : d.createRole draft = .ok (id, after)) : after.Closed := by
  obtain ⟨_, _, rfl⟩ := createRole_cases ok
  intro user record found x member
  exact Table.mem_keys_insert.2 (.inr (closed user record found x member))

end Edit

end Directory

end Authorization
