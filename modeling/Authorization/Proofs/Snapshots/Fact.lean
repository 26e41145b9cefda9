import Authorization.Proofs.Snapshots.Directory

namespace Authorization

namespace Role

/-- A role counts in the scopes that its owner is visible in, until it is deleted. -/
def AppliesIn (role : Role) (scope : OrganizationId) : Prop :=
  role.deleted = false ∧ scope.admits role.organization = true

def Grants (role : Role) (scope : OrganizationId) (permission : String) : Prop :=
  role.AppliesIn scope ∧ permission ∈ role.permissions

instance (role : Role) (scope : OrganizationId) : Decidable (role.AppliesIn scope) :=
  inferInstanceAs (Decidable (_ ∧ _))

instance (role : Role) (scope : OrganizationId) (permission : String) :
    Decidable (role.Grants scope permission) :=
  inferInstanceAs (Decidable (_ ∧ permission ∈ role.permissions.toList))

end Role

namespace RoleGrant

theorem appliesIn_ofRole (role : Role) (scope : OrganizationId) :
    (ofRole role).appliesIn scope = true ↔ role.AppliesIn scope := by
  simp [appliesIn, ofRole, Role.AppliesIn]

theorem grants_ofRole (role : Role) (scope : OrganizationId) (permission : String) :
    (ofRole role).grants scope permission = true ↔ role.Grants scope permission := by
  rw [grants, Bool.and_eq_true, appliesIn_ofRole, OrderedSet.contains_iff]
  rfl

end RoleGrant

/-- What a check can rest on: that a user is a member of a role, or that a role grants a permission
in a scope. -/
inductive Fact where
  | listed (user : UserId) (role : RoleId)
  | granted (role : RoleId) (scope : OrganizationId) (permission : String)

def Fact.key : Fact → Key
  | listed user _ => .user user
  | granted role _ _ => .role role

/-- The facts that an edit puts an end to. -/
def Edit.Revokes : Edit → Fact → Prop
  | .removePermission role name, .granted x _ permission => x = role ∧ permission = name
  | .removeMember user role, .listed x y => x = user ∧ y = role
  | .moveRole role owner, .granted x scope _ => x = role ∧ scope.admits owner = false
  | .deleteRole role, .granted x _ _ => x = role
  | _, _ => False

theorem Edit.Revokes.key {change : Edit} {fact : Fact} (revokes : change.Revokes fact) :
    change.key = fact.key := by
  cases change <;> cases fact <;> simp_all [Edit.Revokes, Edit.key, Fact.key]

namespace Directory

def Holds (d : Directory) : Fact → Prop
  | .listed user role => ∃ record, d.users.find? user = some record ∧ role ∈ record.roles
  | .granted role scope permission =>
    ∃ record, d.roles.find? role = some record ∧ record.Grants scope permission

theorem holds_listed {d : Directory} {user : UserId} {m : Membership} {role : RoleId}
    (there : d.snapshot? (.user user) = some m) (member : role ∈ m.roles) :
    d.Holds (.listed user role) := by
  obtain ⟨record, found, rfl⟩ := Option.map_eq_some_iff.1 there
  exact ⟨record, found, member⟩

theorem holds_granted {d : Directory} {role : RoleId} {g : RoleGrant} {scope : OrganizationId}
    {permission : String} (there : d.snapshot? (.role role) = some g)
    (grants : g.grants scope permission = true) : d.Holds (.granted role scope permission) := by
  obtain ⟨record, found, rfl⟩ := Option.map_eq_some_iff.1 there
  exact ⟨record, found, (RoleGrant.grants_ofRole record scope permission).1 grants⟩

theorem editRole_find? {d after : Directory} {role : RoleId} {f : Role → Role} {record : Role}
    (ok : d.editRole role f = .ok after) (there : after.roles.find? role = some record) :
    ∃ before, record = f before := by
  obtain ⟨_, rfl⟩ := editRole_ok ok
  rw [Table.find?_modify, if_pos rfl] at there
  obtain ⟨before, _, same⟩ := Option.map_eq_some_iff.1 there
  exact ⟨before, same.symm⟩

theorem editUser_find? {d after : Directory} {user : UserId} {f : User → User} {record : User}
    (ok : d.editUser user f = .ok after) (there : after.users.find? user = some record) :
    ∃ before, record = f before := by
  obtain ⟨_, rfl⟩ := editUser_ok ok
  rw [Table.find?_modify, if_pos rfl] at there
  obtain ⟨before, _, same⟩ := Option.map_eq_some_iff.1 there
  exact ⟨before, same.symm⟩

theorem not_holds_of_revokes {d after : Directory} {change : Edit} {fact : Fact}
    (ok : d.edit change = .ok after) (revokes : change.Revokes fact) : ¬ after.Holds fact := by
  intro holds
  match change, fact with
  | .removePermission role name, .granted x _ permission =>
    obtain ⟨rfl, rfl⟩ := revokes
    obtain ⟨_, there, _, granted⟩ := holds
    obtain ⟨before, rfl⟩ := editRole_find? ok there
    exact (OrderedSet.mem_erase.1 granted).2 rfl
  | .removeMember user role, .listed x y =>
    obtain ⟨rfl, rfl⟩ := revokes
    obtain ⟨_, there, member⟩ := holds
    obtain ⟨before, rfl⟩ := editUser_find? ok there
    simp [User.withoutRole] at member
  | .moveRole role owner, .granted x scope _ =>
    obtain ⟨rfl, hidden⟩ := revokes
    obtain ⟨_, there, applies, _⟩ := holds
    simp only [edit] at ok
    split at ok
    · cases ok
    · obtain ⟨before, rfl⟩ := editRole_find? ok there
      exact Bool.false_ne_true (hidden.symm.trans applies.2)
  | .deleteRole role, .granted x _ _ =>
    obtain rfl := revokes
    obtain ⟨_, there, applies, _⟩ := holds
    obtain ⟨before, rfl⟩ := editRole_find? ok there
    cases applies.1

theorem edit_of_serve {d after : Directory} {change : Edit}
    (served : d.serve (.write (.edit change)) = (.ok (), after)) : d.edit change = .ok after := by
  unfold serve at served
  split at served
  · cases made : d.edit change with
    | ok changed =>
      simp only [execute, made, Except.map, commit] at served
      rw [(Prod.mk.inj served).2]
    | error _ => simp [execute, made, Except.map, commit] at served
  · cases (Prod.mk.inj served).1

end Directory

end Authorization
