import Authorization.Proofs.Commands.Sequence

namespace Authorization

namespace Edit

def onRole : Edit → Role → Role
  | addPermission _ permission, r => { r with permissions := r.permissions.insert permission }
  | removePermission _ permission, r => { r with permissions := r.permissions.erase permission }
  | moveRole _ owner, r => { r with organization := owner }
  | deleteRole _, r => { r with deleted := true }
  | restoreRole _, r => { r with deleted := false }
  | addMember _ _, r | removeMember _ _, r => r

def onUser : Edit → User → User
  | addMember _ role => (·.withRole role)
  | removeMember _ role => (·.withoutRole role)
  | _ => id

/-- What an edit makes of a directory, unless it is refused. -/
def apply (change : Edit) (d : Directory) : Directory :=
  match change.key with
  | .role role => { d with roles := d.roles.modify role change.onRole }
  | .user user => { d with users := d.users.modify user change.onUser }

end Edit

namespace Directory

variable {d e after : Directory} {change : Edit}

theorem edit_ok (ok : d.edit change = .ok after) : after = change.apply d := by
  cases change with
  | addMember user role =>
    simp only [edit] at ok
    split at ok
    · exact (editUser_ok ok).2
    · cases ok
  | removeMember user role => exact (editUser_ok ok).2
  | moveRole role owner =>
    simp only [edit] at ok
    split at ok
    · cases ok
    · exact (editRole_ok ok).2
  | addPermission role permission => exact (editRole_ok ok).2
  | removePermission role permission => exact (editRole_ok ok).2
  | deleteRole role => exact (editRole_ok ok).2
  | restoreRole role => exact (editRole_ok ok).2

/-- The same users and roles exist, whatever is on record about them. -/
structure SameKeys (d e : Directory) : Prop where
  available : e.available = d.available
  users : ∀ user, e.users.contains user = d.users.contains user
  roles : ∀ role, e.roles.contains role = d.roles.contains role

theorem SameKeys.refl (d : Directory) : d.SameKeys d := ⟨rfl, fun _ => rfl, fun _ => rfl⟩

theorem SameKeys.trans (first : d.SameKeys e) (second : e.SameKeys after) : d.SameKeys after where
  available := second.available.trans first.available
  users user := (second.users user).trans (first.users user)
  roles role := (second.roles role).trans (first.roles role)

theorem sameKeys_apply (change : Edit) (d : Directory) : d.SameKeys (change.apply d) := by
  unfold Edit.apply
  cases change.key with
  | role role => exact ⟨rfl, fun _ => rfl, fun _ => Table.contains_modify ..⟩
  | user user => exact ⟨rfl, fun _ => Table.contains_modify .., fun _ => rfl⟩

theorem SameKeys.editRole (same : d.SameKeys e) (role : RoleId) (change : Role → Role) :
    (e.editRole role change).map (fun _ => ()) = (d.editRole role change).map fun _ => () := by
  simp only [Directory.editRole, same.roles]
  split <;> rfl

theorem SameKeys.editUser (same : d.SameKeys e) (user : UserId) (change : User → User) :
    (e.editUser user change).map (fun _ => ()) = (d.editUser user change).map fun _ => () := by
  simp only [Directory.editUser, same.users]
  split <;> rfl

theorem SameKeys.edit (same : d.SameKeys e) (change : Edit) :
    (e.edit change).map (fun _ => ()) = (d.edit change).map fun _ => () := by
  cases change with
  | addMember user role =>
    simp only [Directory.edit, same.roles]
    split
    · exact same.editUser ..
    · rfl
  | removeMember user role => exact same.editUser ..
  | moveRole role owner =>
    simp only [Directory.edit]
    split
    · rfl
    · exact same.editRole ..
  | _ => exact same.editRole ..

theorem fst_serve_edit (d : Directory) (change : Edit) :
    (d.serve (.write (.edit change))).1 =
      if d.available then (d.edit change).map fun _ => () else .error (.unavailable .markedUnavailable) := by
  unfold serve
  split
  · simp only [execute]
    cases d.edit change <;> rfl
  · rfl

/-- Whether an edit is refused, and with which error, depends only on what exists. -/
theorem SameKeys.serve (same : d.SameKeys e) (change : Edit) :
    (e.serve (.write (.edit change))).1 = (d.serve (.write (.edit change))).1 := by
  rw [fst_serve_edit, fst_serve_edit, same.available, same.edit]

theorem Wrote.applied {result : Except Error Unit} (wrote : d.Wrote (.edit change) result after) :
    after = if result.isOk then change.apply d else d := by
  cases wrote with
  | refused => rfl
  | edited ok => exact edit_ok ok

/-- What an edit changes is invalidated. -/
theorem Wrote.snapshot? {result : Except Error Unit} (wrote : d.Wrote (.edit change) result after)
    {k : Key} {v : k.Snapshot} (there : d.snapshot? k = some v) :
    after.snapshot? k = some v ∨
      (Request.write (.edit change)).invalidation? result = some (.one k) := by
  cases wrote with
  | refused => exact .inl there
  | edited ok =>
    by_cases same : change.key = k
    · exact .inr (by rw [← same]; rfl)
    · exact .inl ((snapshot?_edit ok same).trans there)

theorem snd_serve_edit (d : Directory) (change : Edit) :
    (d.serve (.write (.edit change))).2 =
      if (d.serve (.write (.edit change))).1.isOk then change.apply d else d :=
  (d.serve_wrote (.edit change)).applied

theorem sameKeys_edit (d : Directory) (change : Edit) :
    d.SameKeys (d.serve (.write (.edit change))).2 := by
  rw [snd_serve_edit]
  split
  · exact sameKeys_apply change d
  · exact .refl d

end Directory

end Authorization
