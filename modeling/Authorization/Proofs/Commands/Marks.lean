import Authorization.Proofs.Commands.Sequence

namespace Authorization

namespace Table

variable {κ ν : Type} [LT κ] [DecidableEq κ]

omit [DecidableEq κ] in
/-- Changes every value. -/
def map (t : Table κ ν) (f : κ → ν → ν) : Table κ ν :=
  ⟨t.entries.map fun e => (e.1, f e.1 e.2), List.pairwise_map.2 t.sorted⟩

theorem find?_map (t : Table κ ν) (f : κ → ν → ν) (k : κ) :
    (t.map f).find? k = (t.find? k).map (f k) := by
  have matching : ((fun e : κ × ν => decide (e.1 = k)) ∘ fun e : κ × ν => (e.1, f e.1 e.2)) =
      fun e => decide (e.1 = k) := rfl
  simp only [find?, map, List.find?_map, matching, Option.map_map]
  cases found : t.entries.find? fun e => e.1 = k with
  | none => rfl
  | some e =>
    have key : e.1 = k := by simpa using List.find?_some found
    simp [← key]

variable [LE κ] [Std.LawfulOrderLT κ] [Std.IsLinearOrder κ]

theorem map_modify (t : Table κ ν) {f : κ → ν → ν} {k : κ} {g h : ν → ν}
    (commutes : ∀ v, f k (g v) = h (f k v)) : (t.modify k g).map f = (t.map f).modify k h := by
  apply ext_find?
  intro x
  simp only [find?_map, find?_modify]
  by_cases same : x = k
  · subst same
    simp only [if_true, Option.map_map]
    exact congrArg (Option.map · _) (funext commutes)
  · simp only [if_neg same]

end Table

/-- The role whose deletion mark is set or taken away by an edit, and whether it is set. -/
def Edit.mark? : Edit → Option (RoleId × Bool)
  | deleteRole role => some (role, true)
  | restoreRole role => some (role, false)
  | _ => none

/-- A command that deletes or restores one of some roles. -/
def Command.marks (which : RoleId → Bool) : Command → Bool
  | edit change => change.mark?.any fun mark => which mark.1
  | createRole _ => false

/-- The mark that a role is given by a command that succeeded. -/
def Outcome.mark? (role : RoleId) : Outcome → Option Bool
  | ⟨.edit change, .ok _⟩ => (change.mark?.filter fun mark => mark.1 = role).map (·.2)
  | _ => none

namespace Directory

/-- Leaves out the deletion marks of some roles. -/
def unmarked (d : Directory) (which : RoleId → Bool) : Directory :=
  { d with roles := d.roles.map fun id role => { role with deleted := !which id && role.deleted } }

/-- Whether a role is on record and deleted. -/
def deleted (d : Directory) (role : RoleId) : Bool := (d.roles.find? role).any (·.deleted)

variable {d : Directory} {which : RoleId → Bool} {cs : List Command}

/-- A mark that is left out does not show. -/
theorem unmarked_edit {change : Edit} {after : Directory}
    (left : (Command.edit change).marks which = true) (ok : d.edit change = .ok after) :
    after.unmarked which = d.unmarked which := by
  have hidden (role : RoleId) (marked : which role = true) (b : Bool) :
      (d.roles.modify role fun r => { r with deleted := b }).map
          (fun id r => { r with deleted := !which id && r.deleted }) =
        d.roles.map fun id r => { r with deleted := !which id && r.deleted } := by
    rw [Table.map_modify (h := id) _ fun r => by simp [marked], Table.modify_id]
  cases change with
  | deleteRole role =>
    rw [(editRole_ok ok).2]
    exact congrArg (fun roles => { d with roles := roles }) (hidden role left true)
  | restoreRole role =>
    rw [(editRole_ok ok).2]
    exact congrArg (fun roles => { d with roles := roles }) (hidden role left false)
  | _ => cases left

theorem Wrote.unmarked {c : Command} {result : Except Error c.Answer} {after : Directory}
    (wrote : d.Wrote c result after) (left : c.marks which = true) :
    after.unmarked which = d.unmarked which := by
  cases wrote with
  | refused => rfl
  | edited ok => exact unmarked_edit left ok
  | created _ => cases left

section

variable (d : Directory) (which : RoleId → Bool) (cs : List Command)

end

theorem deleted_modify (role x : RoleId) (change : Role → Role) :
    deleted { d with roles := d.roles.modify x change } role =
      if role = x then (d.roles.find? role).any fun r => (change r).deleted else d.deleted role := by
  rw [deleted, Table.find?_modify]
  split <;> simp [deleted, Option.any_map]

theorem deleted_editRole {role x : RoleId} {change : Role → Role} {after : Directory}
    (ok : d.editRole x change = .ok after) (kept : ∀ r : Role, (change r).deleted = r.deleted) :
    after.deleted role = d.deleted role := by
  rw [(editRole_ok ok).2, deleted_modify]
  simp [kept, deleted]

theorem deleted_marked {role x : RoleId} {mark : Bool} {after : Directory}
    (ok : d.editRole x (fun r => { r with deleted := mark }) = .ok after) :
    after.deleted role =
      (((some (x, mark)).filter fun mark => mark.1 = role).map (·.2)).getD (d.deleted role) := by
  obtain ⟨present, rfl⟩ := editRole_ok ok
  rw [deleted_modify]
  by_cases same : x = role
  · subst same
    obtain ⟨record, there⟩ := Table.contains_iff.1 present
    simp [there, Option.filter]
  · simp [same, Ne.symm same, Option.filter]

/-- No edit but one that sets or takes away the mark of a role changes whether it is deleted. -/
theorem deleted_edit {change : Edit} {after : Directory} (ok : d.edit change = .ok after)
    (role : RoleId) :
    after.deleted role = (Outcome.mark? role ⟨.edit change, .ok ()⟩).getD (d.deleted role) := by
  cases change with
  | addPermission x permission => exact deleted_editRole ok fun _ => rfl
  | removePermission x permission => exact deleted_editRole ok fun _ => rfl
  | addMember user x =>
    simp only [edit] at ok
    split at ok
    · rw [(editUser_ok ok).2]
      rfl
    · cases ok
  | removeMember user x =>
    rw [(editUser_ok ok).2]
    rfl
  | moveRole x owner =>
    simp only [edit] at ok
    split at ok
    · cases ok
    · exact deleted_editRole ok fun _ => rfl
  | deleteRole x => exact deleted_marked ok
  | restoreRole x => exact deleted_marked ok

/-- A role that is created was not on record before, and is not deleted. -/
theorem deleted_createRole {draft : RoleDraft} {id : RoleId} {after : Directory}
    (numbered : d.Numbered) (ok : d.createRole draft = .ok (id, after)) (role : RoleId) :
    after.deleted role = d.deleted role := by
  have absent : d.roles.find? id = none := by
    rw [← Option.not_isSome_iff_eq_none]
    exact fun there => created_fresh numbered ok (Table.contains_iff_mem_keys.1 there)
  obtain ⟨_, _, rfl⟩ := createRole_cases ok
  rw [deleted, Table.find?_insert]
  split
  · rename_i same
    rw [same, deleted, absent]
    rfl
  · rfl

variable {c : Command} {result : Except Error c.Answer} {after : Directory}

theorem Wrote.deleted (wrote : d.Wrote c result after) (numbered : d.Numbered) (role : RoleId) :
    after.deleted role = (Outcome.mark? role ⟨c, result⟩).getD (d.deleted role) := by
  cases wrote with
  | refused => cases c <;> rfl
  | edited ok => exact deleted_edit ok role
  | created ok => exact deleted_createRole numbered ok role

end Directory

end Authorization
