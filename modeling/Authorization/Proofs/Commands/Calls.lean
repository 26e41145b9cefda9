import Authorization.Proofs.Commands.Edits

namespace Authorization

namespace Directory

variable {d e : Directory}

theorem Alike.refl (d : Directory) : d.Alike d := ⟨⟨rfl, rfl, rfl⟩, rfl, rfl⟩

theorem Alike.sameKeys (alike : d.Alike e) : d.SameKeys e where
  available := alike.available
  users user := by rw [alike.users]
  roles role := by rw [alike.roles]

theorem Alike.apply (alike : d.Alike e) (change : Edit) :
    (change.apply d).Alike (change.apply e) := by
  unfold Edit.apply
  cases change.key with
  | role role =>
    exact ⟨⟨alike.users, congrArg (Table.modify · role _) alike.roles, alike.lastRole⟩,
      alike.available, alike.failingRoles⟩
  | user user =>
    exact ⟨⟨congrArg (Table.modify · user _) alike.users, alike.roles, alike.lastRole⟩,
      alike.available, alike.failingRoles⟩

/-- A write sees nothing of a directory but what loads see of it. -/
theorem Alike.serve_write (alike : d.Alike e) (c : Command) :
    (d.serve (.write c)).2.Alike (e.serve (.write c)).2 := by
  cases c with
  | edit change =>
    rw [snd_serve_edit d, snd_serve_edit e, alike.sameKeys.serve]
    split
    · exact alike.apply change
    · exact alike
  | createRole draft =>
    simp only [serve, alike.available, execute, createRole, alike.lastRole]
    split
    · split
      · exact alike
      · split
        · exact alike
        · exact ⟨⟨alike.users, congrArg (Table.insert · _ _) alike.roles, rfl⟩, rfl,
            alike.failingRoles⟩
    · exact alike

theorem Alike.written (alike : d.Alike e) (cs : List Command) :
    (d.written cs).Alike (e.written cs) := by
  induction cs generalizing d e with
  | nil => exact alike
  | cons c cs ih => exact ih (alike.serve_write c)

end Directory

namespace System

variable {s : System}

end System

end Authorization
