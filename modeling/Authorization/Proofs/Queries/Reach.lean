import Authorization.Proofs.Queries.Isolation
import Authorization.Proofs.Snapshots.Effect

namespace Authorization

namespace Directory

variable {d : Directory} {user : UserId} {scope : OrganizationId} {permission : String}

/-- One of the user's roles grants the permission in the scope. -/
def Allows (d : Directory) (user : UserId) (scope : OrganizationId) (permission : String) : Prop :=
  ∃ role, d.Holds (.listed user role) ∧ d.Holds (.granted role scope permission)

/-- The directory answers, and the roles that users are members of are on record and can be
loaded. -/
structure Complete (d : Directory) : Prop where
  available : d.available = true
  closed : d.Closed
  serving : ∀ user record, d.users.find? user = some record →
    ∀ role ∈ record.roles, d.failingRoles.contains role = false

theorem Allows.mono {e : Directory} (listed : ∀ role, d.Holds (.listed user role) →
      e.Holds (.listed user role))
    (granted : ∀ role, d.Holds (.granted role scope permission) →
      e.Holds (.granted role scope permission))
    (allowed : d.Allows user scope permission) : e.Allows user scope permission := by
  obtain ⟨role, member, grants⟩ := allowed
  exact ⟨role, listed role member, granted role grants⟩

variable {after : Directory} {change : Edit}

theorem Complete.edit (complete : d.Complete) (serving : ∀ role ∈ d.roles.keys,
    d.failingRoles.contains role = false) (ok : d.edit change = .ok after) : after.Complete := by
  have kept : after.available = d.available ∧ after.failingRoles = d.failingRoles := by
    rcases edit_cases ok with ⟨_, _, _, _, rfl⟩ | ⟨_, _, _, _, rfl⟩ <;> exact ⟨rfl, rfl⟩
  have closed := complete.closed.edit ok
  constructor
  · rw [kept.1, complete.available]
  · exact closed
  · intro user record found role member
    rw [kept.2]
    exact serving role (roles_keys_of_edit ok ▸ closed user record found role member)

variable {draft : RoleDraft} {id : RoleId}

theorem Complete.createRole (complete : d.Complete) (ok : d.createRole draft = .ok (id, after)) :
    after.Complete := by
  have closed := complete.closed.createRole ok
  obtain ⟨_, _, rfl⟩ := createRole_cases ok
  exact ⟨complete.available, closed, complete.serving⟩

end Directory

namespace System

variable {s t : System} {user : UserId} {scope : OrganizationId} {permission : String}

/-- The answer to a check that is made now. -/
def check (s : System) (user : UserId) (scope : OrganizationId) (permission : String) :
    Except Error Bool :=
  ((Query.hasPermission user scope permission).run.run s).1

namespace Answering

end Answering

/-- Nothing is under way, the directory answers, every role on record can be loaded, and users are
members of roles on record only. -/
structure Settled (s : System) : Prop extends Steady s where
  available : s.directory.available = true
  serving : ∀ role ∈ s.directory.roles.keys, s.directory.failingRoles.contains role = false
  closed : s.directory.Closed

theorem Settled.complete (settled : s.Settled) : s.directory.Complete where
  available := settled.available
  closed := settled.closed
  serving user record found role member :=
    settled.serving role (settled.closed user record found role member)

end System

end Authorization
