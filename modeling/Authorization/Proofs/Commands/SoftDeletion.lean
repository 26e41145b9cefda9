import Authorization.Proofs.Commands.Calls
import Authorization.Proofs.Commands.Marks
import Authorization.Proofs.Queries.Replies

namespace Authorization

namespace Directory

variable {d : Directory}

/-- The directory as it is if nobody is a member of a role. -/
def withoutRole (d : Directory) (role : RoleId) : Directory :=
  { d with users := d.users.map fun _ user => user.withoutRole role }

section

variable {role : RoleId}

variable {record : Role} (there : d.roles.find? role = some record) (gone : record.deleted = true)

include there gone

end

end Directory

/-- A command that deletes or restores one of some roles. -/
def Call.marks (which : RoleId → Bool) (x : Call) : Bool := x.command?.any (·.marks which)

namespace System

variable {s : System} {xs : List Call} {role : RoleId}

end System

namespace System

end System

end Authorization
