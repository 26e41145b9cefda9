import Authorization.Proofs.Queries.Inquiry

namespace Authorization

/-- Whether the roles of a user are asked for, and not what they grant. -/
def Inquiry.ofMembership : Inquiry → Bool
  | question (.belongsToRole _) | question .userRoles => true
  | _ => false

namespace Directory

/-- The answer to an inquiry according to what is on record. -/
def scan (d : Directory) (user : UserId) : (inquiry : Inquiry) → inquiry.Answer
  | .question (.belongsToRole role) => d.scanMember user role
  | .question .userRoles => d.scanRoles user
  | .question (.userPermissions scope) => d.scanPermissions user scope
  | .question (.hasPermission scope permission) => d.scanAllowed user scope permission
  | .checkOrDeny scope permission => d.scanOrDeny user scope permission

def scanned (d : Directory) (v : Visit) : Reply := ⟨v.inquiry, d.scan v.user v.inquiry⟩

section

variable {d e : Directory}

theorem scan_of_membership {user : UserId} (found : e.scanUser user = d.scanUser user)
    {inquiry : Inquiry} (kind : inquiry.ofMembership = true) :
    e.scan user inquiry = d.scan user inquiry := by
  match inquiry with
  | .question (.belongsToRole role) => simp only [scan, scanMember, found]
  | .question .userRoles => simp only [scan, scanRoles, found]
  | .question (.userPermissions _) | .question (.hasPermission _ _) | .checkOrDeny _ _ => cases kind

theorem scan_of_permissions {user : UserId}
    (allowed : ∀ scope permission,
      e.scanAllowed user scope permission = d.scanAllowed user scope permission)
    (united : ∀ scope, e.scanPermissions user scope = d.scanPermissions user scope)
    {inquiry : Inquiry} (kind : inquiry.ofMembership = false) :
    e.scan user inquiry = d.scan user inquiry := by
  match inquiry with
  | .question (.belongsToRole _) | .question .userRoles => cases kind
  | .question (.userPermissions scope) => exact united scope
  | .question (.hasPermission scope permission) => exact allowed scope permission
  | .checkOrDeny scope permission => simp only [scan, scanOrDeny, allowed]

theorem SameRecords.scanGranted (same : d.SameRecords e) (scope : OrganizationId)
    (permission : String) (roles : List RoleId) :
    e.scanGranted scope permission roles = d.scanGranted scope permission roles := by
  induction roles with
  | nil => rfl
  | cons role roles ih => simp only [Directory.scanGranted, scanRole, same.roles, ih]

theorem SameRecords.scanUnited (same : d.SameRecords e) (scope : OrganizationId)
    (roles : List RoleId) : e.scanUnited scope roles = d.scanUnited scope roles := by
  induction roles with
  | nil => rfl
  | cons role roles ih => simp only [Directory.scanUnited, scanRole, same.roles, ih]

theorem SameRecords.scan (same : d.SameRecords e) (user : UserId) (inquiry : Inquiry) :
    e.scan user inquiry = d.scan user inquiry := by
  have found : e.scanUser user = d.scanUser user := by rw [scanUser, scanUser, same.users]
  cases kind : inquiry.ofMembership with
  | true => exact scan_of_membership found kind
  | false =>
    apply scan_of_permissions _ _ kind
    · intro scope permission
      simp only [scanAllowed, found, same.scanGranted]
    · intro scope
      simp only [scanPermissions, found, same.scanUnited]

end

end Directory

namespace Inquiry

theorem program_scan {d : Directory} {user : UserId} (serves : d.Serves user) (inquiry : Inquiry)
    {s : System} (mirrors : s.Mirrors d) :
    ((inquiry.program user).run s).1 = d.scan user inquiry ∧
      ((inquiry.program user).run s).2.Mirrors d := by
  have member := Query.membership_yields serves.available user
  have checked (scope : OrganizationId) (permission : String) :=
    Query.hasPermission_yields serves.available scope permission serves.roles s mirrors
  match inquiry with
  | question (.belongsToRole role) => exact member.map (Membership.contains · role) s mirrors
  | question .userRoles => exact member.map Membership.roles s mirrors
  | question (.userPermissions scope) =>
    exact Query.userPermissions_yields serves.available scope serves.roles s mirrors
  | question (.hasPermission scope permission) => exact checked scope permission
  | checkOrDeny scope permission =>
    obtain ⟨answered, after⟩ := checked scope permission
    rw [program_run]
    refine ⟨?_, after⟩
    have settled := congrArg (checkOrDeny scope permission).settle answered
    refine settled.trans ?_
    rw [Directory.scan, Directory.scanOrDeny]
    cases d.scanAllowed user scope permission <;> rfl

end Inquiry

/-- The directory has the records of a given one at the time of the visit, and it serves whatever
is loaded. -/
structure Visit.Reads (v : Visit) (d : Directory) : Prop where
  same : d.SameRecords v.directory
  serves : v.directory.Serves v.user

/-- The replies are those of a scan, whatever is cached. -/
theorem System.replies_scanned {s : System} (coherent : s.Coherent) {vs : List Visit}
    (reads : ∀ v ∈ vs, v.Reads s.directory) :
    s.resolver.replies vs = vs.map s.directory.scanned := by
  induction vs generalizing s with
  | nil => rfl
  | cons v vs ih =>
    obtain ⟨same, serves⟩ := reads v List.mem_cons_self
    have current : Coherent ⟨s.resolver, v.directory⟩ := coherent.records same
    obtain ⟨answered, mirrors⟩ := Inquiry.program_scan serves v.inquiry current.mirrors
    have still : Coherent ⟨(s.resolver.visit v).2.resolver, s.directory⟩ :=
      mirrors.coherent.records (same.trans mirrors.alike.toSameRecords).symm
    have first : (s.resolver.visit v).1 = s.directory.scan v.user v.inquiry :=
      answered.trans (same.scan v.user v.inquiry)
    have others := ih still fun w member => reads w (List.mem_cons_of_mem _ member)
    rw [Resolver.replies, List.map_cons, Directory.scanned, first, others]

end Authorization
