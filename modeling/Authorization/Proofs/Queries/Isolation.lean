import Authorization.Proofs.Queries.Scan

namespace Authorization

namespace Role

/-- Two records that an organization cannot tell apart: it owns both, and then they have the same
permissions and the same deletion mark, or it owns neither. -/
structure SameTo (scope : OrganizationId) (a b : Role) : Prop where
  owned : a.organization = scope ↔ b.organization = scope
  permissions : a.organization = scope → a.permissions = b.permissions
  deleted : a.organization = scope → a.deleted = b.deleted

theorem organization_of_appliesIn {role : Role} {scope : OrganizationId}
    (concrete : scope.isAny = false) (applies : role.AppliesIn scope) :
    role.organization = scope := by
  have admitted := applies.2
  simp only [OrganizationId.admits, concrete, Bool.false_or, beq_iff_eq] at admitted
  exact admitted.symm

namespace SameTo

variable {scope : OrganizationId} {a b : Role}

theorem symm (same : a.SameTo scope b) : b.SameTo scope a where
  owned := same.owned.symm
  permissions owned := (same.permissions (same.owned.2 owned)).symm
  deleted owned := (same.deleted (same.owned.2 owned)).symm

theorem appliesIn (same : a.SameTo scope b) (concrete : scope.isAny = false)
    (applies : a.AppliesIn scope) : b.AppliesIn scope := by
  have owner := organization_of_appliesIn concrete applies
  have present : b.deleted = false := (same.deleted owner).symm.trans applies.1
  have admitted : scope.admits b.organization = true := by
    rw [same.owned.1 owner, ← owner]
    simp [OrganizationId.admits]
  exact ⟨present, admitted⟩

theorem appliesIn_iff (same : a.SameTo scope b) (concrete : scope.isAny = false) :
    a.AppliesIn scope ↔ b.AppliesIn scope :=
  ⟨same.appliesIn concrete, same.symm.appliesIn concrete⟩

theorem permissions_of_appliesIn (same : a.SameTo scope b) (concrete : scope.isAny = false)
    (applies : a.AppliesIn scope) : a.permissions = b.permissions :=
  same.permissions (organization_of_appliesIn concrete applies)

theorem grants_iff (same : a.SameTo scope b) (concrete : scope.isAny = false)
    (permission : String) : a.Grants scope permission ↔ b.Grants scope permission := by
  unfold Grants
  rw [← same.appliesIn_iff concrete]
  apply and_congr_right
  intro applies
  rw [same.permissions_of_appliesIn concrete applies]

end SameTo

end Role

namespace Directory

/-- The directory answers, and it answers for every role that the user is a member of. -/
structure Serves (d : Directory) (user : UserId) : Prop where
  available : d.available = true
  roles : ∀ record, d.users.find? user = some record →
    ∀ role ∈ record.roles, d.failingRoles.contains role = false

/-- Two directories that list the same roles for a user, of which the same ones exist, with records
that an organization cannot tell apart. Of roles with another owner nothing else is asked. -/
structure SameTo (scope : OrganizationId) (user : UserId) (d e : Directory) : Prop where
  listed : (d.users.find? user).map (·.roles) = (e.users.find? user).map (·.roles)
  recorded : ∀ record, d.users.find? user = some record → ∀ role ∈ record.roles,
    Option.Rel (Role.SameTo scope) (d.roles.find? role) (e.roles.find? role)

variable {d e : Directory} {scope : OrganizationId}

theorem scanRole_same {role : RoleId}
    (same : Option.Rel (Role.SameTo scope) (d.roles.find? role) (e.roles.find? role)) :
    (∃ a b, d.scanRole role = .ok a ∧ e.scanRole role = .ok b ∧ a.SameTo scope b) ∨
      ∃ error, d.scanRole role = .error error ∧ e.scanRole role = .error error := by
  unfold scanRole
  cases there : d.roles.find? role with
  | none =>
    rw [there] at same
    cases other : e.roles.find? role with
    | none => exact .inr ⟨.roleNotFound role, rfl, rfl⟩
    | some b =>
      rw [other] at same
      cases same
  | some a =>
    rw [there] at same
    cases other : e.roles.find? role with
    | none =>
      rw [other] at same
      cases same
    | some b =>
      rw [other] at same
      cases same with
      | some alike => exact .inl ⟨a, b, rfl, rfl, alike⟩

/-- Both scans step past the same roles and stop at the same one. -/
theorem scanGranted_same (concrete : scope.isAny = false) (permission : String)
    {roles : List RoleId} (same : ∀ role ∈ roles,
      Option.Rel (Role.SameTo scope) (d.roles.find? role) (e.roles.find? role)) :
    d.scanGranted scope permission roles = e.scanGranted scope permission roles := by
  induction roles with
  | nil => rfl
  | cons role roles ih =>
    have others := ih fun other member => same other (List.mem_cons_of_mem _ member)
    unfold scanGranted
    rcases scanRole_same (same role List.mem_cons_self) with
      ⟨a, b, first, second, alike⟩ | ⟨error, first, second⟩
    · rw [first, second, others]
      simp only [Except.bind, alike.grants_iff concrete permission]
    · rw [first, second]
      rfl

theorem scanUnited_same (concrete : scope.isAny = false) {roles : List RoleId}
    (same : ∀ role ∈ roles,
      Option.Rel (Role.SameTo scope) (d.roles.find? role) (e.roles.find? role)) :
    d.scanUnited scope roles = e.scanUnited scope roles := by
  induction roles with
  | nil => rfl
  | cons role roles ih =>
    have others := ih fun other member => same other (List.mem_cons_of_mem _ member)
    unfold scanUnited
    rcases scanRole_same (same role List.mem_cons_self) with
      ⟨a, b, first, second, alike⟩ | ⟨error, first, second⟩
    · rw [first, second, others]
      by_cases applies : a.AppliesIn scope
      · have permissions := alike.permissions_of_appliesIn concrete applies
        have applied := alike.appliesIn concrete applies
        simp only [Except.bind, if_pos applies, if_pos applied, permissions]
      · have ignored : ¬ b.AppliesIn scope := fun applied =>
          applies (alike.symm.appliesIn concrete applied)
        simp only [Except.bind, if_neg applies, if_neg ignored]
    · rw [first, second]
      rfl

theorem SameTo.scan {user : UserId} (same : d.SameTo scope user e) {α : Type}
    {f g : List RoleId → Except Error α}
    (alike : ∀ record, d.users.find? user = some record → f record.roles = g record.roles) :
    ((d.scanUser user).bind fun record => f record.roles) =
      (e.scanUser user).bind fun record => g record.roles := by
  have listed := same.listed
  unfold scanUser
  cases found : d.users.find? user with
  | none =>
    rw [found] at listed
    rw [Option.map_eq_none_iff.1 listed.symm]
    rfl
  | some record =>
    rw [found] at listed
    obtain ⟨other, there, roles⟩ := Option.map_eq_some_iff.1 listed.symm
    rw [there]
    simp only [Except.bind]
    rw [roles]
    exact alike record found

end Directory

namespace System

variable {s t : System} {user : UserId} {scope : OrganizationId}

theorem Coherent.mirrors (coherent : s.Coherent) : s.Mirrors s.directory :=
  ⟨coherent, ⟨rfl, rfl, rfl⟩, rfl, rfl⟩

theorem fst_checkOrDeny (permission : String) :
    ((Query.checkOrDeny user scope permission).run s).1 =
      match ((Query.hasPermission user scope permission).run.run s).1 with
      | .ok allowed => allowed
      | .error _ => false := by
  rw [Query.checkOrDeny, Program.run_bind]
  cases ((Query.hasPermission user scope permission).run.run s).1 <;> rfl

/-- What an organization is answered about a user depends on nothing that other organizations own,
nor on what is cached. -/
theorem answers_isolated (left : s.Coherent) (right : t.Coherent)
    (serves : s.directory.Serves user) (servesToo : t.directory.Serves user)
    (concrete : scope.isAny = false) (same : s.directory.SameTo scope user t.directory)
    (permission : String) :
    ((Query.hasPermission user scope permission).run.run s).1 =
      ((Query.hasPermission user scope permission).run.run t).1 ∧
    ((Query.checkOrDeny user scope permission).run s).1 =
      ((Query.checkOrDeny user scope permission).run t).1 ∧
    ((Query.userPermissions user scope).run.run s).1 =
      ((Query.userPermissions user scope).run.run t).1 := by
  have allowed : s.directory.scanAllowed user scope permission =
      t.directory.scanAllowed user scope permission :=
    same.scan fun record found =>
      Directory.scanGranted_same concrete permission (same.recorded record found)
  have united : s.directory.scanPermissions user scope = t.directory.scanPermissions user scope :=
    same.scan fun record found => Directory.scanUnited_same concrete (same.recorded record found)
  have checked : ((Query.hasPermission user scope permission).run.run s).1 =
      ((Query.hasPermission user scope permission).run.run t).1 := by
    have first := Query.hasPermission_yields serves.available scope permission serves.roles
    have second := Query.hasPermission_yields servesToo.available scope permission servesToo.roles
    rw [(first s left.mirrors).1, (second t right.mirrors).1, allowed]
  refine ⟨checked, ?_, ?_⟩
  · rw [fst_checkOrDeny, fst_checkOrDeny, checked]
  · have first := Query.userPermissions_yields serves.available scope serves.roles
    have second := Query.userPermissions_yields servesToo.available scope servesToo.roles
    rw [(first s left.mirrors).1, (second t right.mirrors).1, united]

/-- One role of organization 3 and one of a neighbour, both given to one user. -/
def shared (owner : OrganizationId) (permissions : List String) : Directory :=
  ((Directory.empty.insertUser ⟨⟨1⟩, [⟨8⟩, ⟨7⟩]⟩).insertRole
    ⟨⟨7⟩, ⟨3⟩, "", "", .ofList ["x"], false⟩).insertRole
    ⟨⟨8⟩, owner, "", "", .ofList permissions, false⟩

theorem filled_shared (owner : OrganizationId) (permissions : List String) :
    (shared owner permissions).Filled :=
  .upkeep (.upkeep (.upkeep .empty (.insertUser ⟨⟨1⟩, [⟨8⟩, ⟨7⟩]⟩))
    (.insertRole ⟨⟨7⟩, ⟨3⟩, "", "", .ofList ["x"], false⟩))
    (.insertRole ⟨⟨8⟩, owner, "", "", .ofList permissions, false⟩)

def warm : System := call ⟨.sample, shared ⟨5⟩ ["y"]⟩ (.hasPermission ⟨1⟩ ⟨3⟩ "x")

def cold : System := ⟨{ Resolver.sample with grants := .new 9 }, shared .any ["x", "z"]⟩

/-- A neighbour whose owner is the wildcard grants nothing in organization 3 either. -/
theorem answers_isolated_wildcard :
    ((Query.hasPermission ⟨1⟩ ⟨3⟩ "z").run.run warm).1 =
      ((Query.hasPermission ⟨1⟩ ⟨3⟩ "z").run.run cold).1 ∧
    ((Query.checkOrDeny ⟨1⟩ ⟨3⟩ "z").run warm).1 = ((Query.checkOrDeny ⟨1⟩ ⟨3⟩ "z").run cold).1 ∧
    ((Query.userPermissions ⟨1⟩ ⟨3⟩).run.run warm).1 =
      ((Query.userPermissions ⟨1⟩ ⟨3⟩).run.run cold).1 := by
  have reached : warm.Reached :=
    .call (.built Resolver.build_sample (filled_shared ⟨5⟩ ["y"])) _
  have empty : cold.Coherent := fun k v held => by cases k <;> cases held
  have own : (⟨⟨7⟩, ⟨3⟩, "", "", .ofList ["x"], false⟩ : Role).SameTo ⟨3⟩
      ⟨⟨7⟩, ⟨3⟩, "", "", .ofList ["x"], false⟩ := ⟨Iff.rfl, fun _ => rfl, fun _ => rfl⟩
  have foreign : (⟨⟨8⟩, ⟨5⟩, "", "", .ofList ["y"], false⟩ : Role).SameTo ⟨3⟩
      ⟨⟨8⟩, .any, "", "", .ofList ["x", "z"], false⟩ :=
    ⟨by decide, fun owned => absurd owned (by decide), fun owned => absurd owned (by decide)⟩
  have same : warm.directory.SameTo ⟨3⟩ ⟨1⟩ cold.directory := by
    refine ⟨rfl, fun record found role member => ?_⟩
    obtain rfl := Option.some.inj found
    rcases List.mem_cons.1 member with rfl | member
    · exact .some foreign
    · obtain rfl := List.mem_singleton.1 member
      exact .some own
  exact answers_isolated reached.steady.coherent empty ⟨rfl, fun _ _ _ _ => rfl⟩
    ⟨rfl, fun _ _ _ _ => rfl⟩ (by decide) same "z"

end System

end Authorization
