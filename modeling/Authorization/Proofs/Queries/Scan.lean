import Authorization.Proofs.Queries.Coherence
import Authorization.Proofs.Snapshots.Fact

namespace Authorization

namespace Directory

def scanUser (d : Directory) (user : UserId) : Except Error User :=
  match d.users.find? user with
  | some record => .ok record
  | none => .error (.userNotFound user)

def scanRole (d : Directory) (role : RoleId) : Except Error Role :=
  match d.roles.find? role with
  | some record => .ok record
  | none => .error (.roleNotFound role)

/-- Goes through the roles up to the first that grants the permission. -/
def scanGranted (d : Directory) (scope : OrganizationId) (permission : String) :
    List RoleId → Except Error Bool
  | [] => .ok false
  | role :: roles =>
    (d.scanRole role).bind fun record =>
      if record.Grants scope permission then .ok true else d.scanGranted scope permission roles

/-- Goes through all the roles and unites what those that count in the scope grant. -/
def scanUnited (d : Directory) (scope : OrganizationId) :
    List RoleId → Except Error (OrderedSet String)
  | [] => .ok .empty
  | role :: roles =>
    (d.scanRole role).bind fun record =>
      (d.scanUnited scope roles).map fun others =>
        if record.AppliesIn scope then record.permissions.union others else others

def scanRoles (d : Directory) (user : UserId) : Except Error (List RoleId) :=
  (d.scanUser user).map (·.roles)

def scanMember (d : Directory) (user : UserId) (role : RoleId) : Except Error Bool :=
  (d.scanUser user).map fun record => record.roles.contains role

def scanAllowed (d : Directory) (user : UserId) (scope : OrganizationId) (permission : String) :
    Except Error Bool :=
  (d.scanUser user).bind fun record => d.scanGranted scope permission record.roles

def scanOrDeny (d : Directory) (user : UserId) (scope : OrganizationId) (permission : String) :
    Bool :=
  match d.scanAllowed user scope permission with
  | .ok allowed => allowed
  | .error _ => false

def scanPermissions (d : Directory) (user : UserId) (scope : OrganizationId) :
    Except Error (OrderedSet String) :=
  (d.scanUser user).bind fun record => d.scanUnited scope record.roles

theorem scanUser_ok {d : Directory} {user : UserId} {record : User}
    (ok : d.scanUser user = .ok record) : d.users.find? user = some record := by
  unfold scanUser at ok
  split at ok
  · rename_i found there
    cases ok
    exact there
  · cases ok

end Directory

/-- A coherent system with the records and the faults of a directory. -/
structure System.Mirrors (s : System) (d : Directory) : Prop where
  coherent : s.Coherent
  alike : d.Alike s.directory

namespace System.Mirrors

variable {s : System} {d : Directory}

theorem perform (mirrors : s.Mirrors d) (a : Act) : (s.perform a).2.Mirrors d :=
  ⟨mirrors.coherent.agrees (s.resolver.perform_agrees a), mirrors.alike⟩

theorem recorded (mirrors : s.Mirrors d) {k : Key} {v : k.Snapshot}
    (held : s.resolver.cached? k = some v) : d.snapshot? k = some v :=
  (mirrors.alike.toSameRecords.snapshot? k).symm.trans (mirrors.coherent k v held)

theorem serve_loadUser (mirrors : s.Mirrors d) (up : d.available = true) (user : UserId) :
    (s.directory.serve (.loadUser user)).1 = d.scanUser user := by
  simp only [Directory.serve, mirrors.alike.available, up, if_true, Directory.findUser,
    mirrors.alike.users]
  rfl

theorem serve_loadRole (mirrors : s.Mirrors d) (up : d.available = true) {role : RoleId}
    (serving : d.failingRoles.contains role = false) :
    (s.directory.serve (.loadRole role)).1 = d.scanRole role := by
  simp only [Directory.serve, mirrors.alike.available, up, if_true, Directory.findRole,
    mirrors.alike.failingRoles, serving, Bool.false_eq_true, if_false, mirrors.alike.roles]
  rfl

theorem read (mirrors : s.Mirrors d) {request : Request} (reads : request.Reads) :
    (s.request request).2.Mirrors d :=
  ⟨mirrors.coherent.read reads, mirrors.alike.trans (s.directory.serve_reads reads)⟩

end System.Mirrors

namespace Query

variable {α β : Type} {d : Directory}

/-- In every system that mirrors a directory a query has the given outcome, and the system mirrors
the directory afterwards. -/
def Yields (d : Directory) (q : Query α) (outcome : Except Error α) : Prop :=
  ∀ s : System, s.Mirrors d → (q.run.run s).1 = outcome ∧ (q.run.run s).2.Mirrors d

theorem yields_pure (a : α) : Yields d (pure a : Query α) (.ok a) :=
  fun _ mirrors => ⟨rfl, mirrors⟩

theorem Yields.bind {γ : Type} {q : Query α} {f : α → Query β} {scan : Except Error γ} {g : γ → α}
    {rest : γ → Except Error β} (begins : Yields d q (scan.map g))
    (goesOn : ∀ c, scan = .ok c → Yields d (f (g c)) (rest c)) :
    Yields d (q >>= f) (scan.bind rest) := by
  intro s mirrors
  obtain ⟨outcome, after⟩ := begins s mirrors
  rw [ExceptT.run_bind, Program.run_bind, outcome]
  cases scan with
  | ok c => exact goesOn c rfl _ after
  | error e => exact ⟨rfl, after⟩

theorem Yields.map {γ : Type} {q : Query α} {scan : Except Error γ} {g : γ → α} (f : α → β)
    (begins : Yields d q (scan.map g)) :
    Yields d (q >>= fun a => pure (f a)) (scan.map fun c => f (g c)) := by
  have result : Yields d (q >>= fun a => pure (f a)) (scan.bind fun c => .ok (f (g c))) :=
    begins.bind fun c _ => yields_pure (f (g c))
  cases scan <;> exact result

theorem Yields.then {q : Query α} {outcome : Except Error α} (begins : Yields d q outcome)
    {f : α → Query α} (same : ∀ a, Yields d (f a) (.ok a)) : Yields d (q >>= f) outcome := by
  have mapped : Yields d q (outcome.map id) := by cases outcome <;> exact begins
  have result := mapped.bind fun a _ => same a
  cases outcome <;> exact result

theorem yields_perform {a : Act} {f : a.Answer → Query β} {outcome : Except Error β}
    (goesOn : ∀ s : System, s.Mirrors d → Yields d (f (s.perform a).1) outcome) :
    Yields d (perform a >>= f) outcome :=
  fun s mirrors => goesOn s mirrors _ (mirrors.perform a)

theorem yields_ask (request : Request) (reads : request.Reads)
    {outcome : Except Error request.Answer}
    (answers : ∀ s : System, s.Mirrors d → (s.directory.serve request).1 = outcome) :
    Yields d (ask request) (outcome.map id) := by
  intro s mirrors
  have same := answers s mirrors
  cases outcome <;> exact ⟨same, mirrors.read reads⟩

theorem membership_yields (up : d.available = true) (user : UserId) :
    Yields d (membership user) ((d.scanUser user).map .ofUser) := by
  apply yields_perform
  intro s mirrors
  cases found : (s.perform (.seekMembership user)).1 with
  | some m =>
    have held : s.resolver.cached? (.user user) = some m :=
      (Cache.fst_get s.resolver.memberships user).symm.trans found
    obtain ⟨record, recorded, rfl⟩ := Option.map_eq_some_iff.1 (mirrors.recorded held)
    rw [Directory.scanUser, recorded]
    exact yields_pure _
  | none =>
    have asked := yields_ask (.loadUser user) trivial fun t mirrors =>
      System.Mirrors.serve_loadUser mirrors up user
    exact asked.map Membership.ofUser

theorem roleGrant_yields (up : d.available = true) {role : RoleId}
    (serving : d.failingRoles.contains role = false) :
    Yields d (roleGrant role) ((d.scanRole role).map .ofRole) := by
  apply yields_perform
  intro s mirrors
  cases found : (s.perform (.seekGrant role)).1 with
  | some g =>
    have held : s.resolver.cached? (.role role) = some g :=
      (Cache.fst_get s.resolver.grants role).symm.trans found
    obtain ⟨record, recorded, rfl⟩ := Option.map_eq_some_iff.1 (mirrors.recorded held)
    rw [Directory.scanRole, recorded]
    exact yields_pure _
  | none =>
    have asked := yields_ask (.loadRole role) trivial fun t mirrors =>
      System.Mirrors.serve_loadRole mirrors up serving
    exact asked.map RoleGrant.ofRole

theorem grantedByOne_yields (up : d.available = true) (scope : OrganizationId)
    (permission : String) {roles : List RoleId}
    (serving : ∀ role ∈ roles, d.failingRoles.contains role = false) :
    Yields d (grantedByOne scope permission roles) (d.scanGranted scope permission roles) := by
  induction roles with
  | nil => exact yields_pure false
  | cons role roles ih =>
    apply (roleGrant_yields up (serving role List.mem_cons_self)).bind
    intro record _
    by_cases grants : record.Grants scope permission
    · rw [if_pos grants, if_pos ((RoleGrant.grants_ofRole record scope permission).2 grants)]
      exact yields_pure true
    · rw [if_neg grants, if_neg fun granted =>
        grants ((RoleGrant.grants_ofRole record scope permission).1 granted)]
      exact ih fun other member => serving other (List.mem_cons_of_mem _ member)

theorem union_unite (granted permissions others : OrderedSet String) :
    (granted.union permissions).union others = granted.union (permissions.union others) :=
  OrderedSet.ext_mem fun x => by simp only [OrderedSet.mem_union, or_assoc]

theorem grantedByAll_yields (up : d.available = true) (scope : OrganizationId)
    (granted : OrderedSet String) {roles : List RoleId}
    (serving : ∀ role ∈ roles, d.failingRoles.contains role = false) :
    Yields d (grantedByAll scope granted roles)
      ((d.scanUnited scope roles).map granted.union) := by
  induction roles generalizing granted with
  | nil => exact yields_pure granted
  | cons role roles ih =>
    have spread : (d.scanUnited scope (role :: roles)).map granted.union =
        (d.scanRole role).bind fun record =>
          (d.scanUnited scope roles).map fun others =>
            granted.union (if record.AppliesIn scope then record.permissions.union others
              else others) := by
      rw [Directory.scanUnited]
      cases d.scanRole role with
      | error _ => rfl
      | ok record => cases d.scanUnited scope roles <;> rfl
    rw [spread]
    apply (roleGrant_yields up (serving role List.mem_cons_self)).bind
    intro record _
    have others := fun more => ih more fun other member =>
      serving other (List.mem_cons_of_mem _ member)
    by_cases applies : record.AppliesIn scope
    · simp only [if_pos applies, if_pos ((RoleGrant.appliesIn_ofRole record scope).2 applies),
        ← union_unite]
      exact others _
    · simp only [if_neg applies, if_neg fun counts =>
        applies ((RoleGrant.appliesIn_ofRole record scope).1 counts)]
      exact others _

theorem hasPermission_yields (up : d.available = true) {user : UserId} (scope : OrganizationId)
    (permission : String) (serving : ∀ record, d.users.find? user = some record →
      ∀ role ∈ record.roles, d.failingRoles.contains role = false) :
    Yields d (hasPermission user scope permission) (d.scanAllowed user scope permission) := by
  apply (membership_yields up user).bind
  intro record found
  have answered := grantedByOne_yields up scope permission
    (serving record (Directory.scanUser_ok found))
  exact answered.then fun allowed => yields_perform fun _ _ => yields_pure allowed

theorem userPermissions_yields (up : d.available = true) {user : UserId} (scope : OrganizationId)
    (serving : ∀ record, d.users.find? user = some record →
      ∀ role ∈ record.roles, d.failingRoles.contains role = false) :
    Yields d (userPermissions user scope) (d.scanPermissions user scope) := by
  apply (membership_yields up user).bind
  intro record found
  have united := grantedByAll_yields up scope .empty
    (serving record (Directory.scanUser_ok found))
  have unite (others : OrderedSet String) : OrderedSet.empty.union others = others :=
    OrderedSet.ext_mem fun x => by simp [OrderedSet.mem_union, OrderedSet.not_mem_empty]
  rw [funext unite] at united
  cases outcome : d.scanUnited scope record.roles <;> rw [outcome] at united <;> exact united

end Query

namespace System

def sample : System :=
  (call ⟨.sample, .sample⟩ (.hasPermission ⟨1⟩ ⟨3⟩ "x")).call
    (.command (.edit (.addPermission ⟨7⟩ "y")))

end System

end Authorization
