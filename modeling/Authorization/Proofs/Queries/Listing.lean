import Authorization.Proofs.Queries.Isolation

namespace Authorization

namespace Query

/-- Resolves roles one after the other. -/
def roleGrants (roles : List RoleId) : Query (List RoleGrant) := roles.mapM roleGrant

/-- Adds to some permissions those that roles grant in a scope. -/
def unite (scope : OrganizationId) (granted : OrderedSet String) (grants : List RoleGrant) :
    OrderedSet String :=
  grants.foldl (fun granted g => if g.appliesIn scope then granted.union g.permissions else granted)
    granted

theorem mem_unite {scope : OrganizationId} {granted : OrderedSet String} {grants : List RoleGrant}
    {permission : String} : permission ∈ unite scope granted grants ↔
      permission ∈ granted ∨ grants.any (·.grants scope permission) = true := by
  induction grants generalizing granted with
  | nil => simp [unite]
  | cons g grants ih =>
    rw [unite, List.foldl_cons, ← unite, ih, List.any_cons, Bool.or_eq_true, ← or_assoc]
    apply or_congr_left
    by_cases applies : g.appliesIn scope = true
    · simp [applies, OrderedSet.mem_union, RoleGrant.grants, OrderedSet.contains_iff]
    · simp [applies, RoleGrant.grants]

theorem contains_unite (scope : OrganizationId) (grants : List RoleGrant) (permission : String) :
    (unite scope .empty grants).contains permission =
      grants.any (·.grants scope permission) := by
  rw [Bool.eq_iff_iff, OrderedSet.contains_iff, mem_unite]
  exact or_iff_right (OrderedSet.not_mem_empty permission)

theorem roleGrants_cons (role : RoleId) (roles : List RoleId) :
    roleGrants (role :: roles) =
      roleGrant role >>= fun g => roleGrants roles >>= fun grants => pure (g :: grants) :=
  List.mapM_cons

/-- A listing resolves all the roles and then unites what they grant. -/
theorem grantedByAll_eq (scope : OrganizationId) (granted : OrderedSet String)
    (roles : List RoleId) : grantedByAll scope granted roles =
      roleGrants roles >>= fun grants => pure (unite scope granted grants) := by
  induction roles generalizing granted with
  | nil => rfl
  | cons role roles ih =>
    rw [roleGrants_cons, grantedByAll]
    simp only [ih, bind_assoc, pure_bind]
    rfl

section

variable {α β : Type} {s t : System}

theorem run_bind_ok {q : Query α} {a : α} (first : q.run.run s = (.ok a, t)) (f : α → Query β) :
    (q >>= f).run.run s = (f a).run.run t := by
  rw [ExceptT.run_bind, Program.run_bind, first]

theorem run_bind_error {q : Query α} {e : Error} (first : q.run.run s = (.error e, t))
    (f : α → Query β) : (q >>= f).run.run s = (.error e, t) := by
  rw [ExceptT.run_bind, Program.run_bind, first]
  rfl

/-- While no role grants the permission, a check resolves what a listing resolves, in the same
states. -/
theorem grantedByOne_append (scope : OrganizationId) (permission : String) {front : List RoleId}
    {grants : List RoleGrant} (resolved : (roleGrants front).run.run s = (.ok grants, t))
    (back : List RoleId) :
    ((grantedByOne scope permission (front ++ back)).run.run s).1 =
      if grants.any (·.grants scope permission) then .ok true
      else ((grantedByOne scope permission back).run.run t).1 := by
  induction front generalizing s grants with
  | nil =>
    cases resolved
    rfl
  | cons role front ih =>
    rw [roleGrants_cons] at resolved
    rw [List.cons_append, grantedByOne]
    rcases first : (roleGrant role).run.run s with ⟨e | g, between⟩
    · rw [run_bind_error first] at resolved
      cases resolved
    · rw [run_bind_ok first] at resolved ⊢
      rcases others : (roleGrants front).run.run between with ⟨e | rest, after⟩
      · rw [run_bind_error others] at resolved
        cases resolved
      · rw [run_bind_ok others] at resolved
        cases resolved
        rw [List.any_cons]
        cases granted : g.grants scope permission with
        | true => rfl
        | false => exact ih others

theorem grantedByOne_resolved (scope : OrganizationId) (permission : String) {roles : List RoleId}
    {grants : List RoleGrant} (resolved : (roleGrants roles).run.run s = (.ok grants, t)) :
    ((grantedByOne scope permission roles).run.run s).1 =
      .ok (grants.any (·.grants scope permission)) := by
  have answer := grantedByOne_append scope permission resolved []
  rw [List.append_nil] at answer
  rw [answer]
  cases grants.any (·.grants scope permission) <;> rfl

theorem fst_grantedByAll (scope : OrganizationId) (roles : List RoleId) :
    ((grantedByAll scope .empty roles).run.run s).1 =
      ((roleGrants roles).run.run s).1.map (unite scope .empty) := by
  rw [grantedByAll_eq]
  rcases resolved : (roleGrants roles).run.run s with ⟨_ | _, _⟩
  · rw [run_bind_error resolved]
    rfl
  · rw [run_bind_ok resolved]
    rfl

theorem fst_hasPermission {user : UserId} {m : Membership}
    (found : (membership user).run.run s = (.ok m, t)) (scope : OrganizationId)
    (permission : String) : ((hasPermission user scope permission).run.run s).1 =
      ((grantedByOne scope permission m.roles).run.run t).1 := by
  rw [hasPermission, run_bind_ok found]
  rcases answered : (grantedByOne scope permission m.roles).run.run t with ⟨_ | _, _⟩
  · rw [run_bind_error answered]
  · rw [run_bind_ok answered]
    rfl

end

end Query

namespace System

open Query

variable {s : System} {roles : List RoleId} {position : Nat} {grants : List RoleGrant} {e : Error}

/-- The roles before a position of a list are resolved, one after the other, and the role at that
position is not. -/
def StopsAt (s : System) (roles : List RoleId) (position : Nat) (grants : List RoleGrant)
    (e : Error) : Prop :=
  ∃ t, (roleGrants (roles.take position)).run.run s = (.ok grants, t) ∧
    ∃ role, roles[position]? = some role ∧ ((roleGrant role).run.run t).1 = .error e

theorem StopsAt.split (stops : s.StopsAt roles position grants e) :
    ∃ front role back t u, roles = front ++ role :: back ∧
      (roleGrants front).run.run s = (.ok grants, t) ∧
      (roleGrant role).run.run t = (.error e, u) := by
  obtain ⟨t, resolved, role, there, failed⟩ := stops
  obtain ⟨bound, here⟩ := List.getElem?_eq_some_iff.1 there
  have whole : roles = roles.take position ++ role :: roles.drop (position + 1) := by
    rw [← here, ← List.drop_eq_getElem_cons bound, List.take_append_drop]
  exact ⟨_, role, _, t, _, whole, resolved, Prod.ext failed rfl⟩

theorem StopsAt.roleGrants (stops : s.StopsAt roles position grants e) :
    ((Query.roleGrants roles).run.run s).1 = .error e := by
  obtain ⟨front, role, back, t, u, rfl, resolved, failed⟩ := stops.split
  rw [Query.roleGrants, List.mapM_append, ← Query.roleGrants, run_bind_ok resolved,
    ← Query.roleGrants, roleGrants_cons, bind_assoc, run_bind_error failed]

theorem StopsAt.grantedByOne (stops : s.StopsAt roles position grants e) (scope : OrganizationId)
    (permission : String) : ((Query.grantedByOne scope permission roles).run.run s).1 =
      if grants.any (·.grants scope permission) then .ok true else .error e := by
  obtain ⟨front, role, back, t, u, rfl, resolved, failed⟩ := stops.split
  rw [grantedByOne_append scope permission resolved, Query.grantedByOne, run_bind_error failed]

theorem stopsAt_of_error (failed : ((Query.roleGrants roles).run.run s).1 = .error e) :
    ∃ position grants, s.StopsAt roles position grants e := by
  induction roles generalizing s with
  | nil => cases failed
  | cons role roles ih =>
    rw [roleGrants_cons] at failed
    rcases first : (roleGrant role).run.run s with ⟨_ | g, t⟩
    · rw [run_bind_error first] at failed
      cases failed
      exact ⟨0, [], s, rfl, role, rfl, congrArg Prod.fst first⟩
    · rw [run_bind_ok first] at failed
      rcases others : (Query.roleGrants roles).run.run t with ⟨_ | _, _⟩
      · rw [run_bind_error others] at failed
        cases failed
        obtain ⟨position, grants, u, resolved, there⟩ := ih (congrArg Prod.fst others)
        refine ⟨position + 1, g :: grants, u, ?_, there⟩
        rw [List.take_succ_cons, roleGrants_cons, run_bind_ok first, run_bind_ok resolved]
        rfl
      · rw [run_bind_ok others] at failed
        cases failed

/-- From one and the same state, whatever is cached and however stale it is, a check answers what a
listing of the user's permissions says. A check fails like the listing if the user's roles cannot be
resolved, or one of them cannot and no role before it grants the permission. -/
theorem check_agrees_listing (s : System) (user : UserId) (scope : OrganizationId)
    (permission : String) :
    let listed := ((userPermissions user scope).run.run s).1
    let checked := ((hasPermission user scope permission).run.run s).1
    (∀ granted, listed = .ok granted → checked = .ok (granted.contains permission) ∧
      ((checkOrDeny user scope permission).run s).1 = granted.contains permission) ∧
    (∀ e, ((membership user).run.run s).1 = .error e → listed = .error e ∧ checked = .error e) ∧
    (∀ m t position grants e, (membership user).run.run s = (.ok m, t) →
      t.StopsAt m.roles position grants e → listed = .error e ∧
        checked = if grants.any (·.grants scope permission) then .ok true else .error e) ∧
    ∀ e, listed = .error e → ((membership user).run.run s).1 = .error e ∨
      ∃ m t position grants, (membership user).run.run s = (.ok m, t) ∧
        t.StopsAt m.roles position grants e := by
  dsimp only
  rcases found : (membership user).run.run s with ⟨e | m, t⟩
  · have listed : ((userPermissions user scope).run.run s).1 = .error e := by
      rw [userPermissions, run_bind_error found]
    have checked : ((hasPermission user scope permission).run.run s).1 = .error e := by
      rw [hasPermission, run_bind_error found]
    rw [listed, checked]
    refine ⟨fun _ same => ?_, fun _ same => ?_, fun _ _ _ _ _ same => ?_, fun _ same => ?_⟩
    · cases same
    · cases same
      exact ⟨rfl, rfl⟩
    · cases same
    · cases same
      exact .inl rfl
  · have listed : ((userPermissions user scope).run.run s).1 =
        ((roleGrants m.roles).run.run t).1.map (unite scope .empty) := by
      rw [userPermissions, run_bind_ok found, fst_grantedByAll]
    have checked := fst_hasPermission found scope permission
    rw [listed]
    refine ⟨fun granted all => ?_, nofun, fun n u position grants e same stops => ?_,
      fun e failed => .inr ?_⟩
    · rcases resolved : (roleGrants m.roles).run.run t with ⟨_ | grants, u⟩
      · rw [resolved] at all
        cases all
      · rw [resolved] at all
        cases all
        rw [fst_checkOrDeny, checked, grantedByOne_resolved scope permission resolved,
          contains_unite]
        exact ⟨rfl, rfl⟩
    · cases same
      rw [checked, stops.roleGrants, stops.grantedByOne]
      exact ⟨rfl, rfl⟩
    · rcases resolved : (roleGrants m.roles).run.run t with ⟨e' | _, u⟩
      · rw [resolved] at failed
        cases failed
        obtain ⟨position, grants, stops⟩ := stopsAt_of_error (congrArg Prod.fst resolved)
        exact ⟨m, t, position, grants, rfl, stops⟩
      · rw [resolved] at failed
        cases failed

/-- The second role of the user is not on record. -/
def dangling : System :=
  ⟨.sample, Directory.sample.insertUser ⟨⟨1⟩, [⟨7⟩, ⟨9⟩]⟩⟩

theorem check_agrees_listing_dangling :
    ((userPermissions ⟨1⟩ ⟨3⟩).run.run dangling).1 = .error (.roleNotFound ⟨9⟩) ∧
    ((hasPermission ⟨1⟩ ⟨3⟩ "x").run.run dangling).1 = .ok true ∧
    ((hasPermission ⟨1⟩ ⟨3⟩ "z").run.run dangling).1 = .error (.roleNotFound ⟨9⟩) := by
  have stops : ((membership ⟨1⟩).run.run dangling).2.StopsAt [⟨7⟩, ⟨9⟩] 1
      [⟨⟨7⟩, ⟨3⟩, .ofList ["x"], false⟩] (.roleNotFound ⟨9⟩) := ⟨_, rfl, ⟨9⟩, rfl, rfl⟩
  have granted := (check_agrees_listing dangling ⟨1⟩ ⟨3⟩ "x").2.2.1 _ _ _ _ _ rfl stops
  have refused := (check_agrees_listing dangling ⟨1⟩ ⟨3⟩ "z").2.2.1 _ _ _ _ _ rfl stops
  exact ⟨granted.1, granted.2, refused.2⟩

end System

end Authorization
