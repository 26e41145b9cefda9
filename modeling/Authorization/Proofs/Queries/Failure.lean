import Authorization.Proofs.Queries.Lookup

namespace Authorization

inductive Question where
  | belongsToRole (role : RoleId)
  | userRoles
  | userPermissions (scope : OrganizationId)
  | hasPermission (scope : OrganizationId) (permission : String)

namespace Question

abbrev Answer : Question → Type
  | belongsToRole _ | hasPermission _ _ => Bool
  | userRoles => List RoleId
  | userPermissions _ => OrderedSet String

def query (user : UserId) : (question : Question) → Query question.Answer
  | belongsToRole role => Query.belongsToRole user role
  | userRoles => Query.userRoles user
  | userPermissions scope => Query.userPermissions user scope
  | hasPermission scope permission => Query.hasPermission user scope permission

def needs : Question → List RoleId → List RoleId
  | belongsToRole _, _ | userRoles, _ => []
  | userPermissions _, roles | hasPermission _ _, roles => roles

/-- Whether a role settles a question, so that the roles after it do not matter. -/
def settledBy : Question → RoleGrant → Bool
  | hasPermission scope permission, g => g.grants scope permission
  | _, _ => false

end Question

/-- Roles are resolved one after the other as long as none settles the question, and after some of
them there is one that fails. -/
inductive RolesFail (settles : RoleGrant → Bool) :
    System → List RoleId → List RoleId → RoleId → Error → Prop where
  | here {s : System} {role : RoleId} {roles : List RoleId} {e : Error}
    (fails : s.Fails (.role role) e) : RolesFail settles s (role :: roles) [] role e
  | later {s : System} {first role : RoleId} {roles before : List RoleId} {g : RoleGrant}
    {e : Error} (found : (s.lookUp (.role first)).1 = .ok g) (unsettled : settles g = false)
    (fails : RolesFail settles (s.lookUp (.role first)).2 roles before role e) :
    RolesFail settles s (first :: roles) (first :: before) role e

/-- The membership of a user and then the roles that a question needs are resolved, and after some
of these keys there is one that fails. -/
inductive Question.FailsAt (question : Question) (s : System) (user : UserId) :
    List Key → Key → Error → Prop where
  | membership {e : Error} (fails : s.Fails (.user user) e) :
    FailsAt question s user [] (.user user) e
  | role {m : Membership} {before : List RoleId} {role : RoleId} {e : Error}
    (found : (s.lookUp (.user user)).1 = .ok m)
    (fails : RolesFail question.settledBy (s.lookUp (.user user)).2 (question.needs m.roles) before
      role e) : FailsAt question s user (.user user :: before.map .role) (.role role) e

namespace Query

variable {α β : Type} {settles : RoleGrant → Bool} {roles : List RoleId}

def Safe (q : Query α) : Prop := ∀ s, ∃ a, (q.run.run s).1 = .ok a

theorem safe_pure (a : α) : (pure a : Query α).Safe := fun _ => ⟨a, rfl⟩

theorem Safe.bind {q : Query α} {f : α → Query β} (first : q.Safe) (rest : ∀ a, (f a).Safe) :
    (q >>= f).Safe := by
  intro s
  obtain ⟨a, ended⟩ := first s
  rw [run_bind_ok (Prod.ext ended rfl)]
  exact rest a _

/-- Work that resolves roles one after the other until one settles a question, and that fails only
where a role does. -/
inductive Walks (settles : RoleGrant → Bool) : List RoleId → Query α → Prop where
  | ends {q : Query α} (safe : q.Safe) : Walks settles [] q
  | next {role : RoleId} {roles : List RoleId} {f : RoleGrant → Query α}
    (settled : ∀ g, settles g = true → (f g).Safe)
    (unsettled : ∀ g, settles g = false → Walks settles roles (f g)) :
    Walks settles (role :: roles) (roleGrant role >>= f)

theorem Walks.bind {q : Query α} {f : α → Query β} (walks : q.Walks settles roles)
    (rest : ∀ a, (f a).Safe) : (q >>= f).Walks settles roles := by
  induction walks with
  | ends safe => exact .ends (safe.bind rest)
  | next settled _ ih =>
    rw [bind_assoc]
    exact .next (fun g enough => (settled g enough).bind rest) ih

theorem grantedByOne_walks (scope : OrganizationId) (permission : String) (roles : List RoleId) :
    (grantedByOne scope permission roles).Walks (·.grants scope permission) roles := by
  induction roles with
  | nil => exact .ends (safe_pure false)
  | cons role roles ih =>
    refine .next (fun g granted => ?_) (fun g refused => ?_)
    · rw [if_pos granted]
      exact safe_pure true
    · rw [if_neg (ne_true_of_eq_false refused)]
      exact ih

theorem grantedByAll_walks (scope : OrganizationId) (granted : OrderedSet String)
    (roles : List RoleId) : (grantedByAll scope granted roles).Walks (fun _ => false) roles := by
  induction roles generalizing granted with
  | nil => exact .ends (safe_pure granted)
  | cons role roles ih => exact .next nofun fun g _ => ih _

variable {s : System} {e : Error}

theorem Walks.run {q : Query α} (walks : q.Walks settles roles) {before : List RoleId}
    {role : RoleId} (fails : RolesFail settles s roles before role e) :
    q.run.run s = (.error e, (s.lookedUp (before.map .role)).failed (.role role)) := by
  induction fails generalizing q with
  | here fails =>
    cases walks with
    | next _ _ => exact run_bind_error ((roleGrant_run _ _).trans (System.lookUp_of_fails fails)) _
  | later found unsettled _ ih =>
    cases walks with
    | next _ goesOn =>
      rw [run_bind_ok ((roleGrant_run _ _).trans (Prod.ext found rfl))]
      exact ih (goesOn _ unsettled)

theorem Walks.fails {q : Query α} (walks : q.Walks settles roles)
    (failed : (q.run.run s).1 = .error e) :
    ∃ before role, RolesFail settles s roles before role e := by
  induction walks generalizing s with
  | ends safe =>
    obtain ⟨a, ended⟩ := safe s
    rw [ended] at failed
    cases failed
  | @next role roles f settled _ ih =>
    have resolved := roleGrant_run s role
    cases found : (s.lookUp (.role role)).1 with
    | error e' =>
      rw [run_bind_error (resolved.trans (Prod.ext found rfl))] at failed
      cases failed
      exact ⟨[], role, .here (System.fails_of_lookUp found)⟩
    | ok g =>
      rw [run_bind_ok (resolved.trans (Prod.ext found rfl))] at failed
      cases enough : settles g with
      | true =>
        obtain ⟨a, ended⟩ := settled g enough (s.lookUp (.role role)).2
        rw [ended] at failed
        cases failed
      | false =>
        obtain ⟨before, last, fails⟩ := ih g enough failed
        exact ⟨role :: before, last, .later found enough fails⟩

end Query

theorem RolesFail.resolves {settles : RoleGrant → Bool} {s : System} {roles before : List RoleId}
    {role : RoleId} {e : Error} (fails : RolesFail settles s roles before role e) :
    s.Resolves (before.map .role) ∧ (s.lookedUp (before.map .role)).Fails (.role role) e := by
  induction fails with
  | here fails => exact ⟨trivial, fails⟩
  | later found _ _ ih => exact ⟨⟨⟨_, found⟩, ih.1⟩, ih.2⟩

namespace Question

variable {question : Question} {s : System} {user : UserId} {before : List Key} {k : Key}
  {e : Error}

theorem query_walks (question : Question) (user : UserId) :
    ∃ f : Membership → Query question.Answer,
      question.query user = Query.membership user >>= f ∧
        ∀ m, (f m).Walks question.settledBy (question.needs m.roles) := by
  cases question with
  | belongsToRole role => exact ⟨_, rfl, fun m => .ends (Query.safe_pure _)⟩
  | userRoles => exact ⟨_, rfl, fun m => .ends (Query.safe_pure _)⟩
  | userPermissions scope => exact ⟨_, rfl, fun m => Query.grantedByAll_walks scope .empty m.roles⟩
  | hasPermission scope permission =>
    refine ⟨_, rfl, fun m => ?_⟩
    apply (Query.grantedByOne_walks scope permission m.roles).bind
    intro allowed _
    exact ⟨allowed, rfl⟩

theorem FailsAt.run (fails : question.FailsAt s user before k e) :
    (question.query user).run.run s = (.error e, (s.lookedUp before).failed k) := by
  obtain ⟨f, shape, walks⟩ := question.query_walks user
  rw [shape]
  have resolved := Query.membership_run s user
  cases fails with
  | membership fails =>
    exact Query.run_bind_error (resolved.trans (System.lookUp_of_fails fails)) f
  | role found fails =>
    rw [Query.run_bind_ok (resolved.trans (Prod.ext found rfl))]
    exact (walks _).run fails

theorem failsAt_of_error (failed : ((question.query user).run.run s).1 = .error e) :
    ∃ before k, question.FailsAt s user before k e := by
  obtain ⟨f, shape, walks⟩ := question.query_walks user
  rw [shape] at failed
  have resolved := Query.membership_run s user
  cases found : (s.lookUp (.user user)).1 with
  | error e' =>
    rw [Query.run_bind_error (resolved.trans (Prod.ext found rfl))] at failed
    cases failed
    exact ⟨[], .user user, .membership (System.fails_of_lookUp found)⟩
  | ok m =>
    rw [Query.run_bind_ok (resolved.trans (Prod.ext found rfl))] at failed
    obtain ⟨before, role, fails⟩ := (walks m).fails failed
    exact ⟨_, _, .role found fails⟩

theorem FailsAt.resolves (fails : question.FailsAt s user before k e) :
    s.Resolves before ∧ (s.lookedUp before).Fails k e := by
  cases fails with
  | membership fails => exact ⟨trivial, fails⟩
  | role found fails => exact ⟨⟨⟨_, found⟩, fails.resolves.1⟩, fails.resolves.2⟩

end Question

namespace System

/-- What is left after some keys were resolved and the next one failed: nothing but what resolving
those keys left, one more miss and one more load error. -/
structure Untraced (s : System) (before : List Key) (k : Key) (after : System) : Prop where
  kept : ∀ front key back, before = front ++ key :: back →
    ∃ v, ((s.lookedUp front).lookUp key).1 = .ok v ∧
      (s.lookedUp (front ++ [key])).resolver.cached? key = some v
  reached : (s.lookedUp before).resolver.cached? k = none
  resolver : after.resolver = ((s.lookedUp before).resolver.missed k).loadFailed
  uncached : after.resolver.cached? k = none
  activity : after.resolver.activity =
    { s.resolver.activity with loadErrors := s.resolver.activity.loadErrors + 1 }

theorem untraced_of_failsAt {s : System} {question : Question} {user : UserId} {before : List Key}
    {k : Key} {e : Error} (fails : question.FailsAt s user before k e) :
    s.Untraced before k ((question.query user).run.run s).2 := by
  obtain ⟨resolves, unresolved, refused⟩ := fails.resolves
  rw [fails.run]
  constructor
  · rintro front key back rfl
    exact resolves.cached?
  · exact unresolved
  · rfl
  · have same := (s.lookedUp before).resolver.cached?_missed k
    rw [unresolved] at same
    cases k <;> exact same
  · have counted := (s.lookedUp before).resolver.activity_missed k
    rw [resolves.activity] at counted
    simp only [failed, Resolver.loadFailed, Activity.recordLoadError, counted]

/-- A question about a user fails where the first of its keys that is not cached cannot be loaded,
with the error of that load, of which nothing is left in the caches. -/
theorem failed_load_untraced (s : System) (user : UserId) :
    (∀ question : Question,
      (∀ e, ((question.query user).run.run s).1 = .error e ↔
        ∃ before k, question.FailsAt s user before k e) ∧
      ∀ before k e, question.FailsAt s user before k e →
        s.Untraced before k ((question.query user).run.run s).2) ∧
    ∀ scope permission,
      (((Query.checkOrDeny user scope permission).run s).1 = false ↔
        (∃ before k e, (Question.hasPermission scope permission).FailsAt s user before k e) ∨
          ((Query.hasPermission user scope permission).run.run s).1 = .ok false) ∧
      ((Query.checkOrDeny user scope permission).run s).2 =
        ((Query.hasPermission user scope permission).run.run s).2 := by
  have error_iff (question : Question) (e : Error) :
      ((question.query user).run.run s).1 = .error e ↔
        ∃ before k, question.FailsAt s user before k e := by
    constructor
    · exact Question.failsAt_of_error
    · rintro ⟨before, k, fails⟩
      exact congrArg Prod.fst fails.run
  refine ⟨fun question => ⟨error_iff question, fun _ _ _ => untraced_of_failsAt⟩,
    fun scope permission => ⟨?_, ?_⟩⟩
  · have failing := error_iff (.hasPermission scope permission)
    rw [fst_checkOrDeny]
    cases answered : ((Query.hasPermission user scope permission).run.run s).1 with
    | ok allowed =>
      have never : ¬ ∃ before k e,
          (Question.hasPermission scope permission).FailsAt s user before k e := by
        rintro ⟨before, k, e, fails⟩
        have failed := (failing e).2 ⟨before, k, fails⟩
        rw [Question.query, answered] at failed
        cases failed
      simp [never]
    | error e =>
      obtain ⟨before, k, fails⟩ := (failing e).1 answered
      exact iff_of_true rfl (.inl ⟨before, k, e, fails⟩)
  · rw [Query.checkOrDeny, Program.run_bind]
    cases ((Query.hasPermission user scope permission).run.run s).1 <;> rfl

/-- The first role is loaded and kept, the second is not on record. -/
theorem failed_load_untraced_dangling :
    ((Query.userPermissions ⟨1⟩ ⟨3⟩).run.run dangling).1 = .error (.roleNotFound ⟨9⟩) ∧
      dangling.Untraced [.user ⟨1⟩, .role ⟨7⟩] (.role ⟨9⟩)
        ((Query.userPermissions ⟨1⟩ ⟨3⟩).run.run dangling).2 := by
  obtain ⟨error_iff, untraced⟩ :=
    (failed_load_untraced dangling ⟨1⟩).1 (.userPermissions ⟨3⟩)
  have second : RolesFail (fun _ => false) (dangling.lookUp (.user ⟨1⟩)).2 [⟨7⟩, ⟨9⟩] [⟨7⟩] ⟨9⟩
      (.roleNotFound ⟨9⟩) := .later rfl rfl (.here ⟨rfl, rfl⟩)
  have fails : (Question.userPermissions ⟨3⟩).FailsAt dangling ⟨1⟩
      (.user ⟨1⟩ :: ([⟨7⟩] : List RoleId).map .role) (.role ⟨9⟩) (.roleNotFound ⟨9⟩) :=
    .role (m := ⟨⟨1⟩, [⟨7⟩, ⟨9⟩]⟩) rfl second
  exact ⟨(error_iff _).2 ⟨_, _, fails⟩, untraced _ _ _ fails⟩

end System

end Authorization
