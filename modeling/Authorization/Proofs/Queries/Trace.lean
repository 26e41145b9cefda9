import Authorization.Proofs.Queries.Inquiry

namespace Authorization

/-- What happens in a run: the resolver acts by itself, or it makes a request and gets an answer. -/
inductive Event where
  | act (act : Act)
  | ask (request : Request) (answer : Except Error request.Answer)

namespace Event

/-- The key that is looked for in its cache. -/
def key? : Event → Option Key
  | act (.seekMembership user) => some (.user user)
  | act (.seekGrant role) => some (.role role)
  | _ => none

def request? : Event → Option Request
  | ask request _ => some request
  | act _ => none

def Succeeds : Event → Prop
  | ask _ (.error _) => False
  | _ => True

instance : DecidablePred Succeeds
  | ask _ (.error _) => .isFalse id
  | ask _ (.ok _) => .isTrue trivial
  | act _ => .isTrue trivial

def sought (events : List Event) : List Key := events.filterMap key?

def requests (events : List Event) : List Request := events.filterMap request?

theorem sought_append (first second : List Event) :
    sought (first ++ second) = sought first ++ sought second := List.filterMap_append

theorem requests_append (first second : List Event) :
    requests (first ++ second) = requests first ++ requests second := List.filterMap_append

end Event

namespace Key

def seek : Key → Act
  | user u => .seekMembership u
  | role x => .seekGrant x

theorem key?_seek (k : Key) : Event.key? (.act k.seek) = some k := by cases k <;> rfl

end Key

namespace Program

variable {α β : Type}

/-- What happens while some work is run to its end with nothing in between. -/
def events : Program α → System → List Event
  | .done _, _ => []
  | .act a next, s => .act a :: (next (s.perform a).1).events (s.perform a).2
  | .ask request next, s =>
    .ask request (s.request request).1 :: (next (s.request request).1).events (s.request request).2
  | .loadRoles roles next, s =>
    (s.loadRoles roles).1.map (fun load => .ask (.loadRole load.1) load.2) ++
      (next (s.loadRoles roles).1).events (s.loadRoles roles).2

theorem events_bind (p : Program α) (f : α → Program β) (s : System) :
    (p >>= f).events s = p.events s ++ (f (p.run s).1).events (p.run s).2 := by
  induction p generalizing s with
  | done _ => rfl
  | act a _ ih => exact congrArg (Event.act a :: ·) (ih _ _)
  | ask request _ ih => exact congrArg (Event.ask request _ :: ·) (ih _ _)
  | loadRoles roles _ ih =>
    exact (congrArg (_ ++ ·) (ih _ _)).trans (List.append_assoc ..).symm

end Program

theorem Inquiry.program_events (inquiry : Inquiry) (user : UserId) (s : System) :
    (inquiry.program user).events s = (inquiry.toQuestion.query user).run.events s := by
  rw [program_eq, Program.events_bind]
  exact List.append_nil _

namespace System

/-- Resolving a key takes a look at its cache, and a load if it is not there. -/
def lookUpEvents (s : System) (k : Key) : List Event :=
  .act k.seek :: match s.resolver.cached? k with
    | some _ => []
    | none => [.ask k.load (s.directory.serve k.load).1]

theorem sought_lookUpEvents (s : System) (k : Key) : Event.sought (s.lookUpEvents k) = [k] := by
  unfold lookUpEvents
  cases s.resolver.cached? k <;> exact List.filterMap_cons_some k.key?_seek

theorem requests_lookUpEvents (s : System) (k : Key) :
    Event.requests (s.lookUpEvents k) =
      match s.resolver.cached? k with
      | some _ => []
      | none => [k.load] := by
  unfold lookUpEvents
  cases s.resolver.cached? k <;> rfl

end System

namespace Query

variable {α β : Type} {s t : System}

theorem events_bind_ok {q : Query α} {a : α} (first : q.run.run s = (.ok a, t)) (f : α → Query β) :
    (q >>= f).run.events s = q.run.events s ++ (f a).run.events t := by
  rw [ExceptT.run_bind, Program.events_bind, first]

theorem events_bind_error {q : Query α} {e : Error} (first : q.run.run s = (.error e, t))
    (f : α → Query β) : (q >>= f).run.events s = q.run.events s := by
  rw [ExceptT.run_bind, Program.events_bind, first]
  exact List.append_nil _

/-- Resolves a key. -/
def lookUp : (k : Key) → Query k.Snapshot
  | .user user => membership user
  | .role role => roleGrant role

theorem lookUp_run (s : System) (k : Key) : (lookUp k).run.run s = s.lookUp k := by
  cases k with
  | user user => exact membership_run s user
  | role role => exact roleGrant_run s role

theorem ask_load_events (s : System) {k : Key} (snapshot : k.load.Answer → k.Snapshot) :
    (ask k.load >>= fun found => pure (snapshot found)).run.events s =
      [.ask k.load (s.directory.serve k.load).1] := by
  have asked : (ask k.load).run.run s = ((s.directory.serve k.load).1, (s.load k).2) :=
    s.request_load k
  cases served : (s.directory.serve k.load).1 with
  | ok found =>
    rw [served] at asked
    rw [events_bind_ok asked, ← served]
    rfl
  | error e =>
    rw [served] at asked
    rw [events_bind_error asked, ← served]
    rfl

theorem lookUp_events (s : System) (k : Key) : (lookUp k).run.events s = s.lookUpEvents k := by
  cases k with
  | user user =>
    rw [lookUp, membership, events_bind_ok (seekMembership_run s user), System.lookUpEvents]
    cases held : s.resolver.cached? (.user user) with
    | some m => rfl
    | none =>
      exact congrArg (Event.act (.seekMembership user) :: ·)
        (ask_load_events (k := .user user) _ .ofUser)
  | role role =>
    rw [lookUp, roleGrant, events_bind_ok (seekGrant_run s role), System.lookUpEvents]
    cases held : s.resolver.cached? (.role role) with
    | some g => rfl
    | none =>
      exact congrArg (Event.act (.seekGrant role) :: ·) (ask_load_events (k := .role role) _ .ofRole)

variable {keys : Key → Prop}

/-- Work that resolves keys one after the other, and counts checks. -/
inductive LooksUp (keys : Key → Prop) : Query α → Prop where
  | done (a : α) : LooksUp keys (pure a)
  | count (allowed : Bool) {q : Query α} (rest : LooksUp keys q) :
      LooksUp keys (perform (.recordCheck allowed) >>= fun _ => q)
  | next {k : Key} (among : keys k) {f : k.Snapshot → Query α} (rest : ∀ v, LooksUp keys (f v)) :
      LooksUp keys (lookUp k >>= f)

theorem LooksUp.bind {q : Query α} (looks : q.LooksUp keys) {f : α → Query β}
    (rest : ∀ a, (f a).LooksUp keys) : (q >>= f).LooksUp keys := by
  induction looks with
  | done a =>
    rw [pure_bind]
    exact rest a
  | count allowed _ ih =>
    rw [bind_assoc]
    exact .count allowed ih
  | next among _ ih =>
    rw [bind_assoc]
    exact .next among ih

/-- Work seeks only the keys that it resolves. -/
theorem LooksUp.sought {q : Query α} (looks : q.LooksUp keys) :
    ∀ k ∈ Event.sought (q.run.events s), keys k := by
  induction looks generalizing s with
  | done a => exact fun _ => nofun
  | count allowed _ ih => exact ih
  | @next k among f _ ih =>
    have seeks := s.sought_lookUpEvents k
    have resolved := lookUp_run s k
    cases found : (s.lookUp k).1 with
    | error e =>
      rw [events_bind_error (resolved.trans (Prod.ext found rfl)), lookUp_events, seeks]
      simpa using among
    | ok v =>
      rw [events_bind_ok (resolved.trans (Prod.ext found rfl)), lookUp_events,
        Event.sought_append, seeks]
      simpa using ⟨among, fun x member => ih v x member⟩

section

variable (roles : ∀ role, keys (.role role))

include roles

theorem grantedByOne_looksUp (scope : OrganizationId) (permission : String) (xs : List RoleId) :
    (grantedByOne scope permission xs).LooksUp keys := by
  induction xs with
  | nil => exact .done false
  | cons role xs ih =>
    apply LooksUp.next (roles role)
    intro g
    split
    · exact .done true
    · exact ih

theorem grantedByAll_looksUp (scope : OrganizationId) (granted : OrderedSet String)
    (xs : List RoleId) : (grantedByAll scope granted xs).LooksUp keys := by
  induction xs generalizing granted with
  | nil => exact .done granted
  | cons role xs ih => exact .next (roles role) fun g => ih _

end

end Query

/-- The keys that may be needed for a question about a user. -/
def Key.Needed (user : UserId) : Key → Prop
  | .user x => x = user
  | .role _ => True

/-- A question begins with the membership of its user, and goes on with roles only. -/
theorem Question.query_looksUp (question : Question) (user : UserId) :
    ∃ f : Membership → Query question.Answer,
      question.query user = Query.lookUp (.user user) >>= f ∧
        ∀ m, (f m).LooksUp (Key.Needed user) := by
  have roles (role : RoleId) : Key.Needed user (.role role) := trivial
  cases question with
  | belongsToRole role => exact ⟨_, rfl, fun m => .done _⟩
  | userRoles => exact ⟨_, rfl, fun m => .done _⟩
  | userPermissions scope =>
    exact ⟨_, rfl, fun m => Query.grantedByAll_looksUp roles scope .empty m.roles⟩
  | hasPermission scope permission =>
    refine ⟨_, rfl, fun m => ?_⟩
    apply (Query.grantedByOne_looksUp roles scope permission m.roles).bind
    intro allowed
    exact .count allowed (.done allowed)

/-- What happens during some visits. -/
def Resolver.trace (r : Resolver) : List Visit → List Event
  | [] => []
  | v :: vs => (v.inquiry.program v.user).events ⟨r, v.directory⟩ ++
      (r.visit v).2.resolver.trace vs

theorem Question.looksUp (question : Question) (user : UserId) :
    (question.query user).LooksUp (Key.Needed user) := by
  obtain ⟨f, shape, rest⟩ := question.query_looksUp user
  have itself : Key.Needed user (.user user) := rfl
  rw [shape]
  exact .next itself rest

theorem Inquiry.sought {inquiry : Inquiry} {user : UserId} {s : System} {k : Key}
    (sought : k ∈ Event.sought ((inquiry.program user).events s)) : k.Needed user := by
  rw [program_events] at sought
  exact (inquiry.toQuestion.looksUp user).sought k sought

theorem Inquiry.user_sought (inquiry : Inquiry) (user : UserId) (s : System) :
    .user user ∈ Event.sought ((inquiry.program user).events s) := by
  obtain ⟨f, shape, _⟩ := inquiry.toQuestion.query_looksUp user
  rw [program_events, shape, ExceptT.run_bind, Program.events_bind, Query.lookUp_events,
    Event.sought_append, System.sought_lookUpEvents]
  exact List.mem_cons_self

namespace Resolver

variable (r : Resolver) (vs ws : List Visit)

theorem visits_append : r.visits (vs ++ ws) = (r.visits vs).visits ws := List.foldl_append

theorem trace_append : r.trace (vs ++ ws) = r.trace vs ++ (r.visits vs).trace ws := by
  induction vs generalizing r with
  | nil => rfl
  | cons v vs ih =>
    simp only [List.cons_append, trace, ih, List.append_assoc, visits, List.foldl_cons]

end Resolver

end Authorization
