import Authorization.Proofs.Queries.Call
import Authorization.Proofs.Snapshots.Flight

namespace Authorization

/-- What is known of the snapshots that some work may be given and of the answers to its
requests. -/
structure Evidence where
  snapshot (k : Key) (v : k.Snapshot) : Prop
  answer (request : Request) (given : Except Error request.Answer) : Prop
  brings {request : Request} {given : Except Error request.Answer} {k : Key} {v : k.Snapshot}
    (known : answer request given) (brought : request.snapshot? given k = some v) : snapshot k v

namespace Evidence

def Finds (e : Evidence) : (a : Act) → a.Answer → Prop
  | .seekMembership user, found => ∀ m, found = some m → e.snapshot (.user user) m
  | .seekGrant role, found => ∀ g, found = some g → e.snapshot (.role role) g
  | _, _ => True

theorem finds_perform {e : Evidence} {r : Resolver}
    (cached : ∀ k v, r.cached? k = some v → e.snapshot k v) (a : Act) :
    e.Finds a (r.perform a).1 := by
  cases a with
  | seekMembership user =>
    intro m found
    exact cached (.user user) m ((Cache.fst_get r.memberships user).symm.trans found)
  | seekGrant role =>
    intro g found
    exact cached (.role role) g ((Cache.fst_get r.grants role).symm.trans found)
  | _ => trivial

/-- What a check of some roles has to rest on. -/
def Decides (e : Evidence) (roles : List RoleId) (scope : OrganizationId) (permission : String) :
    Bool → Prop
  | true => ∃ role ∈ roles, ∃ g, e.snapshot (.role role) g ∧ g.grants scope permission = true
  | false => ∀ role ∈ roles, ∃ g, e.snapshot (.role role) g ∧ g.grants scope permission = false

def Grounds (e : Evidence) (user : UserId) (scope : OrganizationId) (permission : String)
    (allowed : Bool) : Prop :=
  ∃ m, e.snapshot (.user user) m ∧ e.Decides m.roles scope permission allowed

end Evidence

namespace Program

variable {α β : Type} {asks : Request → Prop} {e : Evidence}

/-- As long as everything it is given is known, some work makes only the requests it may make and
ends with a result as required. -/
def Meets (asks : Request → Prop) (e : Evidence) (result : α → Prop) : Program α → Prop
  | .done a => result a
  | .act a next => ∀ found, e.Finds a found → (next found).Meets asks e result
  | .ask request next =>
    asks request ∧ ∀ given, e.answer request given → (next given).Meets asks e result
  | .loadRoles roles next =>
    (∀ role ∈ roles, asks (.loadRole role)) ∧ ∀ loads, (next loads).Meets asks e result

theorem Meets.mono {p : Program α} {more : Request → Prop} {result weaker : α → Prop}
    (meets : p.Meets asks e result) (asked : ∀ request, asks request → more request)
    (weaken : ∀ a, result a → weaker a) : p.Meets more e weaker := by
  induction p with
  | done a => exact weaken a meets
  | act a next ih => exact fun found known => ih found (meets found known)
  | ask request next ih =>
    exact ⟨asked _ meets.1, fun given known => ih given (meets.2 given known)⟩
  | loadRoles roles next ih =>
    exact ⟨fun role member => asked _ (meets.1 role member), fun loads => ih loads (meets.2 loads)⟩

theorem Meets.bind {p : Program α} {f : α → Program β} {middle : α → Prop} {result : β → Prop}
    (first : p.Meets asks e middle) (rest : ∀ a, middle a → (f a).Meets asks e result) :
    (p >>= f).Meets asks e result := by
  induction p with
  | done a => exact rest a first
  | act a next ih => exact fun found known => ih found (first found known)
  | ask request next ih => exact ⟨first.1, fun given known => ih given (first.2 given known)⟩
  | loadRoles roles next ih => exact ⟨first.1, fun loads => ih loads (first.2 loads)⟩

end Program

namespace Query

variable {α β : Type} {asks : Request → Prop} {e : Evidence}

/-- Work that may fail meets a contract if what it returns is as required. -/
def Meets (asks : Request → Prop) (e : Evidence) (result : α → Prop) (q : Query α) : Prop :=
  q.run.Meets asks e fun
    | .ok a => result a
    | .error _ => True

theorem meets_pure {a : α} {result : α → Prop} (holds : result a) :
    (pure a : Query α).Meets asks e result := holds

theorem meets_done (a : α) : (pure a : Query α).Meets asks e fun _ => True := trivial

theorem meets_throw {error : Error} {result : α → Prop} :
    (throw error : Query α).Meets asks e result := trivial

theorem meets_perform (a : Act) : (perform a).Meets asks e (e.Finds a) := fun _ known => known

theorem meets_ask {request : Request} (allowed : asks request) :
    (ask request).Meets asks e fun found => e.answer request (.ok found) :=
  ⟨allowed, fun given known => by
    cases given with
    | ok _ => exact known
    | error _ => trivial⟩

theorem meets_lift {p : Program α} {result : α → Prop} (meets : p.Meets asks e result) :
    Query.Meets asks e result (ExceptT.lift p) := by
  show Program.Meets asks e _ (p >>= fun a => pure (Except.ok a))
  exact meets.bind fun _ holds => holds

theorem Meets.bind {q : Query α} {f : α → Query β} {middle : α → Prop} {result : β → Prop}
    (first : q.Meets asks e middle) (rest : ∀ a, middle a → (f a).Meets asks e result) :
    (q >>= f).Meets asks e result := by
  apply Program.Meets.bind first
  intro outcome holds
  cases outcome with
  | ok a => exact rest a holds
  | error _ => trivial

theorem Meets.mono {q : Query α} {result weaker : α → Prop} (meets : q.Meets asks e result)
    (weaken : ∀ a, result a → weaker a) : q.Meets asks e weaker :=
  Program.Meets.mono meets (fun _ allowed => allowed) fun outcome holds => by
    cases outcome with
    | ok a => exact weaken a holds
    | error _ => trivial

section

variable (loads : ∀ k : Key, asks k.load)

include loads

theorem membership_meets (user : UserId) :
    (membership user).Meets asks e (e.snapshot (.user user)) := by
  apply (meets_perform _).bind
  intro found known
  cases found with
  | some m => exact meets_pure (known m rfl)
  | none =>
    apply (meets_ask (loads (.user user))).bind
    intro record known
    exact meets_pure (e.brings known (if_pos rfl))

theorem roleGrant_meets (role : RoleId) :
    (roleGrant role).Meets asks e (e.snapshot (.role role)) := by
  apply (meets_perform _).bind
  intro found known
  cases found with
  | some g => exact meets_pure (known g rfl)
  | none =>
    apply (meets_ask (loads (.role role))).bind
    intro record known
    exact meets_pure (e.brings known (if_pos rfl))

theorem grantedByOne_meets (scope : OrganizationId) (permission : String) (roles : List RoleId) :
    (grantedByOne scope permission roles).Meets asks e (e.Decides roles scope permission) := by
  induction roles with
  | nil => exact meets_pure fun _ member => nomatch member
  | cons role roles ih =>
    apply (roleGrant_meets loads role).bind
    intro g known
    split
    · rename_i granted
      exact meets_pure ⟨role, List.mem_cons_self, g, known, granted⟩
    · rename_i refused
      apply ih.mono
      intro allowed decides
      cases allowed with
      | true =>
        obtain ⟨other, member, grants⟩ := decides
        exact ⟨other, List.mem_cons_of_mem _ member, grants⟩
      | false =>
        intro other member
        rcases List.mem_cons.1 member with rfl | member
        · exact ⟨g, known, eq_false_of_ne_true refused⟩
        · exact decides other member

theorem grantedByAll_meets (scope : OrganizationId) (granted : OrderedSet String)
    (roles : List RoleId) : (grantedByAll scope granted roles).Meets asks e fun _ => True := by
  induction roles generalizing granted with
  | nil => exact meets_done _
  | cons role roles ih => exact (roleGrant_meets loads role).bind fun g _ => ih _

theorem hasPermission_meets (user : UserId) (scope : OrganizationId) (permission : String) :
    (hasPermission user scope permission).Meets asks e (e.Grounds user scope permission) := by
  apply (membership_meets loads user).bind
  intro m known
  apply (grantedByOne_meets loads scope permission m.roles).bind
  intro allowed decides
  exact (meets_perform _).bind fun _ _ => meets_pure ⟨m, known, decides⟩

theorem warmRoles_meets (lists : asks .listRoles) (projection : Option Projection)
    (created : Nat) : (warmRoles projection created).Meets asks e fun _ => True := by
  cases projection with
  | none => exact (meets_perform _).bind fun _ _ => meets_done _
  | some source =>
    have listing : (listRoles source).Meets asks e fun _ => True := by
      cases source with
      | directory => exact (meets_ask lists).mono fun _ _ => trivial
      | fixed roles => exact meets_done _
    apply listing.bind
    intro roles _
    have attempt : (Program.attemptRoles roles).Meets asks e fun _ => True :=
      ⟨fun role _ => loads (.role role), fun _ => trivial⟩
    apply (meets_lift attempt).bind
    intro loads _
    exact (meets_perform _).bind fun _ _ => meets_done _

end

section

variable (lists : asks .listPermissions)

include lists

theorem createdElsewhere_meets (name : String) :
    (createdElsewhere name).Meets asks e fun _ => True := by
  apply And.intro lists
  intro given _
  cases given with
  | ok _ => exact fun _ _ => trivial
  | error _ => trivial

theorem createMissing_meets {names : List String}
    (creates : ∀ name ∈ names, asks (.createPermission name)) (created : Nat) :
    (createMissing created names).Meets asks e fun _ => True := by
  induction names generalizing created with
  | nil => exact meets_done _
  | cons name names ih =>
    obtain ⟨first, rest⟩ := List.forall_mem_cons.1 creates
    apply (meets_perform _).bind
    intro known _
    split
    · exact ih rest created
    · have attempt : (Program.attempt (.createPermission name)).Meets asks e
          fun _ => True := ⟨first, fun _ _ => trivial⟩
      apply (meets_lift attempt).bind
      intro outcome _
      cases outcome with
      | ok _ => exact ih rest (created + 1)
      | error failure =>
        apply (meets_lift (createdElsewhere_meets lists name)).bind
        intro there _
        split
        · exact ih rest created
        · exact meets_throw

theorem ensurePermissions_meets {names : List String}
    (creates : ∀ name ∈ names, asks (.createPermission name)) :
    (ensurePermissions names).Meets asks e fun _ => True :=
  (meets_ask lists).bind fun _ _ => createMissing_meets lists creates 0

theorem warmup_meets (loads : ∀ k : Key, asks k.load) (listsRoles : asks .listRoles)
    (projection : Option Projection) {names : List String}
    (creates : ∀ name ∈ names, asks (.createPermission name)) :
    (warmup projection names).Meets asks e fun _ => True :=
  (ensurePermissions_meets lists creates).bind fun created _ =>
    warmRoles_meets loads listsRoles projection created

end

end Query

namespace Call

/-- A call writes users and roles only if it is a command, and then it makes that one write. -/
def Asks (call : Call) (request : Request) : Prop :=
  ∀ c, request = .write c → call = .command c

theorem asks_of_reads {request : Request} (call : Call) (reads : request.Reads) :
    call.Asks request :=
  fun c write => by subst write; exact reads.elim

/-- What the answer to a call has to rest on. -/
def Supported (e : Evidence) : (call : Call) → call.Answer → Prop
  | hasPermission user scope permission => fun answer =>
    ∀ allowed, answer = .ok allowed → e.Grounds user scope permission allowed
  | checkOrDeny user scope permission => fun allowed =>
    allowed = true → e.Grounds user scope permission true
  | command c => e.answer (.write c)
  | _ => fun _ => True

theorem run_meets_of_reads {α : Type} {e : Evidence} {q : Query α} {result : α → Prop}
    (call : Call) (meets : q.Meets Request.Reads e result) :
    q.run.Meets call.Asks e fun _ => True :=
  Program.Meets.mono meets (fun _ => call.asks_of_reads) fun _ _ => trivial

theorem program_meets (e : Evidence) (r : Resolver) (call : Call) :
    (call.program r).Meets call.Asks e (call.Supported e) := by
  have warms (names : List String) :
      (Query.warmup r.projection names).Meets Request.Reads e fun _ => True :=
    Query.warmup_meets trivial Request.reads_load trivial r.projection fun _ _ => trivial
  cases call with
  | belongsToRole user role =>
    have meets := (Query.membership_meets (e := e) Request.reads_load user).bind fun m _ =>
      Query.meets_done (m.contains role)
    exact run_meets_of_reads _ meets
  | hasPermission user scope permission =>
    have meets := Query.hasPermission_meets (e := e) Request.reads_load user scope permission
    apply Program.Meets.mono meets fun _ => asks_of_reads _
    rintro _ grounds allowed rfl
    exact grounds
  | checkOrDeny user scope permission =>
    have meets := Query.hasPermission_meets (e := e) Request.reads_load user scope permission
    apply Program.Meets.bind (Program.Meets.mono meets (fun _ => asks_of_reads _) fun _ => id)
    intro outcome grounds
    cases outcome with
    | ok allowed =>
      rintro rfl
      exact grounds
    | error _ =>
      intro denied
      cases denied
  | userRoles user =>
    have meets := (Query.membership_meets (e := e) Request.reads_load user).bind fun m _ =>
      Query.meets_done m.roles
    exact run_meets_of_reads _ meets
  | userPermissions user scope =>
    have meets := (Query.membership_meets (e := e) Request.reads_load user).bind fun m _ =>
      Query.grantedByAll_meets Request.reads_load scope .empty m.roles
    exact run_meets_of_reads _ meets
  | ensurePermissions names =>
    exact run_meets_of_reads _ (Query.ensurePermissions_meets trivial fun _ _ => trivial)
  | warmup names => exact run_meets_of_reads _ (warms names)
  | warmupFromConfig =>
    simp only [program, Resolver.warmupFromConfig]
    split
    · exact run_meets_of_reads _ ((warms _).bind fun _ _ => Query.meets_done _)
    · exact trivial
  | command c => exact ⟨fun _ same => by cases same; rfl, fun _ known => known⟩

/-- The command that is given to the command handler. -/
def command? : Call → Option Command
  | command c => some c
  | _ => none

theorem program_reads (e : Evidence) (r : Resolver) {call : Call} (query : call.command? = none) :
    (call.program r).Meets Request.Reads e (call.Supported e) := by
  refine (call.program_meets e r).mono (fun request asks => ?_) fun _ => id
  cases request with
  | write c =>
    rw [asks c rfl] at query
    cases query
  | _ => trivial

end Call

end Authorization
