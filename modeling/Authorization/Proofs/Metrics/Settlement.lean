import Authorization.Proofs.Metrics.Books
import Authorization.Proofs.Queries.Call

namespace Authorization

/-- The check that is made to answer a call, if that is not the call itself. -/
def Call.unfolded : Call → Call
  | .checkOrDeny user scope permission => .hasPermission user scope permission
  | call => call

/-- A call with what it has returned. -/
structure Ended where
  call : Call
  answer : call.Answer

namespace Ended

/-- What a check has resolved to. -/
def check? : Ended → Option Bool
  | ⟨.hasPermission _ _ _, .ok allowed⟩ => some allowed
  | _ => none

def report? : Ended → Option WarmupReport
  | ⟨.warmup _, .ok report⟩ => some report
  | ⟨.warmupFromConfig, .ok report⟩ => report
  | _ => none

def edited : Ended → Bool
  | ⟨.command (.edit _), .ok _⟩ => true
  | _ => false

end Ended

def WarmupReport.attempted (report : WarmupReport) : Nat :=
  report.rolesWarmed + report.rolesSkipped.length

/-- The books that some calls leave behind when they have ended. -/
structure Accounted (b : Books) (es : List Ended) : Prop where
  totalChecks : (∀ e ∈ es, e.call.unfolded = e.call) →
    b (.meter .totalChecks) = (es.filterMap Ended.check?).length
  allowedChecks : (∀ e ∈ es, e.call.unfolded = e.call) →
    b (.meter .allowedChecks) = (es.filterMap Ended.check?).count true
  invalidations : b (.meter .invalidations) = es.countP Ended.edited
  warmups : b (.meter .warmups) = (es.filterMap Ended.report?).length
  skippedRoles : b (.meter .skippedRoles) =
    ((es.filterMap Ended.report?).map (·.rolesSkipped.length)).sum
  membershipMisses : b (.meter .membershipMisses) = b (.load .users)
  grantMisses : b (.meter .grantMisses) +
    ((es.filterMap Ended.report?).map WarmupReport.attempted).sum = b (.load .roles)
  loadErrors : b (.meter .loadErrors) = b (.load .failed)
  skipped_le : b (.meter .skippedRoles) ≤ b (.load .failed)

namespace Accounted

variable {b c : Books} {es fs : List Ended}

theorem nil : Accounted 0 [] := by constructor <;> simp

theorem append (first : Accounted b es) (second : Accounted c fs) :
    Accounted (b + c) (es ++ fs) := by
  constructor
  case totalChecks =>
    intro unfolded
    obtain ⟨left, right⟩ := List.forall_mem_append.1 unfolded
    simp [first.totalChecks left, second.totalChecks right]
  case allowedChecks =>
    intro unfolded
    obtain ⟨left, right⟩ := List.forall_mem_append.1 unfolded
    simp [first.allowedChecks left, second.allowedChecks right]
  case invalidations => simp [first.invalidations, second.invalidations]
  case warmups => simp [first.warmups, second.warmups]
  case skippedRoles => simp [first.skippedRoles, second.skippedRoles]
  case membershipMisses => simp [first.membershipMisses, second.membershipMisses]
  case grantMisses =>
    have left := first.grantMisses
    have right := second.grantMisses
    simp only [Pi.add_apply, List.filterMap_append, List.map_append, List.sum_append]
    omega
  case loadErrors => simp [first.loadErrors, second.loadErrors]
  case skipped_le => exact Nat.add_le_add first.skipped_le second.skipped_le

theorem add (accounted : Accounted b es) (even : Accounted c []) : Accounted (b + c) es :=
  List.append_nil es ▸ accounted.append even

theorem add_add {d : Books} (accounted : Accounted b es) (even : Accounted (c + d) []) :
    Accounted (b + c + d) es :=
  add_assoc b c d ▸ accounted.add even

theorem plain (even : Accounted b []) {e : Ended} (check : e.check? = none)
    (report : e.report? = none) (edited : e.edited = false) : Accounted b [e] := by
  have quiet : Accounted 0 [e] := by constructor <;> simp [check, report, edited]
  simpa using even.append quiet

end Accounted

/-- What a request and its answer book in all. -/
def Request.booked (request : Request) (given : Except Error request.Answer) : Books :=
  request.charged given + request.metered given

def loadsBooked (loads : List RoleLoad) : Books :=
  (loads.map fun load => (Request.loadRole load.1).booked load.2).sum

variable {α β : Type}

/-- Wherever some work ends, the books are as required. -/
def Program.Pays (post : Books → α → Prop) : Program α → Books → Prop
  | .done a, b => post b a
  | .act a next, b => ∀ found, (next found).Pays post (b + a.booked found)
  | .ask request next, b => ∀ given, (next given).Pays post (b + request.booked given)
  | .loadRoles _ next, b => ∀ loads, (next loads).Pays post (b + loadsBooked loads)

theorem Program.Pays.bind {program : Program α} {f : α → Program β} {b : Books}
    {middle : Books → α → Prop} {post : Books → β → Prop} (first : program.Pays middle b)
    (rest : ∀ c a, middle c a → (f a).Pays post c) : (program >>= f).Pays post b := by
  induction program generalizing b with
  | done a => exact rest b a first
  | act a next ih => exact fun found => ih found (first found)
  | ask request next ih => exact fun given => ih given (first given)
  | loadRoles roles next ih => exact fun loads => ih loads (first loads)

theorem Program.Pays.mono {program : Program α} {b : Books} {post weaker : Books → α → Prop}
    (pays : program.Pays post b) (weaken : ∀ c a, post c a → weaker c a) :
    program.Pays weaker b := by
  induction program generalizing b with
  | done a => exact weaken b a pays
  | act a next ih => exact fun found => ih found (pays found)
  | ask request next ih => exact fun given => ih given (pays given)
  | loadRoles roles next ih => exact fun loads => ih loads (pays loads)

/-- Work that leaves no more behind in the books than a load for every miss. -/
def Program.BreaksEven (program : Program α) : Prop :=
  ∀ b, Accounted b [] → program.Pays (fun c _ => Accounted c []) b

namespace Query

def BreaksEven (q : Query α) : Prop := q.run.BreaksEven

theorem BreaksEven.bind {q : Query α} {f : α → Query β} (first : q.BreaksEven)
    (rest : ∀ a, (f a).BreaksEven) : (q >>= f).BreaksEven := by
  intro b even
  apply Program.Pays.bind (first b even)
  intro c outcome even
  cases outcome with
  | ok a => exact rest a c even
  | error _ => exact even

theorem breaksEven_pure (a : α) : (pure a : Query α).BreaksEven := fun _ even => even

theorem breaksEven_lift {program : Program α} (breaksEven : program.BreaksEven) :
    (ExceptT.lift program : Query α).BreaksEven := by
  show Program.BreaksEven (program >>= fun a => pure (Except.ok a))
  exact fun b even => (breaksEven b even).bind fun _ _ even => even

theorem membership_breaksEven (user : UserId) : (membership user).BreaksEven := by
  intro b even found
  -- a miss is made good by the load that follows, whether that fails or not
  cases found with
  | some found =>
    have hit : Accounted ((Act.seekMembership user).booked (some found)) [] := by
      constructor <;> simp [Act.booked]
    exact even.add hit
  | none =>
    intro given
    have missed : Accounted ((Act.seekMembership user).booked none +
        (Request.loadUser user).booked given) [] := by
      cases given <;> constructor <;>
        simp [Act.booked, Request.booked, Request.charged, Request.metered, LoadKind.counts]
    have after := even.add_add missed
    cases given <;> exact after

theorem roleGrant_breaksEven (role : RoleId) : (roleGrant role).BreaksEven := by
  intro b even found
  cases found with
  | some found =>
    have hit : Accounted ((Act.seekGrant role).booked (some found)) [] := by
      constructor <;> simp [Act.booked]
    exact even.add hit
  | none =>
    intro given
    have missed : Accounted ((Act.seekGrant role).booked none +
        (Request.loadRole role).booked given) [] := by
      cases given <;> constructor <;>
        simp [Act.booked, Request.booked, Request.charged, Request.metered, LoadKind.counts]
    have after := even.add_add missed
    cases given <;> exact after

theorem grantedByOne_breaksEven (scope : OrganizationId) (permission : String)
    (roles : List RoleId) : (grantedByOne scope permission roles).BreaksEven := by
  induction roles with
  | nil => exact breaksEven_pure false
  | cons role roles ih =>
    refine (roleGrant_breaksEven role).bind fun g => ?_
    split
    · exact breaksEven_pure true
    · exact ih

theorem grantedByAll_breaksEven (scope : OrganizationId) (granted : OrderedSet String)
    (roles : List RoleId) : (grantedByAll scope granted roles).BreaksEven := by
  induction roles generalizing granted with
  | nil => exact breaksEven_pure granted
  | cons role roles ih => exact (roleGrant_breaksEven role).bind fun g => ih _

end Query

/-- A request that neither loads nor edits. -/
def Request.Idle : Request → Prop
  | .listPermissions | .createPermission _ | .listRoles | .write (.createRole _) => True
  | _ => False

theorem Request.Idle.booked {request : Request} (idle : request.Idle)
    (given : Except Error request.Answer) : request.booked given = 0 := by
  funext entry
  match request with
  | .loadUser _ | .loadRole _ | .write (.edit _) => exact idle.elim
  | .listPermissions | .createPermission _ | .listRoles | .write (.createRole _) =>
    match entry with
    | .load kind => cases kind <;> rfl
    | .meter _ => rfl

theorem Accounted.add_idle {b : Books} {es : List Ended} (accounted : Accounted b es)
    (request : Request) (idle : request.Idle) (given : Except Error request.Answer) :
    Accounted (b + request.booked given) es := by
  rw [idle.booked, add_zero]
  exact accounted

theorem Accounted.add_known {b : Books} {es : List Ended} (accounted : Accounted b es)
    (name : String) (found : Bool) : Accounted (b + (Act.knowsPermission name).booked found) es :=
  accounted

namespace Query

theorem createdElsewhere_breaksEven (name : String) : (createdElsewhere name).BreaksEven := by
  intro b even given
  have after := even.add_idle .listPermissions trivial given
  cases given with
  | ok _ => exact fun found => after.add_known name found
  | error _ => exact after

theorem createMissing_breaksEven (created : Nat) (names : List String) :
    (createMissing created names).BreaksEven := by
  induction names generalizing created with
  | nil => exact breaksEven_pure created
  | cons name names ih =>
    intro b even known
    have sought := even.add_known name known
    cases known with
    | true => exact ih created _ sought
    | false =>
      intro given
      have asked := sought.add_idle (.createPermission name) trivial given
      cases given with
      | ok _ => exact ih (created + 1) _ asked
      | error e =>
        have elsewhere := breaksEven_lift (createdElsewhere_breaksEven name)
        apply Program.Pays.bind (elsewhere _ asked)
        intro c outcome even
        match outcome with
        | .ok true => exact ih created c even
        | .ok false | .error _ => exact even

theorem ensurePermissions_breaksEven (names : List String) :
    (ensurePermissions names).BreaksEven := by
  intro b even given
  have listed := even.add_idle .listPermissions trivial given
  cases given with
  | ok _ => exact createMissing_breaksEven 0 names _ listed
  | error _ => exact listed

theorem listRoles_breaksEven (source : Projection) : (listRoles source).BreaksEven := by
  cases source with
  | fixed roles => exact breaksEven_pure roles
  | directory =>
    intro b even given
    have listed := even.add_idle .listRoles trivial given
    cases given <;> exact listed

end Query

/-- Loads of roles book themselves, and those that fail twice. -/
theorem loadsBooked_eq (loads : List RoleLoad) : loadsBooked loads = fun
    | .load .roles => loads.length
    | .load .failed | .meter .loadErrors => (Query.skippedRoles loads).length
    | _ => 0 := by
  induction loads with
  | nil =>
    funext entry
    rcases entry with meter | kind
    · cases meter <;> rfl
    · cases kind <;> rfl
  | cons load loads ih =>
    have step : loadsBooked (load :: loads) =
        (Request.loadRole load.1).booked load.2 + loadsBooked loads := List.sum_cons
    obtain ⟨role, given⟩ := load
    rw [step, ih]
    funext entry
    cases given with
    | ok found =>
      rcases entry with meter | kind
      · cases meter <;> exact Nat.zero_add _
      · cases kind with
        | roles => exact Nat.add_comm ..
        | _ => exact Nat.zero_add _
    | error e =>
      rcases entry with meter | kind
      · cases meter with
        | loadErrors => exact Nat.add_comm ..
        | _ => rfl
      · cases kind with
        | users => rfl
        | _ => exact Nat.add_comm ..

theorem Accounted.warmed {b : Books} (even : Accounted b []) (loads : List RoleLoad) {e : Ended}
    {report : WarmupReport} (check : e.check? = none) (edited : e.edited = false)
    (reported : e.report? = some report)
    (warmed : report.rolesWarmed = loads.length - (Query.skippedRoles loads).length)
    (skipped : report.rolesSkipped.length = (Query.skippedRoles loads).length) :
    Accounted (b + loadsBooked loads +
      (Act.recordWarmup (Query.skippedRoles loads).length).booked ()) [e] := by
  have fewer : (Query.skippedRoles loads).length ≤ loads.length := by
    rw [Query.skippedRoles, List.length_map]
    exact List.length_filter_le _ _
  have booked : Accounted (loadsBooked loads +
      (Act.recordWarmup (Query.skippedRoles loads).length).booked ()) [e] := by
    rw [loadsBooked_eq]
    constructor <;> simp [Act.booked, check, edited, reported, WarmupReport.attempted, warmed,
      skipped, fewer]
  rw [add_assoc]
  exact even.append booked

theorem Query.warmRoles_pays (projection : Option Projection) (created : Nat) {b : Books}
    (even : Accounted b []) : (warmRoles projection created).run.Pays (fun c outcome =>
      ∀ e : Ended, e.check? = none → e.edited = false → e.report? = outcome.toOption →
        Accounted c [e]) b := by
  cases projection with
  | none =>
    intro _ e check edited reported
    have nothing : loadsBooked [] = 0 := rfl
    have after := even.warmed [] check edited reported rfl rfl
    rw [nothing, add_zero] at after
    exact after
  | some source =>
    apply Program.Pays.bind (listRoles_breaksEven source b even)
    intro c outcome even
    cases outcome with
    | error _ => exact fun e check edited reported => even.plain check reported edited
    | ok roles =>
      -- nothing can fail any more, so that all roles that are attempted are reported
      intro loads _ e check edited reported
      exact even.warmed loads check edited reported rfl (List.length_mergeSort _)

namespace Call

theorem checked {b : Books} (even : Accounted b []) {e : Ended} {allowed : Bool}
    (check : e.check? = some allowed) (report : e.report? = none) (edited : e.edited = false) :
    Accounted (b + (Act.recordCheck allowed).booked ()) [e] := by
  have booked : Accounted ((Act.recordCheck allowed).booked ()) [e] := by
    cases allowed <;> constructor <;> simp [Act.booked, check, report, edited]
  exact even.append booked

theorem hasPermission_pays (user : UserId) (scope : OrganizationId) (permission : String) :
    (Query.hasPermission user scope permission).run.Pays (fun b outcome =>
      Accounted b [⟨.hasPermission user scope permission, outcome⟩]) 0 := by
  apply Program.Pays.bind (Query.membership_breaksEven user 0 .nil)
  intro b outcome even
  cases outcome with
  | error _ => exact even.plain rfl rfl rfl
  | ok m =>
    apply Program.Pays.bind (Query.grantedByOne_breaksEven scope permission m.roles b even)
    intro c outcome even
    cases outcome with
    | error _ => exact even.plain rfl rfl rfl
    | ok allowed => exact fun _ => checked even rfl rfl rfl

theorem command_pays (c : Command) :
    (Query.command c).run.Pays (fun b answer => Accounted b [⟨.command c, answer⟩]) 0 := by
  intro given
  cases c with
  | createRole draft =>
    exact (Accounted.nil.add_idle (.write (.createRole draft)) trivial given).plain rfl rfl rfl
  | edit change =>
    have check : Ended.check? ⟨.command (.edit change), given⟩ = none := rfl
    have report : Ended.report? ⟨.command (.edit change), given⟩ = none := rfl
    rw [zero_add]
    cases given <;> constructor <;> simp [Request.booked, Request.charged, Request.metered,
      LoadKind.counts, check, report, Ended.edited]

theorem warmup_pays (r : Resolver) (names : List String) : (r.warmup names).run.Pays
    (fun c outcome => ∀ e : Ended, e.check? = none → e.edited = false →
      e.report? = outcome.toOption → Accounted c [e]) 0 := by
  apply Program.Pays.bind (Query.ensurePermissions_breaksEven names 0 .nil)
  intro b outcome even
  cases outcome with
  | error _ => exact fun e check edited reported => even.plain check reported edited
  | ok created => exact Query.warmRoles_pays r.projection created even

theorem pays_of_breaksEven {q : Query α} (breaksEven : q.BreaksEven) :
    q.run.Pays (fun b _ => ∀ e : Ended, e.check? = none → e.report? = none → e.edited = false →
      Accounted b [e]) 0 :=
  (breaksEven 0 .nil).mono fun _ _ even _ check report edited => even.plain check report edited

/-- Whatever a call is given on its way, it leaves the books as its answer tells. -/
theorem program_pays (call : Call) (r : Resolver) :
    (call.program r).Pays (fun b answer => Accounted b [⟨call, answer⟩]) 0 := by
  cases call with
  | belongsToRole user role =>
    have looked := (Query.membership_breaksEven user).bind fun m =>
      Query.breaksEven_pure (m.contains role)
    exact (pays_of_breaksEven looked).mono fun _ _ plain => plain _ rfl rfl rfl
  | hasPermission user scope permission => exact hasPermission_pays user scope permission
  | checkOrDeny user scope permission =>
    apply (hasPermission_pays user scope permission).bind
    intro b outcome accounted
    have folded (allowed : Bool) : Accounted b [⟨.checkOrDeny user scope permission, allowed⟩] := by
      have other : ¬ ∀ e ∈ [(⟨.checkOrDeny user scope permission, allowed⟩ : Ended)],
          e.call.unfolded = e.call := fun same => nomatch List.forall_mem_singleton.1 same
      exact ⟨fun same => absurd same other, fun same => absurd same other,
        accounted.invalidations, accounted.warmups, accounted.skippedRoles,
        accounted.membershipMisses, accounted.grantMisses, accounted.loadErrors,
        accounted.skipped_le⟩
    cases outcome <;> exact folded _
  | userRoles user =>
    have looked := (Query.membership_breaksEven user).bind fun m => Query.breaksEven_pure m.roles
    exact (pays_of_breaksEven looked).mono fun _ _ plain => plain _ rfl rfl rfl
  | userPermissions user scope =>
    have looked := (Query.membership_breaksEven user).bind fun m =>
      Query.grantedByAll_breaksEven scope .empty m.roles
    exact (pays_of_breaksEven looked).mono fun _ _ plain => plain _ rfl rfl rfl
  | ensurePermissions names =>
    exact (pays_of_breaksEven (Query.ensurePermissions_breaksEven names)).mono
      fun _ _ plain => plain _ rfl rfl rfl
  | warmup names =>
    apply (warmup_pays r names).mono
    intro b outcome accounted
    cases outcome <;> exact accounted _ rfl rfl rfl
  | warmupFromConfig =>
    simp only [program, Resolver.warmupFromConfig]
    split
    · apply (warmup_pays r r.config.knownPermissions).bind
      intro b outcome accounted
      cases outcome <;> exact accounted _ rfl rfl rfl
    · exact Accounted.nil.plain rfl rfl rfl
  | command c => exact command_pays c

end Call

end Authorization
