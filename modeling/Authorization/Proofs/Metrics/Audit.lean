import Authorization.Proofs.Metrics.Unfolding
import Mathlib.Data.Bool.Count

namespace Authorization

/-- The counters of a resolver tell what has happened: which calls on it have returned with what,
what the checks among them have resolved to, how often it was told to invalidate one record, and how
many of its loads the directory has served. -/
structure Resolver.Audited (r : Resolver) (es : List Ended) (checks : List Bool) (directs : Nat)
    (loads : LoadKind → Nat) : Prop where
  totalChecks : r.activity.totalChecks.toNat = checks.length
  allowedChecks : r.activity.allowedChecks.toNat = checks.count true
  deniedChecks : r.activity.deniedChecks.toNat = checks.count false
  loadErrors : r.activity.loadErrors.toNat = loads .failed
  invalidations : r.activity.invalidations.toNat = directs + es.countP Ended.edited
  warmups : r.activity.warmups.toNat = (es.filterMap Ended.report?).length
  skippedRoles : r.activity.skippedRoles.toNat =
    ((es.filterMap Ended.report?).map (·.rolesSkipped.length)).sum
  membershipMisses : r.memberships.misses.toNat = loads .users
  grantMisses : r.grants.misses.toNat +
    ((es.filterMap Ended.report?).map WarmupReport.attempted).sum = loads .roles

theorem Activity.toNat_deniedChecks {a : Activity} {checks : List Bool}
    (total : a.totalChecks.toNat = checks.length)
    (allowed : a.allowedChecks.toNat = checks.count true) :
    a.deniedChecks.toNat = checks.count false := by
  have parts := checks.count_true_add_count_false
  have fewer : a.allowedChecks.toNat ≤ a.totalChecks.toNat := by
    rw [total, allowed]
    exact List.count_le_length
  have denied := allowed_add_denied fewer
  omega

namespace World

variable {ι : Type}

/-- Every call on a resolver has returned. -/
def Idle (w : World ι) (i : ι) : Prop := ∀ task ∈ w.tasks, task.home = i → task.ended?.isSome

variable {w v : World ι} {i : ι}

theorem Unfolds.mem (unfolds : w.Unfolds v) {other : Task ι} (member : other ∈ v.tasks) :
    ∃ task ∈ w.tasks, task.Unfolds other := by
  obtain ⟨position, found⟩ := List.mem_iff_getElem?.1 member
  rcases forall₂_getElem? unfolds.tasks position with ⟨_, free⟩ | ⟨task, _, there, same, pair⟩
  · cases free.symm.trans found
  · cases same.symm.trans found
    exact ⟨task, List.mem_of_getElem? there, pair⟩

theorem Unfolds.idle (unfolds : w.Unfolds v) (idle : w.Idle i) : v.Idle i := by
  intro other member home
  obtain ⟨task, there, pair⟩ := unfolds.mem member
  have ended := idle task there (pair.home.trans home)
  cases pair with
  | same _ => exact ended
  | @check _ _ _ _ _ phase =>
    cases phase with
    | finished _ => rfl
    | asking _ _ => cases ended
    | loading _ _ _ _ => cases ended

variable [DecidableEq ι]

/-- What the checks on a resolver have resolved to. -/
def checks (w : World ι) (i : ι) : List Bool := (w.ended i).filterMap Ended.check?

variable {moves : Nat → Move ι} {n : Nat}

theorem length_ended_le (w : World ι) (i : ι) : (w.ended i).length ≤ w.tasks.length :=
  (List.length_filterMap_le _ _).trans (List.length_filter_le _ _)

theorem booked_idle (fresh : w.Fresh) (idle : (w.after moves n).Idle i) :
    ∃ b, Accounted b ((w.after moves n).ended i) ∧
      (∀ kind, b (.load kind) = w.loads moves i kind n) ∧
      ∀ m : Meter, m.read ((w.after moves n).resolvers i) =
        .ofNat (b (.meter m) + Books.direct (directs moves i n) (.meter m)) := by
  obtain ⟨b, booked, counted, loaded⟩ := booked_after fresh n
  exact ⟨b, booked.accounted idle, loaded, counted⟩

theorem Unfolds.plain (unfolds : w.Unfolds v) : ∀ e ∈ v.ended i, e.call.unfolded = e.call := by
  intro e member
  obtain ⟨other, filtered, returned⟩ := List.mem_filterMap.1 member
  obtain ⟨answer, _, rfl⟩ := Option.map_eq_some_iff.1 returned
  obtain ⟨task, _, pair⟩ := unfolds.mem (List.mem_of_mem_filter filtered)
  cases pair with
  | same plain => exact plain
  | check => rfl

theorem toNat_read {r : Resolver} {m : Meter} {count total : Nat} (few : n < 2 ^ 64)
    (read : m.read r = .ofNat total) (same : total = count) (bound : count ≤ n) :
    (m.read r).toNat = count := by
  rw [read, same, UInt64.toNat_ofNat', Nat.mod_eq_of_lt (by omega)]

/-- The counters of a resolver on which no call is under way account for all that has happened to
it. Where a check was made for another call, its outcome is that of the run in which the check is
made directly, and which is the same run otherwise. -/
theorem audited (fresh : w.Fresh) (few : n < 2 ^ 64) (idle : (w.after moves n).Idle i) :
    (w.after moves n).Unfolds (w.after (fun t => (moves t).unfolded) n) ∧
      ((w.after moves n).resolvers i).Audited ((w.after moves n).ended i)
        ((w.after (fun t => (moves t).unfolded) n).checks i) (directs moves i n)
        (w.loads moves i · n) := by
  have unfolds : (w.after moves n).Unfolds (w.after (fun t => (moves t).unfolded) n) :=
    fresh.unfolds.after n
  refine ⟨unfolds, ?_⟩
  have served (kind : LoadKind) : w.loads moves i kind n ≤ n := Nat.count_le _
  have events : (w.after moves n).tasks.length + directs moves i n ≤ n :=
    length_tasks_add_directs fresh i n
  have returned := (w.after moves n).length_ended_le i
  obtain ⟨b, accounted, loaded, counted⟩ := booked_idle fresh idle
  -- the same counters by the books of the run in which all checks are made directly
  obtain ⟨c, checked, _, tallied⟩ := booked_idle fresh (unfolds.idle idle)
  rw [← unfolds.resolvers] at tallied
  have resolved : ((w.after (fun t => (moves t).unfolded) n).checks i).length ≤ n := by
    have checks := List.length_filterMap_le Ended.check?
      ((w.after (fun t => (moves t).unfolded) n).ended i)
    have ended := (w.after (fun t => (moves t).unfolded) n).length_ended_le i
    have tasks := unfolds.tasks.length_eq
    rw [World.checks]
    omega
  have total := toNat_read few (tallied .totalChecks) (checked.totalChecks unfolds.plain) resolved
  have allowed := toNat_read few (tallied .allowedChecks) (checked.allowedChecks unfolds.plain)
    (List.count_le_length.trans resolved)
  constructor
  case totalChecks => exact total
  case allowedChecks => exact allowed
  case deniedChecks => exact Activity.toNat_deniedChecks total allowed
  case loadErrors =>
    exact toNat_read few (counted .loadErrors) (accounted.loadErrors.trans (loaded .failed))
      (served .failed)
  case invalidations =>
    have edited := List.countP_le_length (p := Ended.edited) (l := (w.after moves n).ended i)
    refine toNat_read few (counted .invalidations) ?_ (by omega)
    rw [accounted.invalidations]
    exact Nat.add_comm _ _
  case warmups =>
    have reports := List.length_filterMap_le Ended.report? ((w.after moves n).ended i)
    exact toNat_read few (counted .warmups) accounted.warmups (by omega)
  case skippedRoles =>
    refine toNat_read few (counted .skippedRoles) accounted.skippedRoles ?_
    rw [← accounted.skippedRoles]
    exact (accounted.skipped_le.trans_eq (loaded .failed)).trans (served .failed)
  case membershipMisses =>
    exact toNat_read few (counted .membershipMisses)
      (accounted.membershipMisses.trans (loaded .users)) (served .users)
  case grantMisses =>
    have missed := accounted.grantMisses
    rw [loaded] at missed
    have within := served .roles
    have misses : ((w.after moves n).resolvers i).grants.misses.toNat =
        b (.meter .grantMisses) := toNat_read few (counted .grantMisses) rfl (by omega)
    rw [← missed, misses]

def projected : World Unit :=
  ⟨.sample, fun _ => ⟨⟨1, 1, false, []⟩, some (.fixed [⟨7⟩, ⟨8⟩]), .new 1, .new 1, 0, 0, .empty,
    .none⟩, []⟩

theorem fresh_projected : projected.Fresh :=
  ⟨fun _ => ⟨⟨1, 1, false, []⟩, some (.fixed [⟨7⟩, ⟨8⟩]), rfl⟩, rfl⟩

/-- A check that fails, and one during a warmup that skips a role, both of them made to answer
another call. An edit and a direct invalidation follow. -/
def eventful : List (Move Unit) :=
  [.upkeep (.setAvailable false), .call () (.checkOrDeny ⟨1⟩ ⟨3⟩ "x"), .turn 0 (.serve 0),
    .upkeep (.setAvailable true), .turn 0 (.resume 0),
    .call () (.warmup []), .turn 1 (.serve 0), .turn 1 (.resume 0), .turn 1 .launch,
    .turn 1 .launch, .call () (.checkOrDeny ⟨1⟩ ⟨3⟩ "x"), .turn 2 (.serve 0), .turn 2 (.resume 0),
    .turn 1 (.serve 1), .turn 1 (.serve 0), .turn 1 (.resume 0), .turn 1 (.resume 0),
    .turn 2 (.serve 0), .turn 2 (.resume 0),
    .call () (.command (.edit (.removeMember ⟨1⟩ ⟨7⟩))), .turn 3 (.serve 0), .invalidate () .all,
    .turn 3 (.resume 0), .invalidate () (.one (.user ⟨9⟩))]

theorem audited_eventful :
    let r := (projected.after (schedule eventful) 24).resolvers ()
    r.Audited ((projected.after (schedule eventful) 24).ended ()) [true] 1
        (projected.loads (schedule eventful) () · 24) ∧
      r.activity = ⟨1, 1, 2, 2, 1, 1⟩ ∧ r.memberships.misses = 2 ∧ r.grants.misses = 1 := by
  have returned : (projected.after (schedule eventful) 24).tasks.all (·.ended?.isSome) = true := rfl
  have idle : (projected.after (schedule eventful) 24).Idle () :=
    fun task member _ => List.all_eq_true.1 returned task member
  exact ⟨(audited fresh_projected (by decide) idle).2, rfl, rfl, rfl⟩

end World

end Authorization
