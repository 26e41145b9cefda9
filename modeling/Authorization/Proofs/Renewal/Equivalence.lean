import Authorization.Proofs.Renewal.Observation

namespace Authorization

/-- A request for the permissions themselves. -/
def Request.AboutCatalog : Request → Prop
  | .listPermissions | .createPermission _ => True
  | _ => False

namespace Phase

variable {α : Type} {phase : Phase α}

theorem twin_refl (more : Epochs)
    (unloading : ∀ f ∈ phase.flights, ∀ k : Key, f.request ≠ k.load) : phase.Twin more phase := by
  cases phase with
  | finished a => exact .finished a
  | asking flight next =>
    obtain ⟨request, asked, since, answer⟩ := flight
    exact .asking since answer next fun k same =>
      absurd same (unloading _ (List.mem_singleton_self _) k)
  | loading waiting flying loads next =>
    cases flying with
    | nil => exact .loading waiting [] loads next
    | cons f flying => exact absurd rfl (unloading f.flight List.mem_cons_self (.role f.role))

/-- Work that waits for neither a load nor the catalog counts on no listing. -/
theorem Heeds.unlisted {known other : Table String PermissionId} {listed more : Prop}
    (heeds : phase.Heeds known listed)
    (unloading : ∀ f ∈ phase.flights, ∀ k : Key, f.request ≠ k.load)
    (apart : ∀ f ∈ phase.flights, ¬ f.request.AboutCatalog) : phase.Heeds other more := by
  cases phase with
  | finished _ => trivial
  | asking flight next =>
    obtain ⟨request, asked, since, answer⟩ := flight
    have loads := unloading _ (List.mem_singleton_self _)
    have consults := apart _ (List.mem_singleton_self _)
    cases request with
    | loadUser user => exact absurd rfl (loads (.user user))
    | loadRole role => exact absurd rfl (loads (.role role))
    | listPermissions => exact absurd trivial consults
    | createPermission name => exact absurd trivial consults
    | listRoles => exact ⟨⟨nofun, heeds.1.2⟩, fun _ _ => trivial⟩
    | write command => exact ⟨⟨nofun, heeds.1.2⟩, fun _ _ => trivial⟩
  | loading _ _ _ next => exact heeds

theorem settings_advance (p : Program α) (moment : Nat) (r : Resolver) :
    (p.advance moment r).2.settings = r.settings := by
  induction p generalizing r with
  | done a => rfl
  | act a next ih => exact (ih _ _).trans (r.settings_perform a)
  | ask request next _ => rfl
  | loadRoles roles next ih =>
    cases roles with
    | nil => exact ih [] r
    | cons role roles => rfl

theorem settings_resume (phase : Phase α) (moment index : Nat) (r : Resolver) :
    (phase.resume moment index r).2.settings = r.settings := by
  cases phase with
  | finished a => rfl
  | asking flight next =>
    simp only [resume]
    split
    · rw [settings_advance, Resolver.settings_absorb]
    · rfl
  | loading waiting flying loads next =>
    simp only [resume]
    split
    · rfl
    · split
      · rfl
      · split
        · rw [settings_advance, Resolver.settings_absorb]
        · exact Resolver.settings_absorb ..

theorem settings_turn (phase : Phase α) (moment : Nat) (s : System) (turn : Turn) :
    (phase.turn moment s turn).2.resolver.settings = s.resolver.settings := by
  cases turn with
  | launch => rfl
  | serve index => rfl
  | resume index => exact settings_resume phase moment index s.resolver

end Phase

theorem Cache.clear_eq_carry {κ ν : Type} {c : Cache κ ν} {capacity : Nat}
    (same : c.capacity = (new capacity : Cache κ ν).capacity) :
    c.clear = (new capacity).carry c.counts := by
  simp [clear, carry, counts, new, same]

theorem Activity.none_add (a : Activity) : none + a = a := by
  show (⟨0 + a.totalChecks, 0 + a.allowedChecks, 0 + a.loadErrors, 0 + a.invalidations,
    0 + a.warmups, 0 + a.skippedRoles⟩ : Activity) = a
  simp only [UInt64.zero_add]

theorem Activity.add_none (a : Activity) : a + none = a := by
  show (⟨a.totalChecks + 0, a.allowedChecks + 0, a.loadErrors + 0, a.invalidations + 0,
    a.warmups + 0, a.skippedRoles + 0⟩ : Activity) = a
  simp only [UInt64.add_zero]

/-- No more checks are counted as allowed than are counted at all. -/
def Activity.Consistent (a : Activity) : Prop := a.allowedChecks ≤ a.totalChecks

theorem Activity.denied_growth {a b more : Activity} (first : (a + more).Consistent)
    (firstToo : a.Consistent) (last : (b + more).Consistent) (lastToo : b.Consistent) :
    (b + more).deniedChecks - (a + more).deniedChecks = b.deniedChecks - a.deniedChecks := by
  have denied {a : Activity} (consistent : a.Consistent) :
      a.deniedChecks = a.totalChecks - a.allowedChecks := if_pos consistent
  have total (a : Activity) : (a + more).totalChecks = a.totalChecks + more.totalChecks := rfl
  have allowed (a : Activity) : (a + more).allowedChecks = a.allowedChecks + more.allowedChecks :=
    rfl
  rw [denied first, denied firstToo, denied last, denied lastToo, total, total, allowed, allowed]
  grind

namespace Resolver

variable {r s : Resolver} {config : Config} {projection : Option Projection}

theorem build_of_settings (built : build config projection = .ok s)
    (same : r.settings = s.settings) : build r.config r.projection = .ok s := by
  obtain rfl := build_ok built
  obtain ⟨sameConfig, rest⟩ := Prod.mk.inj same
  rw [sameConfig, (Prod.mk.inj rest).1]
  exact built

/-- A resolver that is invalidated altogether is a new one but for what it has counted and for its
catalog. -/
theorem invalidateAll_eq_carry (built : build config projection = .ok s)
    (same : r.settings = s.settings) :
    r.invalidateAll = s.carry ⟨r.invalidateAll.epochs, r.counters⟩ r.catalog := by
  obtain rfl := build_ok built
  simp only [settings, Prod.mk.injEq] at same
  obtain ⟨sameConfig, sameProjection, memberships, grants⟩ := same
  simp only [invalidateAll, carry, counters, epochs, Cache.clear_eq_carry memberships,
    Cache.clear_eq_carry grants, Activity.none_add, UInt64.zero_add, sameConfig, sameProjection]

theorem carry_nothing (r : Resolver) :
    r.carry ⟨⟨0, 0⟩, ⟨⟨0, 0, 0⟩, ⟨0, 0, 0⟩, .none⟩⟩ r.catalog = r := by
  simp only [carry, Cache.carry, UInt64.add_zero, Activity.add_none]

end Resolver

namespace World

variable {ι : Type}

/-- No call on a resolver waits for a load. -/
def Unloading (w : World ι) (i : ι) : Prop :=
  ∀ task ∈ w.tasks, task.home = i → ∀ f ∈ task.phase.flights, ∀ k : Key, f.request ≠ k.load

/-- The call at a position was made on a resolver and waits for the permissions to be listed, or for
one to be created. -/
def AtCatalog (w : World ι) (i : ι) (position : Nat) : Prop :=
  ∃ task, w.tasks[position]? = some task ∧ task.home = i ∧
    ∃ f ∈ task.phase.flights, f.request.AboutCatalog

variable [DecidableEq ι] {w : World ι} {moves : Nat → Move ι} {i : ι}

def replace (w : World ι) (i : ι) (r : Resolver) : World ι :=
  { w with resolvers := Function.update w.resolvers i r }

theorem settings_step (w : World ι) (n : Nat) (move : Move ι) (i : ι) :
    ((w.step n move).resolvers i).settings = (w.resolvers i).settings := by
  have updated {home : ι} {r : Resolver} (same : r.settings = (w.resolvers home).settings) :
      (Function.update w.resolvers home r i).settings = (w.resolvers i).settings := by
    by_cases here : i = home
    · rw [here, Function.update_self, same]
    · rw [Function.update_of_ne here]
  cases move with
  | call home call => exact updated (Phase.settings_advance ..)
  | turn position turn =>
    cases found : w.tasks[position]? with
    | none => rw [step_turn_missing found]
    | some task =>
      rw [step_turn found]
      exact updated (Phase.settings_turn ..)
  | invalidate home what => exact updated (Resolver.settings_invalidate ..)
  | upkeep change => rfl
  | pause => rfl

theorem settings_after (w : World ι) (moves : Nat → Move ι) (n : Nat) (i : ι) :
    ((w.after moves n).resolvers i).settings = (w.resolvers i).settings := by
  induction n with
  | zero => rfl
  | succ n ih => exact (settings_step _ n (moves n) i).trans ih

theorem twin_self (fresh : w.Fresh) (i : ι) (moves : Nat → Move ι) (n : Nat) :
    Twin i ⟨⟨0, 0⟩, ⟨⟨0, 0, 0⟩, ⟨0, 0, 0⟩, .none⟩⟩ .empty (fun _ => True) (w.after moves n)
      (w.after moves n) := by
  have start : Twin i ⟨⟨0, 0⟩, ⟨⟨0, 0, 0⟩, ⟨0, 0, 0⟩, .none⟩⟩ .empty (fun _ => True) w w := by
    constructor
    · rfl
    · exact fun _ _ held => nomatch held
    · exact fun _ _ => rfl
    · exact ⟨(Resolver.carry_nothing _).symm, .inl rfl⟩
    · rw [fresh.tasks]
      exact .nil
    · intro p task _ found
      rw [fresh.tasks] at found
      cases found
  exact (start.after (fun _ _ _ _ => trivial) n).1

/-- Invalidating a resolver altogether, or putting a new one in its place, makes twins. -/
theorem twin_replaced (fresh : w.Fresh) {m : Nat} {rebuilt : Resolver}
    {config : Config} {projection : Option Projection}
    (built : Resolver.build config projection = .ok rebuilt)
    (same : ((w.after moves m).resolvers i).settings = rebuilt.settings)
    (unloading : (w.after moves m).Unloading i) :
    Twin i ⟨((w.after moves m).resolvers i).invalidateAll.epochs,
        ((w.after moves m).resolvers i).counters⟩ ((w.after moves m).resolvers i).catalog
      (fun position => ¬ (w.after moves m).AtCatalog i position)
      ((w.after moves m).replace i ((w.after moves m).resolvers i).invalidateAll)
      ((w.after moves m).replace i rebuilt) := by
  constructor
  · rfl
  · exact fun name id held => catalog_recorded fresh held
  · intro j other
    simp only [replace, Function.update_of_ne other]
  · simp only [replace, Function.update_self]
    exact ⟨Resolver.invalidateAll_eq_carry built same, .inr ⟨rfl, Resolver.catalog_build built⟩⟩
  · refine List.forall₂_same.2 fun task member => ?_
    by_cases here : task.home = i
    · have phases := Phase.twin_refl ((w.after moves m).resolvers i).invalidateAll.epochs
        (unloading task member here)
      subst here
      exact .here phases
    · exact .elsewhere here
  · intro p task apart found here
    -- That every call under way heeds the catalog is known as the world is a twin of itself.
    have heeds := (twin_self fresh i moves m).heeds p task trivial found here
    apply heeds.unlisted (unloading task (List.mem_of_getElem? found) here)
    intro f flying about
    exact apart ⟨task, found, here, f, flying, about⟩

/-- Two runs under the same moves that cannot be told apart by moment `n`, except by the values that
the counters of one resolver began with and, until it has listed the permissions, by its catalog. -/
structure Equivalent (i : ι) (a b : World ι) (moves : Nat → Move ι) (n : Nat) : Prop where
  directory : (a.after moves n).directory = (b.after moves n).directory
  others (j : ι) : j ≠ i → (a.after moves n).resolvers j = (b.after moves n).resolvers j
  seen : (a.after moves n).tasks.map Task.seen = (b.after moves n).tasks.map Task.seen
  requests : (a.after moves n).request? (moves n) = (b.after moves n).request? (moves n)
  memberships : ((a.after moves n).resolvers i).memberships.entries =
    ((b.after moves n).resolvers i).memberships.entries
  grants : ((a.after moves n).resolvers i).grants.entries =
    ((b.after moves n).resolvers i).grants.entries
  counters : ((a.after moves n).resolvers i).counters - (a.resolvers i).counters =
    ((b.after moves n).resolvers i).counters - (b.resolvers i).counters
  denied : (a.resolvers i).activity.Consistent → (b.resolvers i).activity.Consistent →
    ((a.after moves n).resolvers i).activity.Consistent →
    ((b.after moves n).resolvers i).activity.Consistent →
      ((a.after moves n).resolvers i).activity.deniedChecks -
          (a.resolvers i).activity.deniedChecks =
        ((b.after moves n).resolvers i).activity.deniedChecks -
          (b.resolvers i).activity.deniedChecks
  catalog : (∃ t < n, (b.after moves t).Relists i (moves t)) →
    ((a.after moves n).resolvers i).catalog = ((b.after moves n).resolvers i).catalog

theorem Twin.equivalent {more : Carried} {known : Table String PermissionId} {live : Nat → Prop}
    {a b : World ι} (twin : Twin i more known live a b)
    (alive : ∀ n p turn, moves n = .turn p turn → live p) (n : Nat) : Equivalent i a b moves n := by
  obtain ⟨later, synced⟩ := twin.after alive n
  constructor
  · exact later.directory
  · exact later.others
  · exact Task.map_seen later.tasks
  · exact later.request? (moves n)
  · rw [later.home.carried]
    rfl
  · rw [later.home.carried]
    rfl
  · rw [later.home.carried, twin.home.carried, Resolver.counters_carry, Resolver.counters_carry,
      Counters.add_sub_add]
  · intro firstA firstB lastA lastB
    have first : (a.resolvers i).activity = (b.resolvers i).activity + more.counters.activity :=
      congrArg Resolver.activity twin.home.carried
    have last : ((a.after moves n).resolvers i).activity =
        ((b.after moves n).resolvers i).activity + more.counters.activity :=
      congrArg Resolver.activity later.home.carried
    rw [first] at firstA ⊢
    rw [last] at lastA ⊢
    exact Activity.denied_growth firstA firstB lastA lastB
  · exact synced

/-- From then on, a resolver that is invalidated altogether does as a new one would in its place. A
call that was at the catalog by then is not gone on with, as a new resolver has none. -/
theorem invalidateAll_equivalent (fresh : w.Fresh) (past : Nat → Move ι) (m : Nat) (i : ι)
    (unloading : (w.after past m).Unloading i) :
    ∃ rebuilt, Resolver.build ((w.after past m).resolvers i).config
        ((w.after past m).resolvers i).projection = .ok rebuilt ∧
      ∀ moves, (∀ n p turn, moves n = .turn p turn → ¬ (w.after past m).AtCatalog i p) → ∀ n,
        Equivalent i ((w.after past m).replace i ((w.after past m).resolvers i).invalidateAll)
          ((w.after past m).replace i rebuilt) moves n := by
  obtain ⟨config, projection, built⟩ := fresh.built i
  have same := settings_after w past m i
  refine ⟨w.resolvers i, Resolver.build_of_settings built same, fun moves apart n => ?_⟩
  exact (twin_replaced fresh built same unloading).equivalent apart n

-- A call that was at the catalog knows what it has listed, which a new resolver does not.
example :
    let now := sample.after (schedule [.upkeep (.request (.createPermission "b")),
      .call () (.ensurePermissions ["a", "b"]), .turn 0 (.serve 0), .turn 0 (.resume 0)]) 4
    let moves := schedule [.turn 0 (.serve 0), .turn 0 (.resume 0)]
    ((now.replace () (now.resolvers ()).invalidateAll).after moves 2).request?
        (.turn 0 (.serve 0)) = none ∧
      ((now.replace () .sample).after moves 2).request? (.turn 0 (.serve 0)) =
        some (.createPermission "b") := by
  exact ⟨rfl, rfl⟩

/-- A check has been answered, and a command has been served but has not returned yet. -/
def halfway : List (Move Unit) :=
  [.call () (.hasPermission ⟨1⟩ ⟨3⟩ "x"), .turn 0 (.serve 0), .turn 0 (.resume 0),
    .turn 0 (.serve 0), .turn 0 (.resume 0),
    .call () (.command (.edit (.addPermission ⟨7⟩ "y"))), .turn 1 (.serve 0)]

/-- The command returns during the second load of another check. -/
def onward : List (Move Unit) :=
  [.call () (.hasPermission ⟨1⟩ ⟨3⟩ "y"), .turn 2 (.serve 0), .turn 2 (.resume 0),
    .turn 2 (.serve 0), .turn 1 (.resume 0), .turn 2 (.resume 0)]

theorem invalidateAll_equivalent_halfway :
    (sample.after (schedule halfway) 7).Unloading () ∧
      Equivalent () ((sample.after (schedule halfway) 7).replace ()
          ((sample.after (schedule halfway) 7).resolvers ()).invalidateAll)
        ((sample.after (schedule halfway) 7).replace () .sample) (schedule onward) 6 ∧
      ((((sample.after (schedule halfway) 7).replace () .sample).after (schedule onward) 6).resolvers
        ()).counters.grants.misses = 1 := by
  have unloading : (sample.after (schedule halfway) 7).Unloading () := by
    intro task member _ f flying
    rcases List.mem_cons.1 member with rfl | member
    · cases flying
    · obtain rfl := List.mem_singleton.1 member
      obtain rfl := List.mem_singleton.1 flying
      intro k
      cases k <;> nofun
  have apart (n p : Nat) (turn : Turn) (_ : schedule onward n = .turn p turn) :
      ¬ (sample.after (schedule halfway) 7).AtCatalog () p := by
    intro ⟨task, found, _, f, flying, about⟩
    rcases List.mem_cons.1 (List.mem_of_getElem? found) with rfl | member
    · cases flying
    · obtain rfl := List.mem_singleton.1 member
      obtain rfl := List.mem_singleton.1 flying
      exact about
  obtain ⟨rebuilt, built, equivalent⟩ :=
    invalidateAll_equivalent fresh_sample (schedule halfway) 7 () unloading
  obtain rfl := Except.ok.inj (built.symm.trans Resolver.build_sample)
  exact ⟨unloading, equivalent (schedule onward) apart 6, rfl⟩

end World

end Authorization
