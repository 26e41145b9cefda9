import Authorization.Proofs.Queries.Recall

namespace Authorization

namespace Resolver

/-- Every entry is still there. -/
def Keeps (r after : Resolver) : Prop := ∀ k v, r.cached? k = some v → after.cached? k = some v

theorem Keeps.trans {r between after : Resolver} (first : r.Keeps between)
    (second : between.Keeps after) : r.Keeps after :=
  fun k v held => second k v (first k v held)

theorem Shuffled.keeps {r after : Resolver} (shuffled : r.Shuffled after) : r.Keeps after := by
  intro k v held
  rw [shuffled.cached?]
  exact held

end Resolver

/-- One of some users or roles. -/
def Key.Among (users : List UserId) (roles : List RoleId) : Key → Prop
  | .user x => x ∈ users
  | .role x => x ∈ roles

def Key.role? : Key → Option RoleId
  | .user _ => none
  | .role x => some x

namespace Resolver

variable {users : List UserId} {roles : List RoleId} {r after : Resolver} {k : Key}

/-- There is room for some users and roles, and nothing else is cached. -/
structure Room (users : List UserId) (roles : List RoleId) (r : Resolver) : Prop where
  memberships : users.dedup.length ≤ r.memberships.capacity
  grants : roles.dedup.length ≤ r.grants.capacity
  cached : ∀ k, (r.cached? k).isSome = true → k.Among users roles

/-- A key of these is cached at its first use, and nothing is dropped for it. -/
theorem Room.fetched (room : r.Room users roles) (among : k.Among users roles)
    (absent : r.cached? k = none) (v : k.Snapshot) :
    ((r.missed k).keep k v).Room users roles ∧
      ((r.missed k).keep k v).memberships.evictions = r.memberships.evictions ∧
      ((r.missed k).keep k v).grants.evictions = r.grants.evictions ∧
      r.Keeps ((r.missed k).keep k v) ∧
      ∀ x, (((r.missed k).keep k v).cached? x).isSome = true ↔
        x = k ∨ (r.cached? x).isSome = true := by
  have filled : ((r.missed k).keep k v).memberships.capacity = r.memberships.capacity ∧
      ((r.missed k).keep k v).grants.capacity = r.grants.capacity := by
    cases k <;> exact ⟨rfl, rfl⟩
  suffices rest : _ ∧ _ ∧ _ ∧ _ from ⟨{
      memberships := filled.1 ▸ room.memberships
      grants := filled.2 ▸ room.grants
      cached := fun x there => ((rest.2.2.2 x).1 there).elim (· ▸ among) (room.cached x) }, rest⟩
  cases k with
  | user user =>
    obtain ⟨evictions, kept, held⟩ := Cache.put_of_room
      (c := { r.memberships with misses := r.memberships.misses + 1 })
      (fun x => room.cached (.user x)) among absent room.memberships v
    refine ⟨evictions, rfl, fun x w cached => ?_, fun x => ?_⟩
    · cases x with
      | user x => exact kept x w cached
      | role _ => exact cached
    · cases x with
      | user x => exact (held x).trans (or_congr_left (iff_of_eq (Key.user.injEq ..)).symm)
      | role _ => exact (or_iff_right nofun).symm
  | role role =>
    obtain ⟨evictions, kept, held⟩ := Cache.put_of_room
      (c := { r.grants with misses := r.grants.misses + 1 })
      (fun x => room.cached (.role x)) among absent room.grants v
    refine ⟨rfl, evictions, fun x w cached => ?_, fun x => ?_⟩
    · cases x with
      | user _ => exact cached
      | role x => exact kept x w cached
    · cases x with
      | user _ => exact (or_iff_right nofun).symm
      | role x => exact (held x).trans (or_congr_left (iff_of_eq (Key.role.injEq ..)).symm)

/-- After some events exactly the keys that were sought are cached, each was loaded once, and
nothing was evicted. -/
structure Stocked (users : List UserId) (roles : List RoleId) (es : List Event) (r : Resolver) :
    Prop extends Room users roles r where
  held : ∀ k, (r.cached? k).isSome = true ↔ k ∈ Event.sought es
  loads : ∀ k : Key, (Event.requests es).count k.load = if k ∈ Event.sought es then 1 else 0
  only : ∀ request ∈ Event.requests es, ∃ k : Key, request = k.load
  memberships_evictions : r.memberships.evictions = 0
  grants_evictions : r.grants.evictions = 0

variable {es : List Event}

theorem Stocked.shuffled (stocked : r.Stocked users roles es) (shuffled : r.Shuffled after)
    (more : List Event) (again : ∀ k ∈ Event.sought more, k ∈ Event.sought es)
    (quiet : Event.requests more = []) :
    after.Stocked users roles (es ++ more) := by
  have sought (x : Key) : x ∈ Event.sought (es ++ more) ↔ x ∈ Event.sought es := by
    rw [Event.sought_append, List.mem_append]
    exact or_iff_left_of_imp (again x)
  have requests : Event.requests (es ++ more) = Event.requests es := by
    rw [Event.requests_append, quiet, List.append_nil]
  constructor
  · constructor
    · exact shuffled.memberships.capacity ▸ stocked.memberships
    · exact shuffled.grants.capacity ▸ stocked.grants
    · rw [shuffled.cached?]
      exact stocked.cached
  · intro x
    rw [sought, shuffled.cached?]
    exact stocked.held x
  · intro x
    simp only [requests, sought]
    exact stocked.loads x
  · rw [requests]
    exact stocked.only
  · exact shuffled.memberships.evictions.trans stocked.memberships_evictions
  · exact shuffled.grants.evictions.trans stocked.grants_evictions

variable {s : System} {v : k.Snapshot}

theorem Stocked.lookUp (stocked : s.resolver.Stocked users roles es)
    (among : k.Among users roles) (found : (s.lookUp k).1 = .ok v) :
    (s.lookUp k).2.resolver.Stocked users roles (es ++ s.lookUpEvents k) ∧
      s.resolver.Keeps (s.lookUp k).2.resolver := by
  have seeks := s.sought_lookUpEvents k
  have asks := s.requests_lookUpEvents k
  unfold System.lookUp at found ⊢
  cases cached : s.resolver.cached? k with
  | some w =>
    rw [cached] at asks
    have shuffled : s.resolver.Shuffled (s.resolver.used k) := .used cached
    have already : k ∈ Event.sought es := (stocked.held k).1 (Option.isSome_of_eq_some cached)
    refine ⟨stocked.shuffled shuffled _ (fun x member => ?_) asks, shuffled.keeps⟩
    rw [seeks, List.mem_singleton] at member
    exact member ▸ already
  | none =>
    replace asks : Event.requests (s.lookUpEvents k) = [k.load] := by rw [asks, cached]
    rw [cached] at found
    have absent : k ∉ Event.sought es := by
      rw [← stocked.held, cached]
      exact Bool.false_ne_true
    have loaded : System.load ⟨s.resolver.missed k, s.directory⟩ k =
        (.ok v, ⟨(s.resolver.missed k).keep k v, (s.directory.serve k.load).2⟩) := by
      dsimp only at found
      unfold System.load at found ⊢
      split at found <;> cases found
      rfl
    obtain ⟨room, memberships, grants, keeps, held⟩ := stocked.fetched among cached v
    simp only [loaded]
    refine ⟨⟨room, fun x => ?_, fun x => ?_, fun request member => ?_, ?_, ?_⟩, keeps⟩
    · rw [held, stocked.held, Event.sought_append, seeks, List.mem_append, List.mem_singleton]
      exact or_comm
    · have fresh : x.load = k.load ↔ x = k := ⟨Key.load_injective, congrArg _⟩
      simp only [Event.requests_append, asks, List.count_append, stocked.loads,
        Event.sought_append, seeks, List.mem_append, List.mem_singleton]
      by_cases same : x = k
      · simp [same, absent]
      · have other : x.load ∉ [k.load] := by simpa using mt Key.load_injective same
        simp [same, List.count_eq_zero.2 other]
    · rw [Event.requests_append, asks, List.mem_append, List.mem_singleton] at member
      exact member.elim (stocked.only request) fun same => ⟨k, same⟩
    · exact memberships.trans stocked.memberships_evictions
    · exact grants.trans stocked.grants_evictions

end Resolver

section

open Resolver

variable {users : List UserId} {roles : List RoleId} {es : List Event} {s : System} {α : Type}
  {keys : Key → Prop} {q : Query α}

/-- Work whose keys all fit can be recalled afterwards. -/
theorem Query.LooksUp.stocked (looks : q.LooksUp keys)
    (stocked : s.resolver.Stocked users roles es)
    (among : ∀ k ∈ Event.sought (q.run.events s), k.Among users roles)
    (succeeds : ∀ e ∈ q.run.events s, e.Succeeds) :
    (q.run.run s).2.resolver.Stocked users roles (es ++ q.run.events s) ∧
      s.resolver.Keeps (q.run.run s).2.resolver ∧
      q.run.recollect? (q.run.run s).2.resolver.cached? = some (q.run.run s).1 := by
  -- by induction on the lookups: no entry is dropped later, so that what each of them found is still
  -- there to be recalled at the end
  induction looks generalizing s es with
  | done a =>
    have still := stocked.shuffled (.refl s.resolver) [] nofun rfl
    exact ⟨still, fun _ _ => id, rfl⟩
  | @count allowed q' _ ih =>
    have counted : s.resolver.Shuffled (s.resolver.perform (.recordCheck allowed)).2 :=
      ⟨.refl _, .refl _, rfl⟩
    have still : (s.perform (.recordCheck allowed)).2.resolver.Stocked users roles
        (es ++ [.act (.recordCheck allowed)]) :=
      stocked.shuffled counted [.act (.recordCheck allowed)] nofun rfl
    have later (e : Event) (member : e ∈ q'.run.events (s.perform (.recordCheck allowed)).2) :
        e.Succeeds := succeeds e (List.mem_cons_of_mem _ member)
    obtain ⟨ended, keeps, recalled⟩ := ih still among later
    rw [List.append_assoc] at ended
    exact ⟨ended, counted.keeps.trans keeps, recalled⟩
  | @next k _ f _ ih =>
    have resolved := lookUp_run s k
    cases found : (s.lookUp k).1 with
    | error e =>
      have first : (lookUp k).run.run s = (.error e, (s.lookUp k).2) :=
        resolved.trans (Prod.ext found rfl)
      have refused := System.fails_of_lookUp found
      rw [events_bind_error first, lookUp_events, System.lookUpEvents, refused.1, refused.2]
        at succeeds
      exact (succeeds (.ask k.load (.error e)) (by simp)).elim
    | ok v =>
      have first : (lookUp k).run.run s = (.ok v, (s.lookUp k).2) :=
        resolved.trans (Prod.ext found rfl)
      rw [events_bind_ok first, lookUp_events] at among succeeds ⊢
      rw [Query.run_bind_ok first]
      rw [Event.sought_append, s.sought_lookUpEvents] at among
      obtain ⟨first, among⟩ := List.forall_mem_append.1 among
      obtain ⟨still, keeps⟩ := stocked.lookUp (first k (List.mem_singleton_self k)) found
      obtain ⟨ended, kept, recalled⟩ := ih v still among (List.forall_mem_append.1 succeeds).2
      rw [List.append_assoc] at ended
      refine ⟨ended, keeps.trans kept, ?_⟩
      have held := kept k v (System.lookUp_ok found).1
      rw [recollect?_bind_ok (lookUp_recollect? held)]
      exact recalled

end

namespace Resolver

variable {users : List UserId} {roles : List RoleId} {r : Resolver} {es : List Event}

theorem Stocked.visit (stocked : r.Stocked users roles es) (v : Visit)
    (among : ∀ k ∈ Event.sought ((v.inquiry.program v.user).events ⟨r, v.directory⟩),
      k.Among users roles)
    (succeeds : ∀ e ∈ (v.inquiry.program v.user).events ⟨r, v.directory⟩, e.Succeeds) :
    (r.visit v).2.resolver.Stocked users roles
        (es ++ (v.inquiry.program v.user).events ⟨r, v.directory⟩) ∧
      r.Keeps (r.visit v).2.resolver ∧
      (v.inquiry.program v.user).recollect? (r.visit v).2.resolver.cached? = some (r.visit v).1 := by
  rw [Inquiry.program_events] at among succeeds ⊢
  obtain ⟨still, keeps, recalled⟩ :=
    (v.inquiry.toQuestion.looksUp v.user).stocked stocked among succeeds
  rw [Resolver.visit, Inquiry.program_run]
  refine ⟨still, keeps, ?_⟩
  rw [Inquiry.program_eq, Program.recollect?_bind, recalled]
  rfl

theorem Stocked.visits (stocked : r.Stocked users roles es) {vs : List Visit}
    (among : ∀ k ∈ Event.sought (r.trace vs), k.Among users roles)
    (succeeds : ∀ e ∈ r.trace vs, e.Succeeds) :
    (r.visits vs).Stocked users roles (es ++ r.trace vs) ∧ r.Keeps (r.visits vs) := by
  induction vs generalizing r es with
  | nil => exact ⟨(List.append_nil es).symm ▸ stocked, fun _ _ => id⟩
  | cons v vs ih =>
    rw [trace, Event.sought_append] at among
    obtain ⟨firstAmong, among⟩ := List.forall_mem_append.1 among
    obtain ⟨firstSucceeds, succeeds⟩ := List.forall_mem_append.1 succeeds
    obtain ⟨still, keeps, _⟩ := stocked.visit v firstAmong firstSucceeds
    obtain ⟨ended, kept⟩ := ih still among succeeds
    rw [List.append_assoc] at ended
    exact ⟨ended, keeps.trans kept⟩

def soughtRoles (r : Resolver) (vs : List Visit) : List RoleId :=
  (Event.sought (r.trace vs)).filterMap Key.role?

theorem sought_user_iff {vs : List Visit} {user : UserId} :
    .user user ∈ Event.sought (r.trace vs) ↔ user ∈ vs.map (·.user) := by
  induction vs generalizing r with
  | nil => simp [trace, Event.sought]
  | cons v vs ih =>
    rw [trace, Event.sought_append, List.mem_append, ih, List.map_cons, List.mem_cons]
    refine or_congr_left ⟨Inquiry.sought, ?_⟩
    rintro rfl
    exact Inquiry.user_sought ..

theorem sought_role_iff {vs : List Visit} {role : RoleId} :
    .role role ∈ Event.sought (r.trace vs) ↔ role ∈ r.soughtRoles vs := by
  rw [soughtRoles, List.mem_filterMap]
  constructor
  · exact fun there => ⟨_, there, rfl⟩
  · rintro ⟨k, there, same⟩
    cases k <;> cases same
    exact there

/-- The users and the roles that are looked up fit into the caches, and no load fails. -/
structure Fits (r : Resolver) (vs : List Visit) : Prop where
  users : (vs.map (·.user)).dedup.length ≤ r.memberships.capacity
  roles : (r.soughtRoles vs).dedup.length ≤ r.grants.capacity
  succeeds : ∀ e ∈ r.trace vs, e.Succeeds

structure LoadedOnce (r : Resolver) (vs : List Visit) : Prop where
  users : ∀ user, (Event.requests (r.trace vs)).count (.loadUser user) =
    if user ∈ vs.map (·.user) then 1 else 0
  roles : ∀ role, (Event.requests (r.trace vs)).count (.loadRole role) =
    if role ∈ r.soughtRoles vs then 1 else 0
  only : ∀ request ∈ Event.requests (r.trace vs), ∃ k : Key, request = k.load

/-- What was looked up at any time stays in the caches. -/
structure Retains (r : Resolver) (vs : List Visit) : Prop where
  evictions : ∀ front back, vs = front ++ back →
    (r.visits front).memberships.evictions = 0 ∧ (r.visits front).grants.evictions = 0
  held : ∀ front back, vs = front ++ back → ∀ k ∈ Event.sought (r.trace front),
    ∃ v, (r.visits front).cached? k = some v ∧ (r.visits vs).cached? k = some v

/-- Whatever was asked before is answered as before, and nothing is asked of the directory. -/
def Repeats (r : Resolver) (vs : List Visit) : Prop :=
  ∀ front v middle back d, vs = front ++ v :: middle ++ back →
    ((r.visits (front ++ v :: middle)).visit ⟨d, v.user, v.inquiry⟩).1 =
        ((r.visits front).visit v).1 ∧
      Event.requests ((v.inquiry.program v.user).events ⟨r.visits (front ++ v :: middle), d⟩) = []

section

variable {vs : List Visit}

theorem among_of_sought {k : Key} (sought : k ∈ Event.sought (r.trace vs)) :
    k.Among (vs.map (·.user)) (r.soughtRoles vs) := by
  cases k with
  | user user => exact sought_user_iff.1 sought
  | role role => exact sought_role_iff.1 sought

variable {config : Config} {projection : Option Projection}

theorem Fits.stocked (fits : r.Fits vs) (built : build config projection = .ok r) :
    r.Stocked (vs.map (·.user)) (r.soughtRoles vs) [] where
  memberships := fits.users
  grants := fits.roles
  cached k held := by
    rw [cached?_build built] at held
    cases held
  held k := by
    rw [cached?_build built]
    exact iff_of_false Bool.false_ne_true List.not_mem_nil
  loads k := rfl
  only := nofun
  memberships_evictions := by
    rw [build_ok built]
    rfl
  grants_evictions := by
    rw [build_ok built]
    rfl

theorem Fits.part (fits : r.Fits vs) (built : build config projection = .ok r)
    (front middle back : List Visit) (parts : vs = front ++ middle ++ back) :
    (r.visits front).Stocked (vs.map (·.user)) (r.soughtRoles vs) (r.trace front) ∧
      (∀ k ∈ Event.sought ((r.visits front).trace middle),
        k.Among (vs.map (·.user)) (r.soughtRoles vs)) ∧
      ∀ e ∈ (r.visits front).trace middle, e.Succeeds := by
  have whole : r.trace vs =
      r.trace front ++ ((r.visits front).trace middle ++ (r.visits (front ++ middle)).trace back) := by
    rw [parts, trace_append, trace_append, List.append_assoc]
  have among : ∀ k ∈ Event.sought (r.trace vs), k.Among (vs.map (·.user)) (r.soughtRoles vs) :=
    fun k => among_of_sought
  have succeeds := fits.succeeds
  rw [whole] at succeeds
  rw [whole, Event.sought_append, Event.sought_append] at among
  obtain ⟨frontAmong, among⟩ := List.forall_mem_append.1 among
  obtain ⟨frontSucceeds, succeeds⟩ := List.forall_mem_append.1 succeeds
  exact ⟨((fits.stocked built).visits frontAmong frontSucceeds).1,
    (List.forall_mem_append.1 among).1, (List.forall_mem_append.1 succeeds).1⟩

theorem Fits.loadedOnce (fits : r.Fits vs) (built : build config projection = .ok r) :
    r.LoadedOnce vs := by
  have ended : (r.visits vs).Stocked _ _ (r.trace vs) :=
    ((fits.stocked built).visits (fun _ => among_of_sought) fits.succeeds).1
  refine ⟨fun user => ?_, fun role => ?_, ended.only⟩
  · refine (ended.loads (.user user)).trans ?_
    simp only [sought_user_iff]
  · refine (ended.loads (.role role)).trans ?_
    simp only [sought_role_iff]

theorem Fits.retains (fits : r.Fits vs) (built : build config projection = .ok r) :
    r.Retains vs := by
  constructor
  · intro front back parts
    obtain ⟨stocked, _⟩ := fits.part built front back [] (parts.trans (List.append_nil _).symm)
    exact ⟨stocked.memberships_evictions, stocked.grants_evictions⟩
  · rintro front back rfl k sought
    obtain ⟨stocked, among, succeeds⟩ := fits.part built front back [] (List.append_nil _).symm
    obtain ⟨v, held⟩ := Option.isSome_iff_exists.1 ((stocked.held k).2 sought)
    rw [visits_append]
    exact ⟨v, held, (stocked.visits among succeeds).2 k v held⟩

theorem Fits.repeats (fits : r.Fits vs) (built : build config projection = .ok r) :
    r.Repeats vs := by
  intro front v middle back d parts
  obtain ⟨stocked, among, succeeds⟩ := fits.part built front (v :: middle) back parts
  rw [trace, Event.sought_append] at among
  obtain ⟨firstAmong, among⟩ := List.forall_mem_append.1 among
  obtain ⟨firstSucceeds, succeeds⟩ := List.forall_mem_append.1 succeeds
  obtain ⟨after, _, recalled⟩ := stocked.visit v firstAmong firstSucceeds
  obtain ⟨_, keeps⟩ := after.visits among succeeds
  rw [visits_append]
  obtain ⟨_, _, runs⟩ := Program.run_of_recollect? (Program.recollect?_mono keeps recalled)
  exact ⟨(Prod.ext_iff.1 (runs d).1).1, (runs d).2⟩

/-- As long as the caches have room for all that is looked up, each user and each role is loaded
once, whatever happens to the directory in between. -/
theorem loaded_once_of_fits (built : build config projection = .ok r) (fits : r.Fits vs) :
    r.LoadedOnce vs ∧ r.Retains vs ∧ r.Repeats vs :=
  ⟨fits.loadedOnce built, fits.retains built, fits.repeats built⟩

end

/-- There is room for one user and two roles. -/
def roomy : Resolver := { Resolver.sample with config := ⟨1, 2, false, []⟩, grants := .new 2 }

/-- The check looks up one of the two roles, and the listing both. -/
def revisits : List Visit := [
  ⟨System.shared ⟨5⟩ ["y"], ⟨1⟩, .checkOrDeny ⟨5⟩ "y"⟩,
  ⟨System.shared ⟨6⟩ ["z"], ⟨1⟩, .question (.userPermissions ⟨3⟩)⟩]

/-- In the end the check is repeated over a directory in which there is nothing. -/
theorem loaded_once_revisits : build ⟨1, 2, false, []⟩ none = .ok roomy ∧ roomy.Fits revisits ∧
    Event.requests (roomy.trace revisits) = [.loadUser ⟨1⟩, .loadRole ⟨8⟩, .loadRole ⟨7⟩] ∧
    ((roomy.visits revisits).visit ⟨.empty, ⟨1⟩, .checkOrDeny ⟨5⟩ "y"⟩).1 = true := by
  have built : build ⟨1, 2, false, []⟩ none = .ok roomy := rfl
  have fits : roomy.Fits revisits := ⟨by decide, by decide, by decide⟩
  obtain ⟨_, _, repeats⟩ := loaded_once_of_fits built fits
  obtain ⟨answered, _⟩ := repeats [] ⟨System.shared ⟨5⟩ ["y"], ⟨1⟩, .checkOrDeny ⟨5⟩ "y"⟩
    [⟨System.shared ⟨6⟩ ["z"], ⟨1⟩, .question (.userPermissions ⟨3⟩)⟩] [] .empty rfl
  exact ⟨built, fits, rfl, answered.trans rfl⟩

end Resolver

end Authorization
