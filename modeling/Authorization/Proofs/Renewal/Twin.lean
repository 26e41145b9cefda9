import Authorization.Proofs.Interleaving.Phase
import Authorization.Proofs.Renewal.Carried
import Authorization.Proofs.Renewal.Consult

namespace Authorization

variable {α : Type}

def RoleFlight.carry (f : RoleFlight) (more : Epochs) : RoleFlight :=
  { f with asked := f.asked + more }

/-- The same work under way on two resolvers, of which the first has counted some more: its loads
were begun at epochs that differ by as much. -/
inductive Phase.Twin (more : Epochs) : Phase α → Phase α → Prop where
  | finished (a : α) : Twin more (.finished a) (.finished a)
  | asking {request : Request} {asked askedToo : Epochs} (since : Nat)
      (answer : Option (Except Error request.Answer))
      (next : Except Error request.Answer → Program α)
      (timed : ∀ k : Key, request = k.load → asked = askedToo + more) :
      Twin more (.asking ⟨request, asked, since, answer⟩ next)
        (.asking ⟨request, askedToo, since, answer⟩ next)
  | loading (waiting : List RoleId) (flying : List RoleFlight) (loads : List RoleLoad)
      (next : List RoleLoad → Program α) :
      Twin more (.loading waiting (flying.map (·.carry more)) loads next)
        (.loading waiting flying loads next)

/-- A listing tells everything that was known before. -/
def Request.Covers (known : Table String PermissionId) :
    (request : Request) → Except Error request.Answer → Prop
  | .listPermissions, .ok records =>
    Resolver.record known records = Resolver.record .empty records
  | _, _ => True

theorem Request.covers_serve {d : Directory} {known : Table String PermissionId}
    (records : d.Records known) (request : Request) :
    request.Covers known (d.serve request).1 := by
  cases request with
  | listPermissions =>
    cases up : d.available with
    | false =>
      rw [Directory.serve_unavailable up]
      trivial
    | true =>
      simp only [Directory.serve, up, if_true]
      exact Resolver.record_catalog records
  | _ => trivial

/-- What is left of some work heeds the catalog, and what it has been told covers what was known. -/
def Phase.Heeds (known : Table String PermissionId) (listed : Prop) : Phase α → Prop
  | finished _ => True
  | asking flight next => (Program.ask flight.request next).Heeds listed ∧
    ∀ given, flight.answer = some given → flight.request.Covers known given
  | loading _ _ _ next => ∀ loads, (next loads).Heeds False

theorem Phase.Heeds.mono {known : Table String PermissionId} {listed more : Prop}
    {phase : Phase α} (heeds : phase.Heeds known listed) (weaken : listed → more) :
    phase.Heeds known more := by
  cases phase with
  | finished _ => trivial
  | asking flight next => exact ⟨heeds.1.mono weaken, heeds.2⟩
  | loading _ _ _ next => exact heeds

/-- The catalogs of two resolvers are the same, or nothing was added yet to what the one had when
the other was new. -/
def Level (known catalog other : Table String PermissionId) : Prop :=
  catalog = other ∨ catalog = known ∧ other = .empty

namespace Level

variable {known catalog other : Table String PermissionId} {request : Request}
  {given : Except Error request.Answer}

theorem record_of_lists (level : Level known catalog other) (covers : request.Covers known given)
    (lists : request.lists (catalog = other) given) :
    Resolver.record catalog (request.records given) =
      Resolver.record other (request.records given) := by
  match request, given with
  | .listPermissions, .ok records =>
    rcases level with rfl | ⟨rfl, rfl⟩
    · rfl
    · exact covers
  | .listPermissions, .error _ => exact lists
  | .createPermission _, _ => exact congrArg (Resolver.record · _) lists
  | .loadUser _, _ | .loadRole _, _ | .listRoles, _ | .write _, _ => exact lists.elim

theorem record (level : Level known catalog other) (covers : request.Covers known given)
    (heeds : ∀ name, request = .createPermission name → catalog = other) :
    Level known (Resolver.record catalog (request.records given))
      (Resolver.record other (request.records given)) := by
  match request, given with
  | .listPermissions, .ok records => exact .inl (level.record_of_lists covers trivial)
  | .createPermission name, _ => exact .inl (congrArg (Resolver.record · _) (heeds name rfl))
  | .listPermissions, .error _ => exact level
  | .loadUser _, _ | .loadRole _, _ | .listRoles, _ | .write _, _ => exact level

end Level

/-- Two resolvers of which the first has counted some more and may know some more. -/
structure Resolver.Twin (more : Carried) (known : Table String PermissionId) (r s : Resolver) :
    Prop where
  carried : r = s.carry more r.catalog
  level : Level known r.catalog s.catalog

section

variable {more : Carried} {known : Table String PermissionId} {r s : Resolver}

theorem Resolver.Twin.perform (twin : r.Twin more known s) {a : Act}
    (heeds : ∀ name, a = .knowsPermission name → r.catalog = s.catalog) :
    (r.perform a).1 = (s.perform a).1 ∧ (r.perform a).2.Twin more known (s.perform a).2 := by
  have same := s.perform_carry more r.catalog heeds
  rw [← twin.carried] at same
  have kept := (r.perform_agrees a).catalog
  have keptToo := (s.perform_agrees a).catalog
  refine ⟨by rw [same], ?_, ?_⟩
  · rw [kept, same]
  · rw [kept, keptToo]
    exact twin.level

theorem Resolver.Twin.invalidate (twin : r.Twin more known s) (what : Invalidation) :
    (r.invalidate what).Twin more known (s.invalidate what) := by
  constructor
  · rw [Resolver.catalog_invalidate, ← Resolver.invalidate_carry, ← twin.carried]
  · rw [Resolver.catalog_invalidate, Resolver.catalog_invalidate]
    exact twin.level

/-- An answer that two resolvers take in leaves them twins, with the same catalog if they had the
same or it is a listing. -/
theorem Resolver.Twin.absorb (twin : r.Twin more known s) {request : Request}
    {asked askedToo : Epochs} (timed : ∀ k : Key, request = k.load → asked = askedToo + more.epochs)
    {given : Except Error request.Answer} (covers : request.Covers known given)
    (heeds : ∀ name, request = .createPermission name → r.catalog = s.catalog) :
    (r.absorb asked request given).Twin more known (s.absorb askedToo request given) ∧
      (r.catalog = s.catalog ∨ request.lists (r.catalog = s.catalog) given →
        (r.absorb asked request given).catalog = (s.absorb askedToo request given).catalog) := by
  have same := s.absorb_carry more r.catalog timed given
  rw [← twin.carried] at same
  have catalog := r.catalog_absorb asked request given
  have catalogToo := s.catalog_absorb askedToo request given
  refine ⟨⟨?_, ?_⟩, ?_⟩
  · rw [catalog]
    exact same
  · rw [catalog, catalogToo]
    exact twin.level.record covers heeds
  · rw [catalog, catalogToo]
    intro sooner
    cases sooner with
    | inl synced => rw [synced]
    | inr lists => exact twin.level.record_of_lists covers lists

theorem Resolver.Twin.epochs (twin : r.Twin more known s) : r.epochs = s.epochs + more.epochs := by
  rw [twin.carried, Resolver.epochs_carry]

/-- The same work on twins, of which what is left heeds the catalog if the twins have not got the
same one. -/
structure Phase.Paired (more : Carried) (known : Table String PermissionId) (P : Phase α)
    (r : Resolver) (Q : Phase α) (s : Resolver) : Prop where
  phases : P.Twin more.epochs Q
  resolvers : r.Twin more known s
  heeds : Q.Heeds known (r.catalog = s.catalog)

theorem Program.Heeds.advance {p : Program α} (heeds : p.Heeds (r.catalog = s.catalog))
    (twin : r.Twin more known s) (moment : Nat) :
    Phase.Paired more known (p.advance moment r).1 (p.advance moment r).2
      (p.advance moment s).1 (p.advance moment s).2 := by
  -- An act leaves both catalogs alone, so what the rest may count on does not change on the way.
  induction p generalizing r s with
  | done a => exact ⟨.finished a, twin, trivial⟩
  | act a next ih =>
    obtain ⟨same, after⟩ := twin.perform heeds.1
    have rest := heeds.2 (s.perform a).1
    rw [← (r.perform_agrees a).catalog, ← (s.perform_agrees a).catalog] at rest
    simp only [Program.advance, same]
    exact ih _ rest after
  | ask request next _ =>
    exact ⟨.asking moment none next fun _ _ => twin.epochs, twin, heeds, nofun⟩
  | loadRoles roles next ih =>
    cases roles with
    | nil => exact ih [] ((heeds []).mono False.elim) twin
    | cons role roles => exact ⟨.loading (role :: roles) [] [] next, twin, heeds⟩

theorem Program.Heeds.advance_synced {p : Program α} (heeds : p.Heeds (r.catalog = s.catalog))
    (twin : r.Twin more known s) (moment : Nat) {sooner : Prop}
    (synced : sooner → r.catalog = s.catalog) :
    Phase.Paired more known (p.advance moment r).1 (p.advance moment r).2
        (p.advance moment s).1 (p.advance moment s).2 ∧
      (sooner → (p.advance moment r).2.catalog = (p.advance moment s).2.catalog) := by
  refine ⟨heeds.advance twin moment, fun same => ?_⟩
  rw [(p.advance_starts moment r).1.catalog, (p.advance_starts moment s).1.catalog]
  exact synced same

/-- A call that begins on twins makes the same first request, whatever their catalogs. -/
theorem Resolver.Twin.begins (twin : r.Twin more known s) (moment : Nat) (call : Call) :
    Phase.Paired more known ((call.program r).advance moment r).1
        ((call.program r).advance moment r).2 ((call.program s).advance moment s).1
        ((call.program s).advance moment s).2 ∧
      (r.catalog = s.catalog → ((call.program r).advance moment r).2.catalog =
        ((call.program s).advance moment s).2.catalog) := by
  have same : call.program r = call.program s := by
    rw [twin.carried, Resolver.program_carry]
  rw [same]
  exact ((call.program_heeds s).mono False.elim).advance_synced twin moment id

/-- A listing that reaches its resolver. -/
def Flight.Lists (f : Flight) : Prop :=
  ∃ given, f.answer = some given ∧ f.request.lists False given

namespace Phase

variable {P Q : Phase α}

theorem Heeds.launch {listed : Prop} (heeds : Q.Heeds known listed) (moment : Nat) (r : Resolver) :
    (Q.launch moment r).Heeds known listed := by
  unfold Phase.launch
  split
  · split <;> exact heeds
  · exact heeds

namespace Paired

theorem launch (paired : Paired more known P r Q s) (moment : Nat) :
    Paired more known (P.launch moment r) r (Q.launch moment s) s := by
  obtain ⟨phases, twin, heeds⟩ := paired
  refine ⟨?_, twin, heeds.launch moment s⟩
  cases phases with
  | finished a => exact .finished a
  | asking since answer next timed => exact .asking since answer next timed
  | loading waiting flying loads next =>
    cases waiting with
    | nil => exact .loading [] flying loads next
    | cons role waiting =>
      simp only [Phase.launch, List.length_map, twin.epochs]
      split
      · have launched : Phase.Twin more.epochs _ _ :=
          .loading waiting (flying ++ [⟨role, s.epochs, moment, none⟩]) loads next
        rw [List.map_append] at launched
        exact launched
      · exact .loading (role :: waiting) flying loads next

theorem serve (paired : Paired more known P r Q s) {d : Directory} (records : d.Records known)
    (index : Nat) :
    Paired more known (P.serve index d).1 r (Q.serve index d).1 s ∧
      (P.serve index d).2 = (Q.serve index d).2 := by
  obtain ⟨phases, twin, heeds⟩ := paired
  cases phases with
  | finished a => exact ⟨⟨.finished a, twin, heeds⟩, rfl⟩
  | @asking request asked askedToo since answer next timed =>
    match index, answer with
    | 0, none =>
      have covers : ∀ given, some (d.serve request).1 = some given →
          request.Covers known given := by
        intro given told
        cases told
        exact request.covers_serve records
      exact ⟨⟨.asking since (some _) next timed, twin, heeds.1, covers⟩, rfl⟩
    | 0, some _ | _ + 1, _ => exact ⟨⟨.asking since _ next timed, twin, heeds⟩, rfl⟩
  | loading waiting flying loads next =>
    simp only [Phase.serve, List.getElem?_map]
    cases found : flying[index]? with
    | none => exact ⟨⟨.loading waiting flying loads next, twin, heeds⟩, rfl⟩
    | some f =>
      simp only [Option.map_some, RoleFlight.carry]
      cases answered : f.answer with
      | some _ => exact ⟨⟨.loading waiting flying loads next, twin, heeds⟩, rfl⟩
      | none =>
        have served : Phase.Twin more.epochs _ _ := .loading waiting
          (flying.set index { f with answer := some (d.serve (.loadRole f.role)).1 }) loads next
        rw [List.map_set] at served
        exact ⟨⟨served, twin, heeds⟩, rfl⟩

theorem resume_loading (twin : r.Twin more known s) (waiting : List RoleId)
    (flying : List RoleFlight) (loads : List RoleLoad) {next : List RoleLoad → Program α}
    (heeds : ∀ loads, (next loads).Heeds False) (moment index : Nat) :
    let P : Phase α := .loading waiting (flying.map (·.carry more.epochs)) loads next
    let Q : Phase α := .loading waiting flying loads next
    Paired more known (P.resume moment index r).1 (P.resume moment index r).2
        (Q.resume moment index s).1 (Q.resume moment index s).2 ∧
      (r.catalog = s.catalog →
        (P.resume moment index r).2.catalog = (Q.resume moment index s).2.catalog) := by
  simp only [Phase.resume, List.getElem?_map, List.eraseIdx_map, List.map_eq_nil_iff]
  cases found : flying[index]? with
  | none => exact ⟨⟨.loading waiting flying loads next, twin, heeds⟩, id⟩
  | some f =>
    simp only [Option.map_some, RoleFlight.carry]
    cases answered : f.answer with
    | none => exact ⟨⟨.loading waiting flying loads next, twin, heeds⟩, id⟩
    | some given =>
      have timed : ∀ k : Key, Request.loadRole f.role = k.load →
          f.asked + more.epochs = f.asked + more.epochs := fun _ _ => rfl
      have covers : (Request.loadRole f.role).Covers known given := trivial
      have creates : ∀ name, Request.loadRole f.role = .createPermission name →
          r.catalog = s.catalog := by
        intro name same
        cases same
      obtain ⟨absorbed, synced⟩ := twin.absorb timed covers creates
      dsimp only
      split
      · exact ((heeds _).mono False.elim).advance_synced absorbed moment fun same =>
          synced (.inl same)
      · refine ⟨⟨?_, absorbed, heeds⟩, fun same => synced (.inl same)⟩
        exact .loading waiting (flying.eraseIdx index) (loads ++ [(f.role, given)]) next

theorem resume (paired : Paired more known P r Q s) (moment index : Nat) :
    Paired more known (P.resume moment index r).1 (P.resume moment index r).2
        (Q.resume moment index s).1 (Q.resume moment index s).2 ∧
      ((r.catalog = s.catalog ∨ ∃ f, Q.flights[index]? = some f ∧ f.Lists) →
        (P.resume moment index r).2.catalog = (Q.resume moment index s).2.catalog) := by
  obtain ⟨phases, twin, heeds⟩ := paired
  cases phases with
  | finished a =>
    refine ⟨⟨.finished a, twin, heeds⟩, (·.resolve_right ?_)⟩
    intro listing
    obtain ⟨_, there, _⟩ := listing
    cases there
  | @asking request asked askedToo since answer next timed =>
    match index, answer with
    | 0, some given =>
      obtain ⟨absorbed, synced⟩ := twin.absorb timed (heeds.2 given rfl) heeds.1.1
      have rest := (heeds.1.2 given).mono fun lists => synced (.inr lists)
      refine rest.advance_synced absorbed moment fun sooner => synced (sooner.imp id ?_)
      intro listing
      obtain ⟨_, there, _, told, lists⟩ := listing
      cases there
      cases told
      exact Request.lists_mono False.elim lists
    | 0, none =>
      refine ⟨⟨.asking since none next timed, twin, heeds⟩, (·.resolve_right ?_)⟩
      intro listing
      obtain ⟨_, there, _, told, _⟩ := listing
      cases there
      cases told
    | _ + 1, _ =>
      refine ⟨⟨.asking since _ next timed, twin, heeds⟩, (·.resolve_right ?_)⟩
      intro listing
      obtain ⟨_, there, _⟩ := listing
      cases there
  | loading waiting flying loads next =>
    obtain ⟨resumed, synced⟩ := resume_loading twin waiting flying loads heeds moment index
    refine ⟨resumed, fun sooner => synced (sooner.resolve_right ?_)⟩
    -- A load never lists the permissions.
    intro listing
    obtain ⟨f, there, given, _, lists⟩ := listing
    obtain ⟨load, _, rfl⟩ := List.mem_map.1 (List.mem_of_getElem? there)
    exact lists

theorem turn {s t : System} (paired : Paired more known P s.resolver Q t.resolver)
    (same : s.directory = t.directory) (records : t.directory.Records known) (moment : Nat)
    (turn : Turn) :
    Paired more known (P.turn moment s turn).1 (P.turn moment s turn).2.resolver
        (Q.turn moment t turn).1 (Q.turn moment t turn).2.resolver ∧
      (P.turn moment s turn).2.directory = (Q.turn moment t turn).2.directory ∧
      ((s.resolver.catalog = t.resolver.catalog ∨
          ∃ index f, turn = .resume index ∧ Q.flights[index]? = some f ∧ f.Lists) →
        (P.turn moment s turn).2.resolver.catalog = (Q.turn moment t turn).2.resolver.catalog) := by
  cases turn with
  | launch =>
    refine ⟨paired.launch moment, same, (·.resolve_right ?_)⟩
    intro listing
    obtain ⟨_, _, other, _⟩ := listing
    cases other
  | serve index =>
    have served := paired.serve records index
    rw [← same] at served
    simp only [Phase.turn, ← same]
    refine ⟨served.1, served.2, (·.resolve_right ?_)⟩
    intro listing
    obtain ⟨_, _, other, _⟩ := listing
    cases other
  | resume index =>
    obtain ⟨resumed, synced⟩ := paired.resume moment index
    refine ⟨resumed, same, fun sooner => synced (sooner.imp id ?_)⟩
    intro listing
    obtain ⟨_, f, same, flying, lists⟩ := listing
    cases same
    exact ⟨f, flying, lists⟩

end Paired

end Phase

end

end Authorization
