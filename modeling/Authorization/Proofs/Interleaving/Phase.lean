import Authorization.Proofs.Snapshots.Flight
import Mathlib.Data.List.InsertIdx

namespace Authorization

structure RoleFlight where
  role : RoleId
  asked : Epochs
  since : Nat
  answer : Option (Except Error Role)

def RoleFlight.flight (f : RoleFlight) : Flight := ⟨.loadRole f.role, f.asked, f.since, f.answer⟩

theorem RoleFlight.map_flight_getElem? {flying : List RoleFlight} {index : Nat} {f : RoleFlight}
    (found : flying[index]? = some f) : (flying.map flight)[index]? = some f.flight := by
  rw [List.getElem?_map, found, Option.map_some]

/-- How far some work has come: it has ended, it waits for one answer, or it loads many roles, of
which some have not been asked for, some are under way and some have their outcome. -/
inductive Phase (α : Type) where
  | finished (a : α)
  | asking (flight : Flight) (next : Except Error flight.request.Answer → Program α)
  | loading (waiting : List RoleId) (flying : List RoleFlight) (loads : List RoleLoad)
      (next : List RoleLoad → Program α)

namespace Phase

variable {α : Type}

def flights : Phase α → List Flight
  | finished _ => []
  | asking flight _ => [flight]
  | loading _ flying _ _ => flying.map RoleFlight.flight

end Phase

def warmupLoads : Nat := 16

/-- Goes on with some work, without interruption, to its next request. The request carries the
moment at which it is made. -/
def Program.advance {α : Type} (moment : Nat) : Program α → Resolver → Phase α × Resolver
  | .done a, r => (.finished a, r)
  | .act a next, r => (next (r.perform a).1).advance moment (r.perform a).2
  | .ask request next, r => (.asking ⟨request, r.epochs, moment, none⟩ next, r)
  | .loadRoles [] next, r => (next []).advance moment r
  | .loadRoles (role :: roles) next, r => (.loading (role :: roles) [] [] next, r)

/-- A move of some work: it asks for the next role of a warmup, the directory serves one of its
requests, or one of the answers reaches the resolver. -/
inductive Turn where
  | launch
  | serve (index : Nat)
  | resume (index : Nat)
  deriving DecidableEq

namespace Phase

variable {α : Type}

def launch (moment : Nat) : Phase α → Resolver → Phase α
  | loading (role :: waiting) flying loads next, r =>
    if flying.length < warmupLoads then
      loading waiting (flying ++ [⟨role, r.epochs, moment, none⟩]) loads next
    else loading (role :: waiting) flying loads next
  | phase, _ => phase

def serve (index : Nat) : Phase α → Directory → Phase α × Directory
  | finished a, d => (finished a, d)
  | asking flight next, d =>
    match index, flight.answer with
    | 0, none =>
      let served := d.serve flight.request
      (asking (flight.answered served.1) next, served.2)
    | _, _ => (asking flight next, d)
  | loading waiting flying loads next, d =>
    match flying[index]? with
    | none => (loading waiting flying loads next, d)
    | some f =>
      match f.answer with
      | none =>
        let served := d.serve (.loadRole f.role)
        (loading waiting (flying.set index { f with answer := some served.1 }) loads next, served.2)
      | some _ => (loading waiting flying loads next, d)

/-- Lets an answer reach the resolver, which goes on with the work if that was all it waited for. -/
def resume (moment index : Nat) : Phase α → Resolver → Phase α × Resolver
  | finished a, r => (finished a, r)
  | asking flight next, r =>
    match index, flight.answer with
    | 0, some answer => (next answer).advance moment (r.absorb flight.asked flight.request answer)
    | _, _ => (asking flight next, r)
  | loading waiting flying loads next, r =>
    match flying[index]? with
    | none => (loading waiting flying loads next, r)
    | some f =>
      match f.answer with
      | none => (loading waiting flying loads next, r)
      | some answer =>
        let r := r.absorb f.asked (.loadRole f.role) answer
        let loads := loads ++ [(f.role, answer)]
        if waiting = [] ∧ flying.eraseIdx index = [] then (next loads).advance moment r
        else (loading waiting (flying.eraseIdx index) loads next, r)

/-- Takes a turn that ends at the given moment. A turn that is not due changes nothing. -/
def turn (moment : Nat) (phase : Phase α) (s : System) : Turn → Phase α × System
  | .launch => (phase.launch moment s.resolver, s)
  | .serve index =>
    ((phase.serve index s.directory).1,
      { s with directory := (phase.serve index s.directory).2 })
  | .resume index =>
    ((phase.resume moment index s.resolver).1,
      { s with resolver := (phase.resume moment index s.resolver).2 })

end Phase

structure Flight.Starts (f : Flight) (moment : Nat) (r : Resolver) : Prop where
  since : f.since = moment
  asked : f.asked = r.epochs
  answer : f.answer = none

/-- Going on with some work changes no entry and no epoch, and at most starts a request. -/
theorem Program.advance_starts {α : Type} (p : Program α) (moment : Nat) (r : Resolver) :
    (p.advance moment r).2.Agrees r ∧
      ∀ f ∈ (p.advance moment r).1.flights, f.Starts moment (p.advance moment r).2 := by
  induction p generalizing r with
  | done _ => exact ⟨.refl r, fun _ member => by cases member⟩
  | act a next ih =>
    have rest := ih (r.perform a).1 (r.perform a).2
    exact ⟨rest.1.trans (r.perform_agrees a), rest.2⟩
  | ask request next _ =>
    refine ⟨.refl r, fun f member => ?_⟩
    obtain rfl := List.mem_singleton.1 member
    exact ⟨rfl, rfl, rfl⟩
  | loadRoles roles next ih =>
    cases roles with
    | nil => exact ih [] r
    | cons role roles => exact ⟨.refl r, fun _ member => by cases member⟩

/-- What a turn that ends at a moment does to the flights of some work and to its system. -/
inductive Turned (moment : Nat) (turn : Turn) (flights : List Flight) (s : System) :
    List Flight → System → Prop where
  | idle (unserved : ∀ index f, turn = .resume index → flights[index]? = some f → f.answer = none) :
    Turned moment turn flights s flights s
  | launched {f : Flight} (launch : turn = .launch) (starts : f.Starts moment s.resolver) :
    Turned moment turn flights s (flights ++ [f]) s
  | served {index : Nat} {f : Flight} (serve : turn = .serve index)
    (flying : flights[index]? = some f) (unserved : f.answer = none) :
    Turned moment turn flights s
      (flights.set index (f.answered (s.directory.serve f.request).1))
      { s with directory := (s.directory.serve f.request).2 }
  | resumed {index : Nat} {f : Flight} {r : Resolver} {started : List Flight}
    (resume : turn = .resume index) (flying : flights[index]? = some f)
    (served : f.answer ≠ none) (same : r.Agrees (s.resolver.receive f))
    (starts : ∀ g ∈ started, g.Starts moment r) :
    Turned moment turn flights s (flights.eraseIdx index ++ started) { s with resolver := r }

namespace Turned

variable {moment : Nat} {turn : Turn} {flights later : List Flight} {s after : System}

theorem mem (effect : Turned moment turn flights s later after) {f : Flight}
    (flying : f ∈ later) :
    f ∈ flights ∨ f.Starts moment after.resolver ∨
      ∃ g ∈ flights, f = g.answered (s.directory.serve g.request).1 ∧
        after.directory = (s.directory.serve g.request).2 := by
  cases effect with
  | idle _ => exact .inl flying
  | launched _ starts =>
    rcases List.mem_append.1 flying with old | new
    · exact .inl old
    · obtain rfl := List.mem_singleton.1 new
      exact .inr (.inl starts)
  | served _ found _ =>
    rcases List.mem_or_eq_of_mem_set flying with old | rfl
    · exact .inl old
    · exact .inr (.inr ⟨_, List.mem_of_getElem? found, rfl, rfl⟩)
  | resumed _ _ _ _ starts =>
    rcases List.mem_append.1 flying with old | new
    · exact .inl (List.mem_of_mem_eraseIdx old)
    · exact .inr (.inl (starts f new))

theorem resolver (effect : Turned moment turn flights s later after) :
    (after.resolver.Agrees s.resolver ∧
      ∀ index f, turn = .resume index → flights[index]? = some f → f.answer = none) ∨
    ∃ index f, turn = .resume index ∧ flights[index]? = some f ∧
      after.resolver.Agrees (s.resolver.receive f) := by
  cases effect with
  | idle unserved => exact .inl ⟨.refl _, unserved⟩
  | launched launch _ =>
    subst launch
    exact .inl ⟨.refl _, fun _ _ resume => by cases resume⟩
  | served serve _ _ =>
    subst serve
    exact .inl ⟨.refl _, fun _ _ resume => by cases resume⟩
  | resumed resume found _ same _ => exact .inr ⟨_, _, resume, found, same⟩

theorem directory (effect : Turned moment turn flights s later after) :
    after.directory = s.directory ∨
    ∃ f : Flight, after.directory = (s.directory.serve f.request).2 ∧
      f.answered (s.directory.serve f.request).1 ∈ later := by
  cases effect with
  | idle _ => exact .inl rfl
  | launched _ _ => exact .inl rfl
  | @served index f _ found _ =>
    have bound : index < flights.length := (List.getElem?_eq_some_iff.1 found).1
    exact .inr ⟨f, rfl, List.mem_set bound _⟩
  | resumed _ _ _ _ _ => exact .inl rfl

end Turned

namespace Phase

variable {α : Type}

theorem launch_turned (moment : Nat) (phase : Phase α) (s : System) :
    Turned moment .launch phase.flights s (phase.launch moment s.resolver).flights s := by
  have idle : Turned moment .launch phase.flights s phase.flights s :=
    .idle fun _ _ resume => by cases resume
  cases phase with
  | finished a => exact idle
  | asking flight next => exact idle
  | loading waiting flying loads next =>
    cases waiting with
    | nil => exact idle
    | cons role waiting =>
      simp only [launch]
      split
      · simp only [flights, List.map_append]
        exact .launched rfl ⟨rfl, rfl, rfl⟩
      · exact idle

theorem serve_turned (moment index : Nat) (phase : Phase α) (s : System) :
    Turned moment (.serve index) phase.flights s (phase.serve index s.directory).1.flights
      { s with directory := (phase.serve index s.directory).2 } := by
  have idle : Turned moment (.serve index) phase.flights s phase.flights s :=
    .idle fun _ _ resume => by cases resume
  cases phase with
  | finished a => exact idle
  | asking flight next =>
    simp only [serve]
    split
    · rename_i unserved
      exact .served rfl rfl unserved
    · exact idle
  | loading waiting flying loads next =>
    simp only [serve]
    split
    · exact idle
    · rename_i f found
      have there := RoleFlight.map_flight_getElem? found
      split
      · rename_i unserved
        simp only [flights, List.map_set]
        exact .served rfl there unserved
      · exact idle

theorem resume_asking_turned (moment index : Nat) (flight : Flight)
    (next : Except Error flight.request.Answer → Program α) (s : System) :
    Turned moment (.resume index) [flight] s
      ((asking flight next).resume moment index s.resolver).1.flights
      { s with resolver := ((asking flight next).resume moment index s.resolver).2 } := by
  have idle (unserved : ∀ f, [flight][index]? = some f → f.answer = none) :
      Turned moment (.resume index) [flight] s [flight] s :=
    .idle fun _ f resume found => by cases resume; exact unserved f found
  cases index with
  | succ _ => exact idle fun _ found => by cases found
  | zero =>
    cases served : flight.answer with
    | none =>
      simp only [resume, served]
      apply idle
      intro f found
      cases found
      exact served
    | some answer =>
      have rest := (next answer).advance_starts moment
        (s.resolver.absorb flight.asked flight.request answer)
      have arrived : s.resolver.receive flight =
          s.resolver.absorb flight.asked flight.request answer := by
        rw [Resolver.receive, served]
      have answered : flight.answer ≠ none := by simp [served]
      simp only [resume, served]
      rw [← arrived] at rest ⊢
      exact .resumed rfl rfl answered rest.1 rest.2

theorem resume_loading_turned (moment index : Nat) (waiting : List RoleId)
    (flying : List RoleFlight) (loads : List RoleLoad) (next : List RoleLoad → Program α)
    (s : System) :
    Turned moment (.resume index) (flying.map RoleFlight.flight) s
      ((loading waiting flying loads next).resume moment index s.resolver).1.flights
      { s with resolver :=
          ((loading waiting flying loads next).resume moment index s.resolver).2 } := by
  have idle (unserved : ∀ f, (flying.map RoleFlight.flight)[index]? = some f → f.answer = none) :
      Turned moment (.resume index) (flying.map RoleFlight.flight) s
        (flying.map RoleFlight.flight) s :=
    .idle fun _ f resume found => by cases resume; exact unserved f found
  simp only [resume]
  split
  · rename_i missing
    apply idle
    intro f found
    rw [List.getElem?_map, missing] at found
    cases found
  · rename_i f found
    have there := RoleFlight.map_flight_getElem? found
    split
    · rename_i unserved
      apply idle
      intro g same
      obtain rfl := Option.some.inj (there.symm.trans same)
      exact unserved
    · rename_i answer served
      have arrived : s.resolver.receive f.flight =
          s.resolver.absorb f.asked (.loadRole f.role) answer := by
        rw [Resolver.receive, RoleFlight.flight, served]
      have answered : f.flight.answer ≠ none := by simp [RoleFlight.flight, served]
      rw [← arrived]
      split
      · rename_i last
        have rest := (next (loads ++ [(f.role, answer)])).advance_starts moment
          (s.resolver.receive f.flight)
        have result := Turned.resumed (s := s) rfl there answered rest.1 rest.2
        rw [List.eraseIdx_map, last.2] at result
        exact result
      · have result : Turned moment (.resume index) (flying.map RoleFlight.flight) s
            ((flying.map RoleFlight.flight).eraseIdx index ++ [])
            { s with resolver := s.resolver.receive f.flight } :=
          .resumed rfl there answered (.refl _) fun _ member => by cases member
        rw [List.append_nil, List.eraseIdx_map] at result
        exact result

theorem resume_turned (moment index : Nat) (phase : Phase α) (s : System) :
    Turned moment (.resume index) phase.flights s
      (phase.resume moment index s.resolver).1.flights
      { s with resolver := (phase.resume moment index s.resolver).2 } := by
  cases phase with
  | finished a => exact .idle fun _ _ _ found => by cases found
  | asking flight next => exact resume_asking_turned moment index flight next s
  | loading waiting flying loads next =>
    exact resume_loading_turned moment index waiting flying loads next s

theorem turn_turned (moment : Nat) (turn : Turn) (phase : Phase α) (s : System) :
    Turned moment turn phase.flights s (phase.turn moment s turn).1.flights
      (phase.turn moment s turn).2 := by
  cases turn with
  | launch => exact launch_turned moment phase s
  | serve index => exact serve_turned moment index phase s
  | resume index => exact resume_turned moment index phase s

end Phase

end Authorization
