import Authorization.Proofs.Catalog.Growth
import Authorization.Proofs.Queries.Call

namespace Authorization

/-- What some work has brought about: how many permissions it created, which names it is sure to
find in the catalog of its resolver, and which names the directory refused to create for it. -/
structure Progress where
  created : Nat
  known : List String
  refused : List String

namespace Progress

def start : Progress := ⟨0, [], []⟩

def Finds (p : Progress) : (a : Act) → a.Answer → Prop
  | .knowsPermission name, found => name ∈ p.known → found = true
  | _, _ => True

def find (p : Progress) : (a : Act) → a.Answer → Progress
  | .knowsPermission name, true => { p with known := name :: p.known }
  | _, _ => p

/-- What may be answered, where it is sure that the directory stays available and rejects none of
some names: a listing then has every one of them whose creation was refused. -/
def Hears (sure : Prop) (names : List String) (p : Progress) :
    (request : Request) → Except Error request.Answer → Prop
  | .listPermissions, given =>
    sure → ∃ records, given = .ok records ∧
      ∀ name ∈ p.refused, name ∈ names → name ∈ records.map (·.name)
  | .listRoles, given => sure → ∃ roles, given = .ok roles
  | _, _ => True

/-- The progress made when the directory answers a request. -/
def served (p : Progress) : (request : Request) → Except Error request.Answer → Progress
  | .createPermission _, .ok _ => { p with created := p.created + 1 }
  | .createPermission name, .error _ => { p with refused := name :: p.refused }
  | _, _ => p

/-- The progress made when the answer reaches the resolver. -/
def received (p : Progress) (request : Request) (given : Except Error request.Answer) : Progress :=
  { p with known := (request.records given).map (·.name) ++ p.known }

/-- A permission is created, or found, under each of some names, and the creations are counted. -/
structure Ensured (p : Progress) (names : List String) (created : Nat) : Prop where
  created : p.created = created
  known : ∀ name ∈ names, name ∈ p.known

end Progress

variable {α β : Type} {sure : Prop} {names : List String}

/-- Wherever some work ends, what it has brought about is as required. -/
def Program.Tracks (sure : Prop) (names : List String) (post : Progress → α → Prop) :
    Program α → Progress → Prop
  | .done a, p => post p a
  | .act a next, p => ∀ found, p.Finds a found →
    (next found).Tracks sure names post (p.find a found)
  | .ask request next, p => ∀ given, p.Hears sure names request given →
    (next given).Tracks sure names post ((p.served request given).received request given)
  | .loadRoles _ next, p => ∀ loads, (next loads).Tracks sure names post p

theorem Program.Tracks.bind {program : Program α} {f : α → Program β} {p : Progress}
    {middle : Progress → α → Prop} {post : Progress → β → Prop}
    (first : program.Tracks sure names middle p)
    (rest : ∀ q a, middle q a → (f a).Tracks sure names post q) :
    (program >>= f).Tracks sure names post p := by
  induction program generalizing p with
  | done a => exact rest p a first
  | act a next ih => exact fun found known => ih found (first found known)
  | ask request next ih => exact fun given heard => ih given (first given heard)
  | loadRoles roles next ih => exact fun loads => ih loads (first loads)

theorem Program.Tracks.mono {program : Program α} {p : Progress} {post weaker : Progress → α → Prop}
    (tracks : program.Tracks sure names post p) (weaken : ∀ q a, post q a → weaker q a) :
    program.Tracks sure names weaker p := by
  induction program generalizing p with
  | done a => exact weaken p a tracks
  | act a next ih => exact fun found known => ih found (tracks found known)
  | ask request next ih => exact fun given heard => ih given (tracks given heard)
  | loadRoles roles next ih => exact fun loads => ih loads (tracks loads)

namespace Query

/-- Work that fails only where the directory is not sure to be of use. -/
def Tracks (sure : Prop) (names : List String) (post : Progress → α → Prop) (q : Query α)
    (p : Progress) : Prop :=
  q.run.Tracks sure names (fun p outcome =>
    match outcome with
    | .ok a => post p a
    | .error _ => ¬ sure) p

theorem Tracks.bind {q : Query α} {f : α → Query β} {p : Progress} {middle : Progress → α → Prop}
    {post : Progress → β → Prop} (first : q.Tracks sure names middle p)
    (rest : ∀ p a, middle p a → (f a).Tracks sure names post p) :
    (q >>= f).Tracks sure names post p := by
  apply Program.Tracks.bind first
  intro p outcome holds
  cases outcome with
  | ok a => exact rest p a holds
  | error _ => exact holds

theorem Tracks.mono {q : Query α} {p : Progress} {post weaker : Progress → α → Prop}
    (tracks : q.Tracks sure names post p) (weaken : ∀ p a, post p a → weaker p a) :
    q.Tracks sure names weaker p :=
  Program.Tracks.mono tracks fun p outcome holds => by
    cases outcome with
    | ok a => exact weaken p a holds
    | error _ => exact holds

theorem tracks_lift {program : Program α} {p : Progress} {post : Progress → α → Prop}
    (tracks : program.Tracks sure names post p) :
    Query.Tracks sure names post (ExceptT.lift program) p := by
  show Program.Tracks sure names _ (program >>= fun a => pure (Except.ok a)) p
  exact tracks.bind fun _ _ holds => holds

theorem createdElsewhere_tracks {name : String} {p : Progress} (wanted : name ∈ names)
    (refused : name ∈ p.refused) :
    (createdElsewhere name).Tracks sure names (fun q there =>
      q.created = p.created ∧ (∀ x ∈ p.known, x ∈ q.known) ∧
        if there then name ∈ q.known else ¬ sure) p := by
  intro given heard
  cases given with
  | error _ =>
    refine ⟨rfl, fun _ member => member, fun certain => ?_⟩
    obtain ⟨_, failed, _⟩ := heard certain
    cases failed
  | ok records =>
    intro found finds
    cases found with
    | true => exact ⟨rfl, fun _ member => List.mem_cons_of_mem _ (List.mem_append_right _ member),
        List.mem_cons_self⟩
    | false =>
      refine ⟨rfl, fun _ member => List.mem_append_right _ member, fun certain => ?_⟩
      obtain ⟨_, listed, complete⟩ := heard certain
      cases listed
      cases finds (List.mem_append_left _ (complete name refused wanted))

theorem createMissing_tracks {todo : List String} (wanted : ∀ name ∈ todo, name ∈ names)
    {created : Nat} {p : Progress} (counted : p.created = created) :
    (createMissing created todo).Tracks sure names (fun q total =>
      q.Ensured todo total ∧ ∀ x ∈ p.known, x ∈ q.known) p := by
  -- by induction on the names to do: what is known never shrinks, so a settled name stays settled
  induction todo generalizing created p with
  | nil => exact ⟨⟨counted, List.forall_mem_nil _⟩, fun _ member => member⟩
  | cons name todo ih =>
    obtain ⟨asked, others⟩ := List.forall_mem_cons.1 wanted
    have settled {q : Progress} {so : Nat} (counted : q.created = so) (here : name ∈ q.known)
        (kept : ∀ x ∈ p.known, x ∈ q.known) :
        (createMissing so todo).Tracks sure names (fun q total =>
          q.Ensured (name :: todo) total ∧ ∀ x ∈ p.known, x ∈ q.known) q := by
      apply (ih others counted).mono
      rintro after total ⟨ensured, later⟩
      exact ⟨⟨ensured.created, List.forall_mem_cons.2 ⟨later name here, ensured.known⟩⟩,
        fun x member => later x (kept x member)⟩
    intro known finds
    cases known with
    | true => exact settled counted List.mem_cons_self fun _ member => List.mem_cons_of_mem _ member
    | false =>
      intro outcome _
      cases outcome with
      | ok id =>
        exact settled (congrArg (· + 1) counted) List.mem_cons_self
          fun _ member => List.mem_cons_of_mem _ member
      | error failure =>
        -- the name may have been created elsewhere after it was looked for
        apply (tracks_lift (createdElsewhere_tracks asked List.mem_cons_self)).bind
        rintro q there ⟨same, kept, outcome⟩
        cases there with
        | true => exact settled (same.trans counted) outcome kept
        | false => exact outcome

theorem ensurePermissions_tracks (names : List String) :
    (ensurePermissions names).Tracks sure names (fun q created => q.Ensured names created)
      .start := by
  intro given heard
  cases given with
  | ok records =>
    have tracks (p : Progress) (none : p.created = 0) :
        (createMissing 0 names).Tracks sure names (fun q created =>
          q.Ensured names created ∧ ∀ x ∈ p.known, x ∈ q.known) p :=
      createMissing_tracks (fun _ member => member) none
    exact (tracks _ rfl).mono fun _ _ => And.left
  | error _ =>
    intro certain
    obtain ⟨_, failed, _⟩ := heard certain
    cases failed

theorem warmRoles_tracks (projection : Option Projection) {created : Nat} {p : Progress}
    (ensured : p.Ensured names created) :
    (warmRoles projection created).Tracks sure names (fun q report =>
      q.Ensured names report.permissionsCreated) p := by
  cases projection with
  | none => exact fun _ _ => ensured
  | some source =>
    cases source with
    | fixed roles => exact fun loads _ _ => ensured
    | directory =>
      intro given heard
      cases given with
      | ok roles => exact fun loads _ _ => ensured
      | error _ =>
        intro certain
        obtain ⟨_, failed⟩ := heard certain
        cases failed

theorem Tracks.some {q : Query α} {p : Progress} {post : Progress → α → Prop}
    (tracks : q.Tracks sure names post p) :
    Query.Tracks sure names (fun p found => ∃ a, found = some a ∧ post p a)
      (do return some (← q)) p :=
  tracks.bind fun _ a holds => ⟨a, rfl, holds⟩

end Query

namespace Call

def count? : (call : Call) → call.Answer → Option Nat
  | ensurePermissions _, .ok created => some created
  | warmup _, .ok report => some report.permissionsCreated
  | warmupFromConfig, .ok (some report) => some report.permissionsCreated
  | _, _ => none

/-- The names that a call makes sure of, and what it goes on with after that. -/
inductive Ensures (r : Resolver) :
    (call : Call) → List String → (Nat → Program call.Answer) → Prop where
  | ensurePermissions (names : List String) :
    Ensures r (.ensurePermissions names) names fun created => pure (.ok created)
  | warmup (names : List String) :
    Ensures r (.warmup names) names fun created => (Query.warmRoles r.projection created).run
  | warmupFromConfig (on : r.config.warmupOnStart = true) :
    Ensures r .warmupFromConfig r.config.knownPermissions fun created =>
      ExceptT.run do return some (← Query.warmRoles r.projection created)

/-- A call has an answer with the right count, or the directory was not sure to be of use. -/
def Accounts (sure : Prop) (names : List String) (call : Call) (p : Progress)
    (answer : call.Answer) : Prop :=
  match call.count? answer with
  | some created => p.Ensured names created
  | none => ¬ sure

variable {r : Resolver} {call : Call} {rest : Nat → Program call.Answer}

theorem Ensures.rest_tracks (ensures : call.Ensures r names rest) {p : Progress} {created : Nat}
    (ensured : p.Ensured names created) :
    (rest created).Tracks sure names (call.Accounts sure names) p := by
  cases ensures with
  | ensurePermissions names => exact ensured
  | warmup names =>
    apply Program.Tracks.mono (Query.warmRoles_tracks r.projection ensured)
    intro q outcome holds
    cases outcome <;> exact holds
  | warmupFromConfig on =>
    apply Program.Tracks.mono (Query.warmRoles_tracks r.projection ensured).some
    intro q outcome holds
    cases outcome with
    | ok report =>
      obtain ⟨_, rfl, counted⟩ := holds
      exact counted
    | error _ => exact holds

theorem Ensures.program_tracks (ensures : call.Ensures r names rest) :
    (call.program r).Tracks sure names (call.Accounts sure names) .start := by
  have first : (Query.ensurePermissions names).Tracks sure names
      (fun q created => q.Ensured names created) .start := Query.ensurePermissions_tracks names
  cases ensures with
  | ensurePermissions names =>
    apply Program.Tracks.mono first
    intro q outcome holds
    cases outcome <;> exact holds
  | warmup names =>
    apply Program.Tracks.bind first
    intro q outcome holds
    cases outcome with
    | ok created => exact (Ensures.warmup names).rest_tracks holds
    | error _ => exact holds
  | warmupFromConfig on =>
    simp only [program, Resolver.warmupFromConfig, if_pos on, Resolver.warmup, Query.warmup,
      bind_assoc]
    apply Program.Tracks.bind first
    intro q outcome holds
    cases outcome with
    | ok created => exact (Ensures.warmupFromConfig on).rest_tracks holds
    | error _ => exact holds

end Call

end Authorization
