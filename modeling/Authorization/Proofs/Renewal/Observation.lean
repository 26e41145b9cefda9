import Authorization.Proofs.Renewal.Run

namespace Authorization

namespace Flight

/-- The request of a flight that has not been served yet. -/
def pending? (f : Flight) : Option Request := if f.answer.isNone then some f.request else none

theorem pending?_unserved {f : Flight} (unserved : f.answer = none) :
    f.pending? = some f.request := by
  rw [pending?, unserved]
  rfl

theorem pending?_served {f : Flight} {given : Except Error f.request.Answer}
    (served : f.answer = some given) : f.pending? = none := by
  rw [pending?, served]
  rfl

end Flight

namespace Phase

variable {α : Type}

def answer? : Phase α → Option α
  | finished a => some a
  | _ => none

theorem serve_directory (phase : Phase α) (index : Nat) (d : Directory) : (phase.serve index d).2 =
    (phase.flights[index]?.bind Flight.pending?).elim d fun request => (d.serve request).2 := by
  cases phase with
  | finished a => rfl
  | asking flight next =>
    cases index with
    | succ _ => rfl
    | zero =>
      simp only [serve, flights, List.getElem?_cons_zero, Option.bind_some]
      cases answered : flight.answer with
      | none =>
        rw [Flight.pending?_unserved answered]
        rfl
      | some _ =>
        rw [Flight.pending?_served answered]
        rfl
  | loading waiting flying loads next =>
    simp only [serve, flights, List.getElem?_map]
    cases found : flying[index]? with
    | none => rfl
    | some f =>
      simp only [Option.map_some, Option.bind_some]
      cases answered : f.answer with
      | none =>
        have pending : f.flight.pending? = some (.loadRole f.role) :=
          Flight.pending?_unserved answered
        rw [pending, Option.elim_some]
      | some _ =>
        have pending : f.flight.pending? = none := Flight.pending?_served answered
        rw [pending, Option.elim_none]

end Phase

/-- What can be seen of a call: its requests with what was answered to them so far, and its own
answer once there is one. -/
structure Seen (ι : Type) where
  home : ι
  call : Call
  requests : List ((request : Request) × Option (Except Error request.Answer))
  answer : Option call.Answer

variable {ι : Type}

def Flight.seen (f : Flight) : (request : Request) × Option (Except Error request.Answer) :=
  ⟨f.request, f.answer⟩

def Task.seen (task : Task ι) : Seen ι :=
  ⟨task.home, task.call, task.phase.flights.map Flight.seen, task.phase.answer?⟩

theorem Phase.Twin.flights {α : Type} {more : Epochs} {P Q : Phase α} (twin : P.Twin more Q) :
    P.flights.map Flight.seen = Q.flights.map Flight.seen := by
  cases twin with
  | finished a => rfl
  | asking since answer next timed => rfl
  | loading waiting flying loads next =>
    simp only [Phase.flights, List.map_map]
    rfl

theorem Phase.Twin.answer? {α : Type} {more : Epochs} {P Q : Phase α} (twin : P.Twin more Q) :
    P.answer? = Q.answer? := by
  cases twin <;> rfl

theorem Task.Twin.seen {i : ι} {more : Epochs} {t u : Task ι} (twin : t.Twin i more u) :
    t.seen = u.seen := by
  cases twin with
  | here phases => rw [Task.seen, Task.seen, phases.flights, phases.answer?]
  | elsewhere other => rfl

theorem Task.map_seen {i : ι} {more : Epochs} {ts us : List (Task ι)}
    (twins : List.Forall₂ (Task.Twin i more) ts us) : ts.map Task.seen = us.map Task.seen := by
  induction twins with
  | nil => rfl
  | cons first rest ih => rw [List.map_cons, List.map_cons, first.seen, ih]

namespace World

/-- The request that a move puts to the directory. -/
def request? (w : World ι) : Move ι → Option Request
  | .turn position (.serve index) =>
    w.tasks[position]?.bind fun task => task.phase.flights[index]?.bind Flight.pending?
  | .upkeep (.request request) => some request
  | _ => none

theorem Twin.request? {i : ι} {more : Carried} {known : Table String PermissionId}
    {live : Nat → Prop} {a b : World ι} (twin : Twin i more known live a b) (move : Move ι) :
    a.request? move = b.request? move := by
  match move with
  | .turn position (.serve index) =>
    simp only [World.request?]
    rcases forall₂_getElem? twin.tasks position with ⟨left, right⟩ | ⟨t, u, left, right, related⟩
    · rw [left, right]
    · have flights := congrArg (fun seen => seen.requests[index]?) related.seen
      simp only [Task.seen, List.getElem?_map] at flights
      rw [left, right, Option.bind_some, Option.bind_some]
      have pending := congrArg (Option.bind · fun seen : (request : Request) × Option
        (Except Error request.Answer) => if seen.2.isNone then some seen.1 else none) flights
      simp only [Option.bind_map] at pending
      exact pending
  | .upkeep (.request _) => rfl
  | .upkeep (.insertUser _) | .upkeep (.insertRole _) | .upkeep (.setAvailable _)
  | .upkeep (.failRole _) | .upkeep (.rejectName _) => rfl
  | .turn _ .launch | .turn _ (.resume _) | .call _ _ | .invalidate _ _ | .pause => rfl

/-- A move that is no direct change of the directory changes it as the request does that it puts to
the directory. -/
theorem step_directory [DecidableEq ι] (w : World ι) (n : Nat) {move : Move ι}
    (indirect : ∀ change, move ≠ .upkeep change) : (w.step n move).directory =
      (w.request? move).elim w.directory fun request => (w.directory.serve request).2 := by
  match move with
  | .upkeep change => exact absurd rfl (indirect change)
  | .turn position turn =>
    cases found : w.tasks[position]? with
    | none =>
      rw [step_turn_missing found]
      cases turn with
      | serve index =>
        rw [World.request?, found]
        rfl
      | _ => rfl
    | some task =>
      rw [step_turn found]
      cases turn with
      | serve index =>
        rw [World.request?, found]
        exact task.phase.serve_directory index w.directory
      | _ => rfl
  | .call _ _ | .invalidate _ _ | .pause => rfl

end World

end Authorization
