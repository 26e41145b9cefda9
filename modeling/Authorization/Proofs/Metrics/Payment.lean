import Authorization.Proofs.Metrics.Settlement
import Authorization.Proofs.Renewal.Observation
import Mathlib.Algebra.BigOperators.Group.List.Basic

namespace Authorization

/-- What the directory has charged for a load of a role so far. -/
def RoleFlight.charged (f : RoleFlight) : Books :=
  f.answer.elim 0 (Request.loadRole f.role).charged

def RoleFlight.chargedAll (flying : List RoleFlight) : Books :=
  (flying.map RoleFlight.charged).sum

namespace RoleFlight

variable {flying : List RoleFlight} {index : Nat} {f : RoleFlight}

theorem chargedAll_cons (g : RoleFlight) (flying : List RoleFlight) :
    chargedAll (g :: flying) = g.charged + chargedAll flying := List.sum_cons

theorem chargedAll_concat (flying : List RoleFlight) (unserved : f.answer = none) :
    chargedAll (flying ++ [f]) = chargedAll flying := by
  have uncharged : f.charged = 0 := by rw [charged, unserved, Option.elim_none]
  rw [chargedAll, List.map_append, List.sum_append, List.map_singleton, List.sum_singleton,
    uncharged, add_zero, chargedAll]

theorem chargedAll_set (found : flying[index]? = some f) (unserved : f.answer = none)
    (given : Except Error Role) :
    chargedAll (flying.set index { f with answer := some given }) =
      chargedAll flying + (Request.loadRole f.role).charged given := by
  induction flying generalizing index with
  | nil => cases found
  | cons g flying ih =>
    cases index with
    | zero =>
      obtain rfl := Option.some.inj found
      have uncharged : g.charged = 0 := by rw [charged, unserved, Option.elim_none]
      rw [List.set_cons_zero, chargedAll_cons, chargedAll_cons, uncharged, zero_add, add_comm]
      rfl
    | succ index => rw [List.set_cons_succ, chargedAll_cons, ih found, chargedAll_cons, add_assoc]

theorem chargedAll_eraseIdx (found : flying[index]? = some f) :
    chargedAll (flying.eraseIdx index) + f.charged = chargedAll flying := by
  induction flying generalizing index with
  | nil => cases found
  | cons g flying ih =>
    cases index with
    | zero =>
      obtain rfl := Option.some.inj found
      rw [List.eraseIdx_cons_zero, chargedAll_cons, add_comm]
    | succ index =>
      rw [List.eraseIdx_cons_succ, chargedAll_cons, chargedAll_cons, add_assoc, ih found]

end RoleFlight

theorem loadsBooked_concat (loads : List RoleLoad) (role : RoleId) (given : Except Error Role) :
    loadsBooked (loads ++ [(role, given)]) =
      loadsBooked loads + (Request.loadRole role).booked given := by
  rw [loadsBooked, List.map_append, List.sum_append, List.map_singleton, List.sum_singleton,
    loadsBooked]

variable {α : Type} {post : Books → α → Prop} {b : Books}

/-- Wherever some work under way ends, the books are as required. -/
def Phase.Pays (post : Books → α → Prop) : Phase α → Books → Prop
  | finished a, b => post b a
  | asking flight next, b =>
    match flight.answer with
    | none => ∀ given, (next given).Pays post (b + flight.request.booked given)
    | some given => (next given).Pays post (b + flight.request.metered given)
  | loading _ flying loads next, b =>
    -- a load in flight has been charged if it was served, and is metered when it is taken in
    ∃ before, b = before + loadsBooked loads + RoleFlight.chargedAll flying ∧
      ∀ all, (next all).Pays post (before + loadsBooked all)

theorem Program.Pays.advance {program : Program α} (pays : program.Pays post b) (moment : Nat)
    (r : Resolver) : ∃ c, (program.advance moment r).1.Pays post (b + c) ∧
      r.Counts c (program.advance moment r).2 ∧ ∀ kind, c (.load kind) = 0 := by
  induction program generalizing b r with
  | done a => exact ⟨0, pays, .refl, fun _ => rfl⟩
  | act a next ih =>
    obtain ⟨c, rest, counts, unloaded⟩ := ih _ (pays (r.perform a).1) (r.perform a).2
    refine ⟨a.booked (r.perform a).1 + c, ?_, .trans (fun m => r.read_perform m a) counts,
      fun kind => ?_⟩
    · rw [← add_assoc]
      exact rest
    · rw [Pi.add_apply, a.booked_load, unloaded]
  | ask request next _ => exact ⟨0, pays, .refl, fun _ => rfl⟩
  | loadRoles roles next ih =>
    cases roles with
    | nil => exact ih [] (pays []) r
    | cons role roles => exact ⟨0, ⟨b, rfl, pays⟩, .refl, fun _ => rfl⟩

namespace Phase

/-- What a turn has the directory charge. -/
def charge (phase : Phase α) (d : Directory) : Turn → Books
  | .serve index => (phase.flights[index]?.bind Flight.pending?).elim 0 fun request =>
    request.charged (d.serve request).1
  | _ => 0

theorem charge_meter (phase : Phase α) (d : Directory) (turn : Turn) (m : Meter) :
    phase.charge d turn (.meter m) = 0 := by
  cases turn with
  | serve index =>
    rw [charge]
    cases phase.flights[index]?.bind Flight.pending? <;> rfl
  | _ => rfl

theorem launch_pays {phase : Phase α} (pays : phase.Pays post b) (moment : Nat) (r : Resolver) :
    (phase.launch moment r).Pays post b := by
  cases phase with
  | finished _ => exact pays
  | asking _ _ => exact pays
  | loading waiting flying loads next =>
    cases waiting with
    | nil => exact pays
    | cons role waiting =>
      obtain ⟨before, balance, rest⟩ := pays
      simp only [launch]
      split
      · refine ⟨before, ?_, rest⟩
        rw [RoleFlight.chargedAll_concat flying rfl, balance]
      · exact ⟨before, balance, rest⟩

theorem serve_pays {phase : Phase α} (pays : phase.Pays post b) (index : Nat) (d : Directory) :
    (phase.serve index d).1.Pays post (b + phase.charge d (.serve index)) := by
  cases phase with
  | finished _ => exact pays
  | asking flight next =>
    cases index with
    | succ _ => exact pays
    | zero =>
      simp only [serve, charge, flights, List.getElem?_cons_zero, Option.bind_some]
      cases answered : flight.answer with
      | some given =>
        rw [Flight.pending?_served answered]
        exact pays
      | none =>
        rw [Flight.pending?_unserved answered]
        simp only [Pays, answered] at pays
        have paid := pays (d.serve flight.request).1
        rw [Request.booked, ← add_assoc] at paid
        exact paid
  | loading waiting flying loads next =>
    obtain ⟨before, balance, rest⟩ := pays
    have same : (loading waiting flying loads next).Pays post (b + 0) := ⟨before, balance, rest⟩
    simp only [serve, charge, flights, List.getElem?_map]
    cases found : flying[index]? with
    | none => exact same
    | some f =>
      simp only [Option.map_some, Option.bind_some]
      cases answered : f.answer with
      | some given =>
        have pending : f.flight.pending? = none := Flight.pending?_served answered
        rw [pending]
        exact same
      | none =>
        have pending : f.flight.pending? = some (.loadRole f.role) :=
          Flight.pending?_unserved answered
        rw [pending]
        refine ⟨before, ?_, rest⟩
        rw [RoleFlight.chargedAll_set found answered, ← add_assoc, balance, Option.elim_some]

theorem resume_pays {phase : Phase α} (pays : phase.Pays post b) (moment index : Nat)
    (r : Resolver) : ∃ c, (phase.resume moment index r).1.Pays post (b + c) ∧
      r.Counts c (phase.resume moment index r).2 ∧ ∀ kind, c (.load kind) = 0 := by
  have goesOn {program : Program α} {asked : Epochs} {request : Request}
      {given : Except Error request.Answer}
      (paid : program.Pays post (b + request.metered given)) :
      ∃ c, (program.advance moment (r.absorb asked request given)).1.Pays post (b + c) ∧
        r.Counts c (program.advance moment (r.absorb asked request given)).2 ∧
        ∀ kind, c (.load kind) = 0 := by
    obtain ⟨c, rest, counts, unloaded⟩ := paid.advance moment (r.absorb asked request given)
    refine ⟨request.metered given + c, ?_,
      .trans (fun m => r.read_absorb m asked request given) counts, fun kind => ?_⟩
    · rw [← add_assoc]
      exact rest
    · rw [Pi.add_apply, request.metered_load, unloaded]
  have stays : ∃ c, phase.Pays post (b + c) ∧ r.Counts c r ∧ ∀ kind, c (.load kind) = 0 :=
    ⟨0, pays, .refl, fun _ => rfl⟩
  cases phase with
  | finished _ => exact stays
  | asking flight next =>
    cases index with
    | succ _ => exact stays
    | zero =>
      cases answered : flight.answer with
      | none =>
        simp only [resume, answered]
        exact stays
      | some given =>
        simp only [Pays, answered] at pays
        simp only [resume, answered]
        exact goesOn pays
  | loading waiting flying loads next =>
    obtain ⟨before, balance, rest⟩ := pays
    simp only [resume]
    split
    · exact stays
    · rename_i f found
      split
      · exact stays
      · rename_i given answered
        have charged : f.charged = (Request.loadRole f.role).charged given := by
          rw [RoleFlight.charged, answered, Option.elim_some]
        have taken : b + (Request.loadRole f.role).metered given =
            before + loadsBooked (loads ++ [(f.role, given)]) +
              RoleFlight.chargedAll (flying.eraseIdx index) := by
          rw [balance, ← RoleFlight.chargedAll_eraseIdx found, charged, loadsBooked_concat,
            Request.booked]
          ac_rfl
        split
        · rename_i last
          have none : RoleFlight.chargedAll [] = 0 := rfl
          rw [last.2, none, add_zero] at taken
          have paid := rest (loads ++ [(f.role, given)])
          rw [← taken] at paid
          exact goesOn paid
        · exact ⟨_, ⟨before, taken, rest⟩,
            fun m => r.read_absorb m f.asked (.loadRole f.role) given,
            fun kind => Request.metered_load (.loadRole f.role) given kind⟩

/-- A turn books what its resolver counts and what the directory charges. -/
theorem turn_pays {phase : Phase α} (pays : phase.Pays post b) (moment : Nat) (s : System)
    (turn : Turn) : ∃ c, (phase.turn moment s turn).1.Pays post (b + c) ∧
      s.resolver.Counts c (phase.turn moment s turn).2.resolver ∧
      ∀ kind, c (.load kind) = phase.charge s.directory turn (.load kind) := by
  cases turn with
  | launch => exact ⟨0, launch_pays pays moment s.resolver, .refl, fun _ => rfl⟩
  | serve index =>
    refine ⟨_, serve_pays pays index s.directory, fun m => ?_, fun _ => rfl⟩
    rw [charge_meter]
    exact (UInt64.add_zero _).symm
  | resume index => exact resume_pays pays moment index s.resolver

end Phase

end Authorization
