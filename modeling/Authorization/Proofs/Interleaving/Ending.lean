import Authorization.Proofs.Interleaving.Recency

namespace Authorization

variable {α : Type}

namespace Phase

/-- A turn changes some work. -/
def Moves (later phase : Phase α) : Prop :=
  later ≠ phase ∧ ∃ moment s turn, later = (phase.turn moment s turn).1

/-- Work that has ended, that waits for something, or that has something left to ask for. -/
def Live : Phase α → Prop
  | loading waiting flying _ _ => waiting ≠ [] ∨ flying ≠ []
  | _ => True

theorem finished_acc (a : α) : Acc Moves (finished a) := by
  constructor
  rintro later ⟨changed, moment, s, turn, rfl⟩
  cases turn <;> exact absurd rfl changed

section Asking

variable {request : Request} {next : Except Error request.Answer → Program α}

theorem answered_acc {asked : Epochs} {since : Nat} {given : Except Error request.Answer}
    (ends : ∀ moment r, Acc Moves ((next given).advance moment r).1) :
    Acc Moves (asking ⟨request, asked, since, some given⟩ next) := by
  constructor
  rintro later ⟨changed, moment, s, turn, rfl⟩
  match turn with
  | .resume 0 => exact ends moment _
  | .launch | .serve 0 | .serve (_ + 1) | .resume (_ + 1) => exact absurd rfl changed

theorem asking_acc {asked : Epochs} {since : Nat} {answer : Option (Except Error request.Answer)}
    (ends : ∀ given moment r, Acc Moves ((next given).advance moment r).1) :
    Acc Moves (asking ⟨request, asked, since, answer⟩ next) := by
  cases answer with
  | some given => exact answered_acc (ends given)
  | none =>
    constructor
    rintro later ⟨changed, moment, s, turn, rfl⟩
    match turn with
    | .serve 0 => exact answered_acc (ends _)
    | .launch | .serve (_ + 1) | .resume 0 | .resume (_ + 1) => exact absurd rfl changed

end Asking

/-- How many turns are left before the loads of a warmup are done. -/
def remaining (waiting : List RoleId) (flying : List RoleFlight) : Nat :=
  -- a role is asked for, served and taken in
  3 * waiting.length + flying.length + flying.countP (·.answer.isNone)

theorem remaining_launch (role : RoleId) (waiting : List RoleId) (flying : List RoleFlight)
    {f : RoleFlight} : remaining waiting (flying ++ [f]) < remaining (role :: waiting) flying := by
  have one : [f].countP (·.answer.isNone) ≤ 1 := List.countP_le_length
  simp only [remaining, List.length_append, List.length_cons, List.countP_append, List.length_nil]
  omega

theorem remaining_serve (waiting : List RoleId) {flying : List RoleFlight} {index : Nat}
    {f : RoleFlight} (found : flying[index]? = some f) (unserved : f.answer = none)
    (given : Except Error Role) :
    remaining waiting (flying.set index { f with answer := some given }) <
      remaining waiting flying := by
  obtain ⟨bound, here⟩ := List.getElem?_eq_some_iff.1 found
  have counted : 0 < flying.countP (·.answer.isNone) :=
    List.countP_pos_iff.2 ⟨f, List.mem_of_getElem? found, by simp [unserved]⟩
  have less := List.countP_set (p := (·.answer.isNone)) (a := { f with answer := some given }) bound
  simp only [here, unserved, Option.isNone_none, if_true, Option.isNone_some, Bool.false_eq_true,
    if_false, Nat.add_zero] at less
  simp only [remaining, List.length_set, less]
  omega

theorem remaining_resume (waiting : List RoleId) {flying : List RoleFlight} {index : Nat}
    {f : RoleFlight} (found : flying[index]? = some f) :
    remaining waiting (flying.eraseIdx index) < remaining waiting flying := by
  obtain ⟨bound, _⟩ := List.getElem?_eq_some_iff.1 found
  have fewer := (List.eraseIdx_sublist flying index).countP_le (p := (·.answer.isNone))
  have shorter := List.length_eraseIdx_add_one bound
  simp only [remaining]
  omega

/-- A warmup that moves has fewer turns left, or it has all its loads and goes on with them. -/
theorem loading_moves {next : List RoleLoad → Program α} {waiting : List RoleId}
    {flying : List RoleFlight} {loads : List RoleLoad} {later : Phase α}
    (moves : later.Moves (loading waiting flying loads next)) :
    (∃ rest under done, later = loading rest under done next ∧
      remaining rest under < remaining waiting flying) ∨
    ∃ done moment r, later = ((next done).advance moment r).1 := by
  obtain ⟨changed, moment, s, turn, rfl⟩ := moves
  cases turn with
  | launch =>
    cases waiting with
    | nil => exact absurd rfl changed
    | cons role waiting =>
      simp only [turn, launch] at changed ⊢
      split
      · exact .inl ⟨_, _, _, rfl, remaining_launch role waiting flying⟩
      · rename_i full
        rw [if_neg full] at changed
        exact absurd rfl changed
  | serve index =>
    simp only [turn, serve] at changed ⊢
    cases found : flying[index]? with
    | none => simp [found] at changed
    | some f =>
      cases answered : f.answer with
      | some _ => simp [found, answered] at changed
      | none =>
        simp only [answered]
        exact .inl ⟨_, _, _, rfl, remaining_serve waiting found answered _⟩
  | resume index =>
    simp only [turn, resume] at changed ⊢
    cases found : flying[index]? with
    | none => simp [found] at changed
    | some f =>
      cases answered : f.answer with
      | none => simp [found, answered] at changed
      | some given =>
        simp only [answered]
        split
        · exact .inr ⟨_, moment, _, rfl⟩
        · exact .inl ⟨_, _, _, rfl, remaining_resume waiting found⟩

theorem loading_acc {next : List RoleLoad → Program α}
    (ends : ∀ loads moment r, Acc Moves ((next loads).advance moment r).1)
    (waiting : List RoleId) (flying : List RoleFlight) (loads : List RoleLoad) :
    Acc Moves (loading waiting flying loads next) := by
  induction left : remaining waiting flying using Nat.strongRecOn
    generalizing waiting flying loads with
  | ind left ih =>
    subst left
    constructor
    intro later moves
    rcases loading_moves moves with ⟨rest, under, done, rfl, fewer⟩ | ⟨done, moment, r, rfl⟩
    · exact ih _ fewer rest under done rfl
    · exact ends done moment r

end Phase

theorem Program.advance_acc (p : Program α) (moment : Nat) (r : Resolver) :
    Acc Phase.Moves (p.advance moment r).1 := by
  induction p generalizing moment r with
  | done a => exact Phase.finished_acc a
  | act a next ih => exact ih _ moment _
  | ask request next ih => exact Phase.asking_acc ih
  | loadRoles roles next ih =>
    cases roles with
    | nil => exact ih [] moment r
    | cons role roles => exact Phase.loading_acc ih _ _ _

namespace Phase

/-- Work cannot go on for ever. -/
theorem acc (phase : Phase α) : Acc Moves phase := by
  cases phase with
  | finished a => exact finished_acc a
  | asking flight next => exact asking_acc fun given => (next given).advance_acc
  | loading waiting flying loads next =>
    exact loading_acc (fun loads => (next loads).advance_acc) waiting flying loads

theorem advance_live (p : Program α) (moment : Nat) (r : Resolver) :
    (p.advance moment r).1.Live := by
  induction p generalizing moment r with
  | done a => trivial
  | act a next ih => exact ih _ moment _
  | ask request next _ => trivial
  | loadRoles roles next ih =>
    cases roles with
    | nil => exact ih [] moment r
    | cons role roles => exact .inl (List.cons_ne_nil role roles)

theorem launch_live {phase : Phase α} (live : phase.Live) (moment : Nat) (r : Resolver) :
    (phase.launch moment r).Live := by
  unfold launch
  split
  · split
    · exact .inr (List.append_ne_nil_of_right_ne_nil _ (List.cons_ne_nil _ _))
    · exact live
  · exact live

theorem serve_live {phase : Phase α} (live : phase.Live) (index : Nat) (d : Directory) :
    (phase.serve index d).1.Live := by
  cases phase with
  | finished _ => exact live
  | asking flight next =>
    simp only [serve]
    split <;> exact live
  | loading waiting flying loads next =>
    simp only [serve]
    split
    · exact live
    · split
      · exact live.imp_right fun some empty => some ((List.set_eq_nil_iff _ _).1 empty)
      · exact live

theorem resume_live {phase : Phase α} (live : phase.Live) (moment index : Nat) (r : Resolver) :
    (phase.resume moment index r).1.Live := by
  cases phase with
  | finished _ => exact live
  | asking flight next =>
    simp only [resume]
    split
    · exact advance_live _ _ _
    · exact live
  | loading waiting flying loads next =>
    simp only [resume]
    split
    · exact live
    · split
      · exact live
      · split
        · exact advance_live _ _ _
        · rename_i more
          exact Decidable.not_and_iff_or_not.1 more

theorem turn_live {phase : Phase α} (live : phase.Live) (moment : Nat) (s : System) (turn : Turn) :
    (phase.turn moment s turn).1.Live := by
  cases turn with
  | launch => exact launch_live live moment s.resolver
  | serve index => exact serve_live live index s.directory
  | resume index => exact resume_live live moment index s.resolver

theorem resume_changes {phase : Phase α} {index : Nat} {f : Flight}
    (flying : phase.flights[index]? = some f) (served : f.answer ≠ none) (moment : Nat)
    (s : System) : (phase.turn moment s (.resume index)).1 ≠ phase := by
  intro same
  have effect := phase.turn_turned moment (.resume index) s
  rw [same] at effect
  generalize (phase.turn moment s (.resume index)).2 = after at effect
  -- the answer that arrives is gone, and whatever is started has no answer yet
  have fewer : ∀ flights later : List Flight, flights[index]? = some f →
      Turned moment (.resume index) flights s later after →
      later.countP (·.answer.isSome) < flights.countP (·.answer.isSome) := by
    intro flights later flying effect
    cases effect with
    | idle unserved => exact absurd (unserved index f rfl flying) served
    | launched launch _ => cases launch
    | served serve _ _ => cases serve
    | @resumed place _ _ started resume _ _ _ starts =>
      cases resume
      obtain ⟨bound, here⟩ := List.getElem?_eq_some_iff.1 flying
      have taken := (List.getElem_cons_eraseIdx_perm bound).countP_eq (·.answer.isSome)
      have fresh : started.countP (·.answer.isSome) = 0 :=
        List.countP_eq_zero.2 fun g member => by simp [(starts g member).answer]
      rw [here, List.countP_cons, if_pos (Option.isSome_iff_ne_none.2 served)] at taken
      rw [List.countP_append, fresh]
      omega
  exact Nat.lt_irrefl _ (fewer _ _ flying effect)

theorem serve_changes {phase : Phase α} {index : Nat} {f : Flight}
    (flying : phase.flights[index]? = some f) (unserved : f.answer = none) (moment : Nat)
    (s : System) : (phase.turn moment s (.serve index)).1 ≠ phase := by
  intro same
  suffices now : ∃ g : Flight, (phase.turn moment s (.serve index)).1.flights[index]? = some g ∧
      g.answer ≠ none by
    obtain ⟨g, there, served⟩ := now
    rw [same, flying] at there
    exact served (Option.some.inj there ▸ unserved)
  cases phase with
  | finished _ => cases flying
  | asking flight next =>
    cases index with
    | succ _ => cases flying
    | zero =>
      cases flying
      simp only [turn, serve, unserved]
      exact ⟨_, rfl, Option.some_ne_none _⟩
  | loading waiting loads done next =>
    rw [flights, List.getElem?_map] at flying
    obtain ⟨g, there, rfl⟩ := Option.map_eq_some_iff.1 flying
    obtain ⟨bound, _⟩ := List.getElem?_eq_some_iff.1 there
    have unserved : g.answer = none := unserved
    simp only [turn, serve, there, unserved, flights, List.getElem?_map,
      List.getElem?_set_self bound]
    exact ⟨_, rfl, Option.some_ne_none _⟩

/-- Work that has not ended is changed by a turn that it is due. -/
theorem due (phase : Phase α) (live : phase.Live) : (∃ a, phase = finished a) ∨
    ∃ turn ∈ [Turn.launch, .serve 0, .resume 0],
      ∀ moment s, (phase.turn moment s turn).1 ≠ phase := by
  cases phase with
  | finished a => exact .inl ⟨a, rfl⟩
  | asking flight next =>
    right
    cases answered : flight.answer with
    | some _ =>
      exact ⟨.resume 0, by simp, resume_changes rfl (by simp [answered])⟩
    | none =>
      exact ⟨.serve 0, by simp, serve_changes rfl answered⟩
  | loading waiting flying loads next =>
    right
    cases flying with
    | cons f flying =>
      cases answered : f.answer with
      | some _ =>
        have served : f.flight.answer ≠ none := by simp [RoleFlight.flight, answered]
        exact ⟨.resume 0, by simp, resume_changes rfl served⟩
      | none => exact ⟨.serve 0, by simp, serve_changes rfl answered⟩
    | nil =>
      cases waiting with
      | nil => exact absurd live (by simp [Live])
      | cons role waiting =>
        refine ⟨.launch, by simp, fun moment s same => ?_⟩
        have flights := congrArg flights same
        cases flights

end Phase

namespace World

variable {ι : Type} [DecidableEq ι] {w : World ι} {moves : Nat → Move ι}

/-- A schedule that again and again lets a task ask for its next role, has its oldest request
served and lets the answer to it arrive. -/
def Fair (moves : Nat → Move ι) (position : Nat) : Prop :=
  ∀ turn ∈ [Turn.launch, .serve 0, .resume 0], ∀ n, ∃ m ≥ n, moves m = .turn position turn

theorem live_at (fresh : w.Fresh) {n : Nat} {task : Task ι}
    (member : task ∈ (w.after moves n).tasks) : task.phase.Live := by
  apply task_invariant (P := fun _ task => task.phase.Live) fresh ?_ member
  intro n before task made
  cases made with
  | kept old => exact before task old
  | begun _ => exact Phase.advance_live _ _ _
  | turned _ found => exact Phase.turn_live (before _ (List.mem_of_getElem? found)) _ _ _

variable {position n : Nat} {home : ι} {call : Call} {began : Nat} {phase : Phase call.Answer}

theorem same_or_moved {m : Nat} (since : n ≤ m)
    (found : (w.after moves n).tasks[position]? = some ⟨home, call, began, phase⟩) :
    (w.after moves m).tasks[position]? = some ⟨home, call, began, phase⟩ ∨
      ∃ t ≥ n, ∃ later : Phase call.Answer, later.Moves phase ∧
        (w.after moves t).tasks[position]? = some ⟨home, call, began, later⟩ := by
  induction since with
  | refl => exact .inl found
  | @step m since ih =>
    rcases ih with same | moved
    · rcases task_at m (moves m) same with ⟨_, still⟩ | ⟨turn, _, turned⟩
      · exact .inl still
      · by_cases changed : (phase.turn (m + 1)
            ⟨(w.after moves m).resolvers home, (w.after moves m).directory⟩ turn).1 = phase
        · left
          rw [← changed]
          exact turned
        · exact .inr ⟨m + 1, Nat.le_succ_of_le since, _, ⟨changed, _, _, _, rfl⟩, turned⟩
    · exact .inr moved

/-- Under a fair schedule every call ends, whatever else goes on. -/
theorem ends_of_fair (fresh : w.Fresh) (fair : Fair moves position)
    (found : (w.after moves n).tasks[position]? = some ⟨home, call, began, phase⟩) :
    ∃ m ≥ n, ∃ answer,
      (w.after moves m).tasks[position]? = some ⟨home, call, began, .finished answer⟩ := by
  -- by induction on what the work can still become: its due turn comes, or a turn before it
  induction phase.acc generalizing n with
  | intro phase _ ih =>
    have goesOn {t : Nat} {later : Phase call.Answer} (moved : later.Moves phase) (since : n ≤ t)
        (there : (w.after moves t).tasks[position]? = some ⟨home, call, began, later⟩) :
        ∃ m ≥ n, ∃ answer,
          (w.after moves m).tasks[position]? = some ⟨home, call, began, .finished answer⟩ := by
      obtain ⟨m, after, answer, ended⟩ := ih later moved there
      exact ⟨m, Nat.le_trans since after, answer, ended⟩
    have live : phase.Live := live_at fresh (List.mem_of_getElem? found)
    rcases phase.due live with ⟨answer, ended⟩ | ⟨turn, member, changes⟩
    · rw [ended] at found
      exact ⟨n, Nat.le_refl n, answer, found⟩
    · obtain ⟨m, later, made⟩ := fair turn member n
      rcases same_or_moved later found with same | ⟨t, since, _, moved, there⟩
      · rcases task_at m (moves m) same with ⟨other, _⟩ | ⟨taken, takes, turned⟩
        · exact absurd made (other turn)
        · cases made.symm.trans takes
          exact goesOn ⟨changes _ _, _, _, _, rfl⟩ (Nat.le_succ_of_le later) turned
      · exact goesOn moved since there

end World

end Authorization
