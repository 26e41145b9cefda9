import Authorization.Proofs.Interleaving.World

namespace Authorization

namespace World

variable {ι : Type} [DecidableEq ι] {w : World ι} {n : Nat} {move : Move ι}

theorem step_turn {position : Nat} {turn : Turn} {task : Task ι}
    (found : w.tasks[position]? = some task) :
    w.step n (.turn position turn) =
      let after := task.phase.turn (n + 1) ⟨w.resolvers task.home, w.directory⟩ turn
      ⟨after.2.directory, Function.update w.resolvers task.home after.2.resolver,
        w.tasks.set position { task with phase := after.1 }⟩ := by
  simp only [step, World.turn, found]

theorem step_turn_missing {position : Nat} {turn : Turn} (missing : w.tasks[position]? = none) :
    w.step n (.turn position turn) = w := by
  simp only [step, World.turn, missing]

theorem turned_mem {position : Nat} {turn : Turn} {task : Task ι}
    (found : w.tasks[position]? = some task) :
    { task with phase := (task.phase.turn (n + 1) ⟨w.resolvers task.home, w.directory⟩ turn).1 } ∈
      (w.step n (.turn position turn)).tasks := by
  rw [step_turn found]
  exact List.mem_set (List.getElem?_eq_some_iff.1 found).1 _

/-- Where a task that is there after a move comes from. -/
inductive TaskStep (w : World ι) (n : Nat) (move : Move ι) : Task ι → Prop where
  | kept {task : Task ι} (member : task ∈ w.tasks) : TaskStep w n move task
  | begun {home : ι} {call : Call} (made : move = .call home call) :
    TaskStep w n move
      ⟨home, call, n, ((call.program (w.resolvers home)).advance (n + 1) (w.resolvers home)).1⟩
  | turned {position : Nat} {turn : Turn} {task : Task ι} (made : move = .turn position turn)
    (found : w.tasks[position]? = some task) :
    TaskStep w n move
      { task with phase := (task.phase.turn (n + 1) ⟨w.resolvers task.home, w.directory⟩ turn).1 }

theorem task_step {task : Task ι} (member : task ∈ (w.step n move).tasks) :
    TaskStep w n move task := by
  cases move with
  | call home call =>
    rcases List.mem_append.1 member with old | new
    · exact .kept old
    · obtain rfl := List.mem_singleton.1 new
      exact .begun rfl
  | turn position turn =>
    cases found : w.tasks[position]? with
    | none =>
      rw [step_turn_missing found] at member
      exact .kept member
    | some old =>
      rw [step_turn found] at member
      rcases List.mem_or_eq_of_mem_set member with kept | rfl
      · exact .kept kept
      · exact .turned rfl found
  | invalidate _ _ => exact .kept member
  | upkeep _ => exact .kept member
  | pause => exact .kept member

/-- A task stays at its position, and only a turn of that position moves it on. -/
theorem task_at (n : Nat) (move : Move ι) {position : Nat} {task : Task ι}
    (found : w.tasks[position]? = some task) :
    ((∀ turn, move ≠ .turn position turn) ∧ (w.step n move).tasks[position]? = some task) ∨
      ∃ turn, move = .turn position turn ∧ (w.step n move).tasks[position]? = some { task with
        phase := (task.phase.turn (n + 1) ⟨w.resolvers task.home, w.directory⟩ turn).1 } := by
  have bound : position < w.tasks.length := (List.getElem?_eq_some_iff.1 found).1
  cases move with
  | call home call =>
    refine .inl ⟨by simp, ?_⟩
    exact (List.getElem?_append_left bound).trans found
  | turn place turn =>
    by_cases here : place = position
    · subst here
      refine .inr ⟨turn, rfl, ?_⟩
      rw [step_turn found]
      exact List.getElem?_set_self bound
    · refine .inl ⟨fun _ made => by cases made; exact here rfl, ?_⟩
      cases moved : w.tasks[place]? with
      | none => rw [step_turn_missing moved, found]
      | some other =>
        rw [step_turn moved]
        exact (List.getElem?_set_ne here).trans found
  | invalidate _ _ => exact .inl ⟨by simp, found⟩
  | upkeep _ => exact .inl ⟨by simp, found⟩
  | pause => exact .inl ⟨by simp, found⟩

/-- A task at a position that was free has begun with the last move. -/
theorem task_begun {position : Nat} {task : Task ι} (free : w.tasks[position]? = none)
    (found : (w.step n move).tasks[position]? = some task) : ∃ home call, move = .call home call ∧
      task = ⟨home, call, n,
        ((call.program (w.resolvers home)).advance (n + 1) (w.resolvers home)).1⟩ := by
  have beyond : w.tasks.length ≤ position := List.getElem?_eq_none_iff.1 free
  cases move with
  | call home call =>
    have last := (List.getElem?_append_right beyond).symm.trans found
    exact ⟨home, call, rfl, (List.mem_singleton.1 (List.mem_of_getElem? last))⟩
  | turn place turn =>
    cases moved : w.tasks[place]? with
    | none =>
      rw [step_turn_missing moved, free] at found
      cases found
    | some other =>
      have same : (w.step n (.turn place turn)).tasks.length = w.tasks.length := by
        rw [step_turn moved]
        exact List.length_set
      have bound := (List.getElem?_eq_some_iff.1 found).1
      omega
  | invalidate _ _ => cases free.symm.trans found
  | upkeep _ => cases free.symm.trans found
  | pause => cases free.symm.trans found

/-- Where a flight that is there after a move comes from. -/
inductive FlightStep (w : World ι) (n : Nat) (move : Move ι) (task : Task ι) (f : Flight) :
    Prop where
  | kept {old : Task ι} (member : old ∈ w.tasks) (home : task.home = old.home)
    (began : task.began = old.began) (flying : f ∈ old.phase.flights) : FlightStep w n move task f
  | started (starts : f.Starts (n + 1) ((w.step n move).resolvers task.home)) :
    FlightStep w n move task f
  | answered {old : Task ι} {asked : Flight} (member : old ∈ w.tasks)
    (home : task.home = old.home) (began : task.began = old.began)
    (flying : asked ∈ old.phase.flights)
    (served : f = asked.answered (w.directory.serve asked.request).1)
    (changed : (w.step n move).directory = (w.directory.serve asked.request).2) :
    FlightStep w n move task f

theorem flight_step {task : Task ι} {f : Flight} (member : task ∈ (w.step n move).tasks)
    (flying : f ∈ task.phase.flights) : FlightStep w n move task f := by
  cases task_step member with
  | kept old => exact .kept old rfl rfl flying
  | @begun home call made =>
    subst made
    have starts := ((call.program (w.resolvers home)).advance_starts (n + 1) (w.resolvers home)).2
    apply FlightStep.started
    simp only [step, Function.update_self]
    exact starts f flying
  | @turned position turn old made found =>
    subst made
    have there := List.mem_of_getElem? found
    have effect := old.phase.turn_turned (n + 1) turn ⟨w.resolvers old.home, w.directory⟩
    rcases effect.mem flying with kept | starts | ⟨asked, flying, served, changed⟩
    · exact .kept there rfl rfl kept
    · apply FlightStep.started
      simp only [step_turn found, Function.update_self]
      exact starts
    · have after : (w.step n (.turn position turn)).directory =
          (w.directory.serve asked.request).2 := by
        rw [step_turn found]
        exact changed
      exact .answered there rfl rfl flying served after

/-- What a move does to the directory. -/
inductive DirectoryStep (w : World ι) (n : Nat) (move : Move ι) : Prop where
  | kept (same : (w.step n move).directory = w.directory)
  | upkept {change : Upkeep} (made : move = .upkeep change)
    (changed : (w.step n move).directory = w.directory.upkeep change)
  | served {task : Task ι} {f : Flight} (member : task ∈ (w.step n move).tasks)
    (flying : f.answered (w.directory.serve f.request).1 ∈ task.phase.flights)
    (changed : (w.step n move).directory = (w.directory.serve f.request).2)

theorem directory_step (w : World ι) (n : Nat) (move : Move ι) : DirectoryStep w n move := by
  cases move with
  | call home call => exact .kept rfl
  | turn position turn =>
    cases found : w.tasks[position]? with
    | none =>
      apply DirectoryStep.kept
      rw [step_turn_missing found]
    | some task =>
      have effect := task.phase.turn_turned (n + 1) turn ⟨w.resolvers task.home, w.directory⟩
      rcases effect.directory with same | ⟨f, changed, answered⟩
      · apply DirectoryStep.kept
        rw [step_turn found]
        exact same
      · apply DirectoryStep.served (turned_mem found) answered
        rw [step_turn found]
        exact changed
  | invalidate _ _ => exact .kept rfl
  | upkeep change => exact .upkept rfl rfl
  | pause => exact .kept rfl

/-- What a move does to a resolver. -/
inductive ResolverStep (w : World ι) (move : Move ι) (i : ι) (r : Resolver) : Prop where
  | kept (calm : ∀ what, w.invalidation? move ≠ some (i, what)) (same : r.Agrees (w.resolvers i)) :
    ResolverStep w move i r
  | invalidated (what : Invalidation) (made : w.invalidation? move = some (i, what))
    (same : r.Agrees ((w.resolvers i).invalidate what)) : ResolverStep w move i r
  | received {position index : Nat} {task : Task ι} {f : Flight}
    (made : move = .turn position (.resume index)) (found : w.tasks[position]? = some task)
    (home : task.home = i) (flying : task.phase.flights[index]? = some f)
    (calm : f.invalidation? = none) (same : r.Agrees ((w.resolvers i).receive f)) :
    ResolverStep w move i r

omit [DecidableEq ι] in
theorem invalidation?_resume {position index : Nat} {task : Task ι}
    (found : w.tasks[position]? = some task) :
    w.invalidation? (.turn position (.resume index)) =
      (task.phase.flights[index]?).bind fun f => f.invalidation?.map (task.home, ·) := by
  rw [invalidation?, found, Option.bind_some]

theorem resumed_agrees {position index : Nat} {task : Task ι} {f : Flight}
    (found : w.tasks[position]? = some task) (flying : task.phase.flights[index]? = some f)
    (served : f.answer ≠ none) :
    ((w.step n (.turn position (.resume index))).resolvers task.home).Agrees
      ((w.resolvers task.home).receive f) := by
  rw [step_turn found]
  simp only [Function.update_self]
  have effect := task.phase.turn_turned (n + 1) (.resume index) ⟨w.resolvers task.home, w.directory⟩
  rcases effect.resolver with ⟨_, unserved⟩ | ⟨place, g, resume, there, same⟩
  · exact absurd (unserved index f rfl flying) served
  · cases resume
    obtain rfl := Option.some.inj (flying.symm.trans there)
    exact same

omit [DecidableEq ι] in
theorem invalidation?_missing {position : Nat} (turn : Turn)
    (missing : w.tasks[position]? = none) : w.invalidation? (.turn position turn) = none := by
  cases turn with
  | launch => rfl
  | serve _ => rfl
  | resume _ => rw [invalidation?, missing, Option.bind_none]

omit [DecidableEq ι] in
theorem invalidation?_unserved {position : Nat} {turn : Turn} {task : Task ι}
    (found : w.tasks[position]? = some task)
    (unserved : ∀ index f, turn = .resume index → task.phase.flights[index]? = some f →
      f.answer = none) : w.invalidation? (.turn position turn) = none := by
  cases turn with
  | launch => rfl
  | serve _ => rfl
  | resume index =>
    rw [invalidation?_resume found]
    cases flying : task.phase.flights[index]? with
    | none => rfl
    | some f =>
      have nothing := unserved index f rfl flying
      rw [Option.bind_some, Flight.invalidation?, nothing]
      rfl

omit [DecidableEq ι] in
theorem home_of_invalidation? {position : Nat} {turn : Turn} {task : Task ι} {i : ι}
    {what : Invalidation} (found : w.tasks[position]? = some task)
    (made : w.invalidation? (.turn position turn) = some (i, what)) : i = task.home := by
  cases turn with
  | launch => cases made
  | serve _ => cases made
  | resume index =>
    rw [invalidation?_resume found] at made
    obtain ⟨f, _, owed⟩ := Option.bind_eq_some_iff.1 made
    obtain ⟨_, _, same⟩ := Option.map_eq_some_iff.1 owed
    exact (congrArg Prod.fst same).symm

theorem turn_resolver (n position : Nat) (turn : Turn) (i : ι) :
    ResolverStep w (.turn position turn) i ((w.step n (.turn position turn)).resolvers i) := by
  cases found : w.tasks[position]? with
  | none =>
    have calm := invalidation?_missing turn found
    rw [step_turn_missing found]
    exact .kept (by simp [calm]) (.refl _)
  | some task =>
    rw [step_turn found]
    by_cases here : i = task.home
    · subst here
      simp only [Function.update_self]
      have effect := task.phase.turn_turned (n + 1) turn ⟨w.resolvers task.home, w.directory⟩
      rcases effect.resolver with ⟨same, unserved⟩ | ⟨index, f, resume, flying, same⟩
      · have calm := invalidation?_unserved found unserved
        exact .kept (by simp [calm]) same
      · subst resume
        cases owed : f.invalidation? with
        | none => exact .received rfl found rfl flying owed same
        | some what =>
          have made : w.invalidation? (.turn position (.resume index)) = some (task.home, what) := by
            rw [invalidation?_resume found, flying, Option.bind_some, owed, Option.map_some]
          rw [Resolver.receive_of_invalidation _ owed] at same
          exact .invalidated what made same
    · simp only [Function.update_of_ne here]
      have calm (what : Invalidation) : w.invalidation? (.turn position turn) ≠ some (i, what) :=
        fun made => here (home_of_invalidation? found made)
      exact .kept calm (.refl _)

theorem resolver_step (w : World ι) (n : Nat) (move : Move ι) (i : ι) :
    ResolverStep w move i ((w.step n move).resolvers i) := by
  cases move with
  | call home call =>
    have calm (what : Invalidation) : w.invalidation? (.call home call) ≠ some (i, what) := by
      intro made
      cases made
    apply ResolverStep.kept calm
    by_cases here : i = home
    · subst here
      simp only [step, Function.update_self]
      exact ((call.program (w.resolvers i)).advance_starts (n + 1) (w.resolvers i)).1
    · simp only [step, Function.update_of_ne here]
      exact .refl _
  | turn position turn => exact turn_resolver n position turn i
  | invalidate home what =>
    by_cases here : i = home
    · subst here
      simp only [step, Function.update_self]
      exact .invalidated what rfl (.refl _)
    · simp only [step, Function.update_of_ne here]
      have calm (other : Invalidation) : w.invalidation? (.invalidate home what) ≠ some (i, other) := by
        intro made
        cases made
        exact here rfl
      exact .kept calm (.refl _)
  | upkeep _ => exact .kept (fun what made => by cases made) (.refl _)
  | pause => exact .kept (fun what made => by cases made) (.refl _)

end World

end Authorization
