import Authorization.Proofs.Metrics.Payment

namespace Authorization

variable {ι : Type}

namespace Task

/-- Wherever a call ends, the books are as its answer tells. -/
def Pays (task : Task ι) (b : Books) : Prop :=
  task.phase.Pays (fun c answer => Accounted c [⟨task.call, answer⟩]) b

def ended? (task : Task ι) : Option Ended :=
  task.phase.answer?.map fun answer => ⟨task.call, answer⟩

theorem Pays.accounted {task : Task ι} {b : Books} {e : Ended} (pays : task.Pays b)
    (ended : task.ended? = some e) : Accounted b [e] := by
  obtain ⟨home, call, began, phase⟩ := task
  cases phase with
  | finished answer =>
    obtain rfl := Option.some.inj ended
    exact pays
  | asking _ _ => cases ended
  | loading _ _ _ _ => cases ended

end Task

/-- What is booked for the calls on a resolver so far. -/
inductive Booked (i : ι) : List (Task ι) → Books → Prop where
  | nil : Booked i [] 0
  | here {task : Task ι} {tasks : List (Task ι)} {b c : Books} (home : task.home = i)
    (pays : task.Pays b) (rest : Booked i tasks c) : Booked i (task :: tasks) (b + c)
  | elsewhere {task : Task ι} {tasks : List (Task ι)} {c : Books} (away : task.home ≠ i)
    (rest : Booked i tasks c) : Booked i (task :: tasks) c

namespace Booked

variable {i : ι} {tasks : List (Task ι)} {task : Task ι} {b c : Books} {position : Nat}

theorem concat (booked : Booked i tasks c) (home : task.home = i) (pays : task.Pays b) :
    Booked i (tasks ++ [task]) (c + b) := by
  induction booked with
  | nil => exact add_comm b 0 ▸ .here home pays .nil
  | here first paid _ ih =>
    rw [add_assoc]
    exact .here first paid ih
  | elsewhere away _ ih => exact .elsewhere away ih

theorem concat_elsewhere (booked : Booked i tasks c) (away : task.home ≠ i) :
    Booked i (tasks ++ [task]) c := by
  induction booked with
  | nil => exact .elsewhere away .nil
  | here home pays _ ih => exact .here home pays ih
  | elsewhere other _ ih => exact .elsewhere other ih

theorem set_elsewhere (booked : Booked i tasks c) (found : tasks[position]? = some task)
    {later : Task ι} (away : task.home ≠ i) (gone : later.home ≠ i) :
    Booked i (tasks.set position later) c := by
  induction booked generalizing position with
  | nil => cases found
  | here home pays rest ih =>
    cases position with
    | zero =>
      obtain rfl := Option.some.inj found
      exact absurd home away
    | succ position => exact .here home pays (ih found)
  | elsewhere other rest ih =>
    cases position with
    | zero => exact .elsewhere gone rest
    | succ position => exact .elsewhere other (ih found)

/-- A call has books of its own, which can go on without those of the others. -/
theorem set (booked : Booked i tasks c) (found : tasks[position]? = some task)
    (home : task.home = i) : ∃ b, task.Pays b ∧ ∀ (d : Books) (later : Task ι), later.home = i →
      later.Pays (b + d) → Booked i (tasks.set position later) (c + d) := by
  induction booked generalizing position with
  | nil => cases found
  | @here first tasks b c atHome pays rest ih =>
    cases position with
    | zero =>
      obtain rfl := Option.some.inj found
      refine ⟨b, pays, fun d later stays paid => ?_⟩
      rw [add_assoc, add_comm c d, ← add_assoc]
      exact .here stays paid rest
    | succ position =>
      obtain ⟨own, paid, goesOn⟩ := ih found
      refine ⟨own, paid, fun d later stays more => ?_⟩
      rw [add_assoc]
      exact .here atHome pays (goesOn d later stays more)
  | elsewhere away rest ih =>
    cases position with
    | zero =>
      obtain rfl := Option.some.inj found
      exact absurd home away
    | succ position =>
      obtain ⟨own, paid, goesOn⟩ := ih found
      exact ⟨own, paid, fun d later stays more => .elsewhere away (goesOn d later stays more)⟩

variable [DecidableEq ι]

theorem accounted (booked : Booked i tasks b)
    (ended : ∀ task ∈ tasks, task.home = i → task.ended?.isSome) :
    Accounted b ((tasks.filter (·.home = i)).filterMap Task.ended?) := by
  induction booked with
  | nil => exact .nil
  | @here task tasks b c home pays rest ih =>
    obtain ⟨first, others⟩ := List.forall_mem_cons.1 ended
    obtain ⟨e, answered⟩ := Option.isSome_iff_exists.1 (first home)
    rw [List.filter_cons_of_pos (by simpa using home), List.filterMap_cons_some answered]
    exact (pays.accounted answered).append (ih others)
  | elsewhere away rest ih =>
    rw [List.filter_cons_of_neg (by simpa using away)]
    exact ih (List.forall_mem_cons.1 ended).2

end Booked

/-- Invalidations that are called directly. -/
def Books.direct (count : Nat) : Books
  | .meter .invalidations => count
  | _ => 0

theorem Books.direct_zero : direct 0 = 0 := by
  funext entry
  rcases entry with meter | kind
  · cases meter <;> rfl
  · rfl

theorem Books.direct_add (m n : Nat) : direct (m + n) = direct m + direct n := by
  funext entry
  rcases entry with meter | kind
  · cases meter <;> rfl
  · rfl

variable [DecidableEq ι]

/-- A direct invalidation of one record. -/
def Move.invalidates (i : ι) : Move ι → Bool
  | .invalidate home (.one _) => home = i
  | _ => false

theorem Invalidation.metered_eq (home : ι) (what : Invalidation) (m : Meter) : what.metered m =
    Books.direct (if (Move.invalidate home what).invalidates home then 1 else 0) (.meter m) := by
  cases what with
  | all => cases m <;> rfl
  | one key =>
    have direct : (Move.invalidate home (.one key)).invalidates home = true := decide_eq_true rfl
    rw [direct]
    cases m <;> rfl

namespace World

/-- A move has the directory serve a load of a resolver. -/
def serves (w : World ι) (i : ι) (kind : LoadKind) : Move ι → Bool
  | .turn position (.serve index) =>
    w.tasks[position]?.any fun task => task.home = i &&
      (task.phase.flights[index]?.bind Flight.pending?).any fun request =>
        kind.counts request (w.directory.serve request).1
  | _ => false

/-- How many loads of a resolver the directory has served by a moment. -/
def loads (w : World ι) (moves : Nat → Move ι) (i : ι) (kind : LoadKind) (n : Nat) : Nat :=
  Nat.count (fun t => (w.after moves t).serves i kind (moves t)) n

/-- The calls on a resolver that have returned. -/
def ended (w : World ι) (i : ι) : List Ended :=
  (w.tasks.filter (·.home = i)).filterMap Task.ended?

variable {w : World ι} {i : ι} {b : Books}

theorem serves_turn {position : Nat} {task : Task ι} {turn : Turn} {kind : LoadKind}
    (found : w.tasks[position]? = some task) (home : task.home = i) :
    task.phase.charge w.directory turn (.load kind) =
      if w.serves i kind (.turn position turn) then 1 else 0 := by
  cases turn with
  | serve index =>
    simp only [serves, found, Option.any_some, home, decide_true, Bool.true_and, Phase.charge]
    cases task.phase.flights[index]?.bind Flight.pending? <;> rfl
  | _ => rfl

/-- A move books what its resolver counts, but for the invalidations that are called directly. -/
theorem booked_step (booked : Booked i w.tasks b) (n : Nat) (move : Move ι) :
    ∃ c, Booked i (w.step n move).tasks (b + c) ∧
      (w.resolvers i).Counts (c + .direct (if move.invalidates i then 1 else 0))
        ((w.step n move).resolvers i) ∧
      ∀ kind, c (.load kind) = if w.serves i kind move then 1 else 0 := by
  have still {s : Resolver} (same : s = w.resolvers i) :
      (w.resolvers i).Counts (0 + .direct 0) s := by
    rw [Books.direct_zero, add_zero, same]
    exact .refl
  cases move with
  | call home call =>
    by_cases here : home = i
    · subst here
      obtain ⟨c, pays, counts, unloaded⟩ :=
        (call.program_pays (w.resolvers home)).advance (n + 1) (w.resolvers home)
      rw [zero_add] at pays
      refine ⟨c, booked.concat rfl pays, ?_, unloaded⟩
      simp only [step, Function.update_self]
      rw [← add_zero c, ← Books.direct_zero] at counts
      exact counts
    · exact ⟨0, booked.concat_elsewhere here, still (Function.update_of_ne (Ne.symm here) ..),
        fun _ => rfl⟩
  | turn position turn =>
    cases found : w.tasks[position]? with
    | none =>
      rw [step_turn_missing found]
      refine ⟨0, booked, still rfl, fun kind => ?_⟩
      cases turn with
      | serve index => simp [serves, found]
      | _ => rfl
    | some task =>
      rw [step_turn found]
      by_cases here : task.home = i
      · -- the call pays from its own books, and those of the other calls stay
        obtain ⟨own, pays, goesOn⟩ := booked.set found here
        obtain ⟨c, later, counts, loads⟩ :=
          Phase.turn_pays pays (n + 1) ⟨w.resolvers task.home, w.directory⟩ turn
        refine ⟨c, goesOn c _ here later, ?_, fun kind => ?_⟩
        · subst here
          simp only [Function.update_self]
          rw [← add_zero c, ← Books.direct_zero] at counts
          exact counts
        · rw [loads, serves_turn found here]
      · refine ⟨0, booked.set_elsewhere found here here,
          still (Function.update_of_ne (Ne.symm here) ..), fun kind => ?_⟩
        cases turn with
        | serve index => simp [serves, found, here]
        | _ => rfl
  | invalidate home what =>
    refine ⟨0, booked, ?_, fun _ => rfl⟩
    by_cases here : home = i
    · subst here
      intro m
      simp only [step, Function.update_self, Resolver.read_invalidate, zero_add,
        what.metered_eq home m]
    · have other : (Move.invalidate home what).invalidates i = false := by
        cases what with
        | all => rfl
        | one key => exact decide_eq_false here
      rw [other]
      exact still (Function.update_of_ne (Ne.symm here) ..)
  | upkeep _ => exact ⟨0, booked, still rfl, fun _ => rfl⟩
  | pause => exact ⟨0, booked, still rfl, fun _ => rfl⟩

/-- How many direct invalidations of one record are called on a resolver by a moment. -/
def directs (moves : Nat → Move ι) (i : ι) (n : Nat) : Nat :=
  Nat.count (fun t => (moves t).invalidates i) n

variable {moves : Nat → Move ι}

/-- Whatever a newly built resolver has counted is booked for the calls on it, or is a direct
invalidation. -/
theorem booked_after (fresh : w.Fresh) (n : Nat) :
    ∃ b, Booked i (w.after moves n).tasks b ∧
      (∀ m : Meter, m.read ((w.after moves n).resolvers i) =
        .ofNat ((b + .direct (directs moves i n)) (.meter m))) ∧
      ∀ kind, b (.load kind) = w.loads moves i kind n := by
  induction n with
  | zero =>
    obtain ⟨config, projection, built⟩ := fresh.built i
    refine ⟨0, ?_, fun m => ?_, fun _ => rfl⟩
    · rw [after, fresh.tasks]
      exact .nil
    · rw [after, Resolver.build_ok built, directs, Nat.count_zero, Books.direct_zero]
      cases m <;> rfl
  | succ n ih =>
    obtain ⟨b, booked, counted, loaded⟩ := ih
    obtain ⟨c, later, counts, loads⟩ := booked_step booked n (moves n)
    refine ⟨b + c, later, fun m => ?_, fun kind => ?_⟩
    · have grown : directs moves i (n + 1) =
          directs moves i n + if (moves n).invalidates i then 1 else 0 := Nat.count_succ _ n
      rw [after, counts m, counted m, grown, Books.direct_add, ← UInt64.ofNat_add]
      congr 1
      simp only [Pi.add_apply]
      omega
    · have grown : w.loads moves i kind (n + 1) = w.loads moves i kind n +
          if (w.after moves n).serves i kind (moves n) then 1 else 0 := Nat.count_succ _ n
      rw [Pi.add_apply, loaded, loads, grown]

theorem length_tasks_step (w : World ι) (i : ι) (n : Nat) (move : Move ι) :
    (w.step n move).tasks.length + (if move.invalidates i then 1 else 0) ≤ w.tasks.length + 1 := by
  cases move with
  | call home call =>
    rw [step, List.length_append]
    exact Nat.le_refl _
  | turn position turn =>
    cases found : w.tasks[position]? with
    | none =>
      rw [step_turn_missing found]
      exact Nat.le_succ _
    | some task =>
      rw [step_turn found, List.length_set]
      exact Nat.le_succ _
  | invalidate home what =>
    simp only [step]
    split
    · exact Nat.le_refl _
    · exact Nat.le_succ _
  | upkeep _ => exact Nat.le_succ _
  | pause => exact Nat.le_succ _

/-- Every call and every direct invalidation is a move of its own. -/
theorem length_tasks_add_directs (fresh : w.Fresh) (i : ι) (n : Nat) :
    (w.after moves n).tasks.length + directs moves i n ≤ n := by
  induction n with
  | zero =>
    rw [after, fresh.tasks]
    exact Nat.le_refl 0
  | succ n ih =>
    have grown : directs moves i (n + 1) =
        directs moves i n + if (moves n).invalidates i then 1 else 0 := Nat.count_succ _ n
    have step := length_tasks_step (w.after moves n) i n (moves n)
    rw [after, grown]
    omega

end World

end Authorization
