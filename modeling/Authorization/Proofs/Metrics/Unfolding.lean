import Authorization.Proofs.Metrics.Ledger
import Mathlib.Data.List.Forall2

namespace Authorization

variable {α β : Type}

/-- The same work, with something made of its outcome. -/
def Phase.map (f : α → β) : Phase α → Phase β
  | finished a => finished (f a)
  | asking flight next => asking flight fun given => f <$> next given
  | loading waiting flying loads next => loading waiting flying loads fun all => f <$> next all

theorem Program.advance_map (f : α → β) (program : Program α) (moment : Nat) (r : Resolver) :
    (f <$> program).advance moment r =
      ((program.advance moment r).1.map f, (program.advance moment r).2) := by
  induction program generalizing r with
  | done a => rfl
  | act a next ih => exact ih _ _
  | ask request next _ => rfl
  | loadRoles roles next ih =>
    cases roles with
    | nil => exact ih [] r
    | cons role roles => rfl

namespace Phase

variable (f : α → β) (phase : Phase α)

theorem launch_map (moment : Nat) (r : Resolver) :
    (phase.map f).launch moment r = (phase.launch moment r).map f := by
  cases phase with
  | finished _ => rfl
  | asking _ _ => rfl
  | loading waiting flying loads next =>
    cases waiting with
    | nil => rfl
    | cons role waiting =>
      simp only [map, launch]
      split <;> rfl

theorem serve_map (index : Nat) (d : Directory) :
    (phase.map f).serve index d = ((phase.serve index d).1.map f, (phase.serve index d).2) := by
  cases phase with
  | finished _ => rfl
  | asking flight next =>
    simp only [map, serve]
    split <;> rfl
  | loading waiting flying loads next =>
    simp only [map, serve]
    split
    · rfl
    · split <;> rfl

theorem resume_map (moment index : Nat) (r : Resolver) : (phase.map f).resume moment index r =
    ((phase.resume moment index r).1.map f, (phase.resume moment index r).2) := by
  cases phase with
  | finished _ => rfl
  | asking flight next =>
    simp only [map, resume]
    split
    · exact Program.advance_map ..
    · rfl
  | loading waiting flying loads next =>
    simp only [map, resume]
    split
    · rfl
    · split
      · rfl
      · split
        · exact Program.advance_map ..
        · rfl

theorem turn_map (moment : Nat) (s : System) (turn : Turn) : (phase.map f).turn moment s turn =
    ((phase.turn moment s turn).1.map f, (phase.turn moment s turn).2) := by
  cases turn with
  | launch => exact congrArg (·, s) (launch_map ..)
  | serve index => simp only [Phase.turn, serve_map]
  | resume index => simp only [Phase.turn, resume_map]

end Phase

/-- The answer of a check that counts what cannot be resolved as denied. -/
def orDeny : Except Error Bool → Bool
  | .ok allowed => allowed
  | .error _ => false

theorem Query.checkOrDeny_eq (user : UserId) (scope : OrganizationId) (permission : String) :
    checkOrDeny user scope permission = orDeny <$> (hasPermission user scope permission).run := by
  refine congrArg ((hasPermission user scope permission).run >>= ·) (funext fun outcome => ?_)
  cases outcome <;> rfl

variable {ι : Type}

/-- The move with the check in place of the call that it is made for. -/
def Move.unfolded : Move ι → Move ι
  | .call home made => .call home made.unfolded
  | move => move

/-- A call with the check that is made for it, which has come just as far. -/
inductive Task.Unfolds : Task ι → Task ι → Prop where
  | same {task : Task ι} (plain : task.call.unfolded = task.call) : Unfolds task task
  | check {home : ι} {user : UserId} {scope : OrganizationId} {permission : String} {began : Nat}
    {phase : Phase (Except Error Bool)} :
    Unfolds ⟨home, .checkOrDeny user scope permission, began, phase.map orDeny⟩
      ⟨home, .hasPermission user scope permission, began, phase⟩

theorem Task.Unfolds.begun (home : ι) (call : Call) (n : Nat) (r : Resolver) :
    ((call.program r).advance (n + 1) r).2 = ((call.unfolded.program r).advance (n + 1) r).2 ∧
      Unfolds ⟨home, call, n, ((call.program r).advance (n + 1) r).1⟩
        ⟨home, call.unfolded, n, ((call.unfolded.program r).advance (n + 1) r).1⟩ := by
  cases call with
  | checkOrDeny user scope permission =>
    simp only [Call.program, Call.unfolded, Query.checkOrDeny_eq, Program.advance_map]
    exact ⟨trivial, .check⟩
  | _ => exact ⟨rfl, .same rfl⟩

theorem Task.Unfolds.turned {task other : Task ι} (unfolds : task.Unfolds other) (moment : Nat)
    (s : System) (turn : Turn) :
    (task.phase.turn moment s turn).2 = (other.phase.turn moment s turn).2 ∧
      Unfolds { task with phase := (task.phase.turn moment s turn).1 }
        { other with phase := (other.phase.turn moment s turn).1 } := by
  cases unfolds with
  | same plain => exact ⟨rfl, .same plain⟩
  | check =>
    simp only [Phase.turn_map]
    exact ⟨trivial, .check⟩

theorem Task.Unfolds.home {task other : Task ι} (unfolds : task.Unfolds other) :
    task.home = other.home := by
  cases unfolds <;> rfl

namespace World

/-- Two worlds of which one makes the checks itself that the other has made for it. -/
structure Unfolds (w v : World ι) : Prop where
  directory : w.directory = v.directory
  resolvers : w.resolvers = v.resolvers
  tasks : List.Forall₂ Task.Unfolds w.tasks v.tasks

variable [DecidableEq ι] {w v : World ι}

theorem Unfolds.step (unfolds : w.Unfolds v) (n : Nat) (move : Move ι) :
    (w.step n move).Unfolds (v.step n move.unfolded) := by
  obtain ⟨directory, resolvers, tasks⟩ := w
  obtain ⟨rfl, rfl, related⟩ := unfolds
  cases move with
  | call home call =>
    obtain ⟨same, begun⟩ := Task.Unfolds.begun home call n (v.resolvers home)
    refine ⟨rfl, ?_, List.rel_append related (.cons begun .nil)⟩
    simp only [Move.unfolded, World.step, same]
  | turn position turn =>
    have still : (Move.turn position turn : Move ι).unfolded = .turn position turn := rfl
    rw [still]
    rcases forall₂_getElem? related position with ⟨left, right⟩ | ⟨task, other, left, right, pair⟩
    · rw [step_turn_missing left, step_turn_missing right]
      exact ⟨rfl, rfl, related⟩
    · obtain ⟨same, turned⟩ :=
        pair.turned (n + 1) ⟨v.resolvers task.home, v.directory⟩ turn
      rw [← pair.home] at turned
      rw [step_turn left, step_turn right, ← pair.home]
      exact ⟨congrArg System.directory same,
        congrArg (fun s => Function.update v.resolvers task.home s.resolver) same,
        forall₂_set related turned position⟩
  | invalidate home what => exact ⟨rfl, rfl, related⟩
  | upkeep change => exact ⟨rfl, rfl, related⟩
  | pause => exact ⟨rfl, rfl, related⟩

theorem Unfolds.after {moves : Nat → Move ι} (unfolds : w.Unfolds v) (n : Nat) :
    (w.after moves n).Unfolds (v.after (fun t => (moves t).unfolded) n) := by
  induction n with
  | zero => exact unfolds
  | succ n ih => exact ih.step n (moves n)

omit [DecidableEq ι] in
theorem Fresh.unfolds (fresh : w.Fresh) : w.Unfolds w := by
  refine ⟨rfl, rfl, ?_⟩
  rw [fresh.tasks]
  exact .nil

end World

end Authorization
