import Authorization.Proofs.Interleaving.Phase
import Authorization.Proofs.Queries.Call
import Authorization.Proofs.Snapshots.Directory
import Mathlib.Data.Nat.Count
import Mathlib.Logic.Function.Basic

namespace Authorization

/-- A call with the resolver it was made on, the moment at which it began and how far it has come. -/
structure Task (ι : Type) where
  home : ι
  call : Call
  began : Nat
  phase : Phase call.Answer

/-- Any number of resolvers that share one directory, with all the calls that were made on them. -/
structure World (ι : Type) where
  directory : Directory
  resolvers : ι → Resolver
  tasks : List (Task ι)

/-- What may happen next. Whatever a call does between two requests happens in one move. -/
inductive Move (ι : Type) where
  | call (home : ι) (call : Call)
  | turn (position : Nat) (turn : Turn)
  | invalidate (home : ι) (what : Invalidation)
  | upkeep (change : Upkeep)
  | pause

namespace World

variable {ι : Type} [DecidableEq ι]

/-- Lets a task take a turn that ends at the given moment. -/
def turn (w : World ι) (moment position : Nat) (turn : Turn) : World ι :=
  match w.tasks[position]? with
  | none => w
  | some task =>
    let after := task.phase.turn moment ⟨w.resolvers task.home, w.directory⟩ turn
    { directory := after.2.directory
      resolvers := Function.update w.resolvers task.home after.2.resolver
      tasks := w.tasks.set position { task with phase := after.1 } }

/-- Makes the move that leads from moment `n` to moment `n + 1`. -/
def step (w : World ι) (n : Nat) : Move ι → World ι
  | .call home call =>
    let started := (call.program (w.resolvers home)).advance (n + 1) (w.resolvers home)
    { w with
      resolvers := Function.update w.resolvers home started.2
      tasks := w.tasks ++ [⟨home, call, n, started.1⟩] }
  | .turn position turn => w.turn (n + 1) position turn
  | .invalidate home what =>
    { w with
      resolvers := Function.update w.resolvers home ((w.resolvers home).invalidate what) }
  | .upkeep change => { w with directory := w.directory.upkeep change }
  | .pause => w

/-- The world at moment `n`, under the moves of a schedule. -/
def after (w : World ι) (moves : Nat → Move ι) : Nat → World ι
  | 0 => w
  | n + 1 => (w.after moves n).step n (moves n)

/-- Every resolver is newly built and nothing has been asked of it. -/
structure Fresh (w : World ι) : Prop where
  built (i : ι) : ∃ config projection, Resolver.build config projection = .ok (w.resolvers i)
  tasks : w.tasks = []

/-- The schedule of finitely many moves, after which nothing more happens. -/
def schedule (moves : List (Move ι)) (n : Nat) : Move ι := moves[n]?.getD .pause

/-- The invalidation that a move completes, with its resolver: one that is called directly, or the
one that ends a command. -/
def invalidation? (w : World ι) : Move ι → Option (ι × Invalidation)
  | .invalidate home what => some (home, what)
  | .turn position (.resume index) =>
    w.tasks[position]?.bind fun task =>
      task.phase.flights[index]?.bind fun f => f.invalidation?.map (task.home, ·)
  | _ => none

/-- The move that leads on from moment `n` completes an invalidation that covers a key. -/
def Invalidates (w : World ι) (moves : Nat → Move ι) (i : ι) (k : Key) (n : Nat) : Prop :=
  ∃ what, (w.after moves n).invalidation? (moves n) = some (i, what) ∧ what.Hits k

/-- Moment `m` is later than every invalidation of a key that is completed by moment `n`. -/
def Follows (w : World ι) (moves : Nat → Move ι) (i : ι) (k : Key) (n m : Nat) : Prop :=
  ∀ t < n, w.Invalidates moves i k t → t < m

/-- How many invalidations of a resolver are completed between two moments. -/
def invalidations (w : World ι) (moves : Nat → Move ι) (i : ι) (m n : Nat) : Nat :=
  Nat.count (fun t => ((w.after moves (m + t)).invalidation? (moves (m + t))).any (·.1 = i)) (n - m)

/-- Fewer than 2^64 invalidations are completed during any single load. -/
def Calm (w : World ι) (moves : Nat → Move ι) : Prop :=
  ∀ n, ∀ task ∈ (w.after moves n).tasks, ∀ f ∈ task.phase.flights, ∀ k : Key,
    f.request = k.load → w.invalidations moves task.home f.since n < 2 ^ 64

def sample : World Unit where
  directory := .sample
  resolvers _ := .sample
  tasks := []

theorem fresh_sample : sample.Fresh := ⟨fun _ => ⟨_, _, Resolver.build_sample⟩, rfl⟩

end World

end Authorization
