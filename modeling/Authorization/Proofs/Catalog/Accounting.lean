import Authorization.Proofs.Catalog.Tracking
import Authorization.Proofs.Interleaving.Ending
import Authorization.Proofs.Interleaving.Evidence
import Authorization.Proofs.Queries.Coherence
import Mathlib.Algebra.BigOperators.Group.Finset.Piecewise

namespace Authorization

/-- A request that creates no permission. -/
def Request.Spares : Request → Prop
  | .createPermission _ => False
  | _ => True

theorem Request.spares_load (k : Key) : k.load.Spares := by cases k <;> trivial

theorem Directory.size_spared (d : Directory) {request : Request} (spares : request.Spares) :
    (d.serve request).2.permissions.size = d.permissions.size := by
  rw [(d.serve_registered request).size]
  cases request with
  | createPermission _ => exact spares.elim
  | _ => rfl

namespace Call

variable {r : Resolver} {call : Call}

theorem spares_of_meets {α : Type} {q : Query α} {result : α → Prop}
    (meets : q.Meets Request.Spares .any result) :
    q.run.Meets Request.Spares .any fun _ => True :=
  Program.Meets.mono meets (fun _ => id) fun _ _ => trivial

theorem program_spares (idle : ∀ names rest, ¬ call.Ensures r names rest) :
    (call.program r).Meets Request.Spares .any fun _ => True := by
  have loads := Request.spares_load
  cases call with
  | belongsToRole user role =>
    exact spares_of_meets ((Query.membership_meets loads user).bind fun m _ =>
      Query.meets_done (m.contains role))
  | hasPermission user scope permission =>
    exact spares_of_meets (Query.hasPermission_meets loads user scope permission)
  | checkOrDeny user scope permission =>
    apply Program.Meets.bind (Query.hasPermission_meets loads user scope permission)
    intro outcome _
    cases outcome <;> trivial
  | userRoles user =>
    exact spares_of_meets ((Query.membership_meets loads user).bind fun m _ =>
      Query.meets_done m.roles)
  | userPermissions user scope =>
    exact spares_of_meets ((Query.membership_meets loads user).bind fun m _ =>
      Query.grantedByAll_meets loads scope .empty m.roles)
  | ensurePermissions names => exact absurd (.ensurePermissions names) (idle _ _)
  | warmup names => exact absurd (.warmup names) (idle _ _)
  | warmupFromConfig =>
    cases on : r.config.warmupOnStart with
    | true => exact absurd (.warmupFromConfig on) (idle _ _)
    | false =>
      simp only [program, Resolver.warmupFromConfig, on, Bool.false_eq_true, if_false]
      trivial
  | command c => exact ⟨trivial, fun _ _ => trivial⟩

theorem Ensures.rest_spares {names : List String} {rest : Nat → Program call.Answer}
    (ensures : call.Ensures r names rest) (created : Nat) :
    (rest created).Meets Request.Spares .any fun _ => True := by
  have warms := Query.warmRoles_meets (e := .any) Request.spares_load trivial r.projection created
  cases ensures with
  | ensurePermissions _ => trivial
  | warmup _ => exact spares_of_meets warms
  | warmupFromConfig _ => exact spares_of_meets (warms.bind fun _ _ => Query.meets_done _)

end Call

namespace Phase

variable {α : Type} {phase : Phase α}

theorem turn_spares (spares : phase.Meets Request.Spares .any fun _ => True) (moment : Nat)
    (s : System) (turn : Turn) :
    (phase.turn moment s turn).1.Meets Request.Spares .any fun _ => True :=
  turn_meets spares (fun _ _ _ _ _ _ => trivial) fun _ _ _ => trivial

theorem size_spared (spares : phase.Meets Request.Spares .any fun _ => True) (moment : Nat)
    (s : System) (turn : Turn) :
    (phase.turn moment s turn).2.directory.permissions.size = s.directory.permissions.size := by
  rcases (phase.turn_turned moment turn s).directory with same | ⟨f, changed, flying⟩
  · rw [same]
  · have asked := (turn_spares spares moment s turn).asked flying
    rw [changed]
    exact s.directory.size_spared asked

end Phase

/-- A direct creation that succeeds. -/
def Move.creates {ι : Type} (d : Directory) : Move ι → Bool
  | .upkeep (.request (.createPermission name)) => (d.serve (.createPermission name)).1.isOk
  | _ => false

/-- A move lets the task at a position take a turn. -/
def Move.turns {ι : Type} (position : Nat) : Move ι → Bool
  | .turn place _ => place = position
  | _ => false

namespace World

variable {ι : Type} [DecidableEq ι] {w : World ι} {moves : Nat → Move ι}

def count (w : World ι) (moves : Nat → Move ι) (n : Nat) : Nat :=
  (w.after moves n).directory.permissions.size

/-- The move that leads on from a moment creates a permission. -/
def grows (w : World ι) (moves : Nat → Move ι) (n : Nat) : Bool :=
  w.count moves n < w.count moves (n + 1)

/-- How many permissions the task at a position has created. -/
def made (w : World ι) (moves : Nat → Move ι) (position n : Nat) : Nat :=
  Nat.count (fun t => (moves t).turns position && w.grows moves t) n

/-- How many direct creations have succeeded. -/
def direct (w : World ι) (moves : Nat → Move ι) (n : Nat) : Nat :=
  Nat.count (fun t => (moves t).creates (w.after moves t).directory) n

theorem count_succ (w : World ι) (moves : Nat → Move ι) (n : Nat) :
    w.count moves (n + 1) = w.count moves n + if w.grows moves n then 1 else 0 := by
  obtain ⟨made, registered⟩ := directory_registered w moves n
  have size : w.count moves (n + 1) = w.count moves n + if made.isSome then 1 else 0 :=
    registered.size
  unfold grows
  split at size <;> simp [size]

theorem grows_of_idle {n : Nat}
    (same : (w.after moves (n + 1)).directory = (w.after moves n).directory) :
    w.grows moves n = false := by
  simp [grows, count, same]

theorem made_succ (position n : Nat) : w.made moves position (n + 1) =
    w.made moves position n + if (moves n).turns position && w.grows moves n then 1 else 0 :=
  Nat.count_succ _ _

theorem creates_upkeep {n : Nat} {change : Upkeep} (made : moves n = .upkeep change) :
    (moves n).creates (w.after moves n).directory = w.grows moves n := by
  have registered := (w.after moves n).directory.upkeep_registered change
  have grown := registered.size_lt_iff
  have after : (w.after moves (n + 1)).directory = (w.after moves n).directory.upkeep change := by
    rw [World.after, made]
    rfl
  simp only [grows, count, after, made]
  rw [Bool.eq_iff_iff, decide_eq_true_eq, grown]
  cases change with
  | request request =>
    cases request with
    | createPermission name =>
      simp only [Move.creates, Directory.created?]
      cases ((w.after moves n).directory.serve (.createPermission name)).1 <;> rfl
    | _ => rfl
  | _ => rfl

theorem length_tasks_le (n : Nat) :
    (w.after moves n).tasks.length ≤ (w.after moves (n + 1)).tasks.length := by
  apply Nat.not_lt.1
  intro fewer
  have last : (w.after moves n).tasks[(w.after moves (n + 1)).tasks.length]? = some _ :=
    List.getElem?_eq_getElem fewer
  rcases task_at n (moves n) last with ⟨_, there⟩ | ⟨_, _, there⟩ <;>
    exact Nat.lt_irrefl _ (List.getElem?_eq_some_iff.1 there).1

/-- Whatever a move creates is created by a turn of one task, or directly. -/
theorem grows_shared (n : Nat) {limit : Nat} (enough : (w.after moves n).tasks.length ≤ limit) :
    (if w.grows moves n then 1 else 0) =
      (∑ position ∈ Finset.range limit,
        if (moves n).turns position && w.grows moves n then 1 else 0) +
      if (moves n).creates (w.after moves n).directory then 1 else 0 := by
  have idle {move : Move ι} (made : moves n = move)
      (same : ((w.after moves n).step n move).directory = (w.after moves n).directory) :
      w.grows moves n = false := grows_of_idle (by rw [after, made, same])
  cases made : moves n with
  | turn place turn =>
    -- one summand is not zero, unless there is no task at the position
    by_cases there : place < limit
    · simp [Move.turns, Move.creates, ite_and, there]
    · have missing : (w.after moves n).tasks[place]? = none := List.getElem?_eq_none (by omega)
      simp [idle made (congrArg directory (step_turn_missing missing)), Move.creates]
  | upkeep change =>
    have same := creates_upkeep (w := w) made
    rw [made] at same
    simp [Move.turns, same]
  | call _ _ => simp [idle made rfl, Move.creates]
  | invalidate _ _ => simp [idle made rfl, Move.creates]
  | pause => simp [idle made rfl, Move.creates]

theorem count_eq_sum (w : World ι) (moves : Nat → Move ι) {n limit : Nat}
    (enough : (w.after moves n).tasks.length ≤ limit) :
    w.count moves n = w.count moves 0 +
      ∑ position ∈ Finset.range limit, w.made moves position n + w.direct moves n := by
  induction n with
  | zero => simp [made, direct]
  | succ n ih =>
    have before : (w.after moves n).tasks.length ≤ limit := (length_tasks_le n).trans enough
    have direct_succ : w.direct moves (n + 1) = w.direct moves n +
        if (moves n).creates (w.after moves n).directory then 1 else 0 := Nat.count_succ _ _
    rw [count_succ, ih before, grows_shared n before, direct_succ]
    simp only [made_succ, Finset.sum_add_distrib]
    omega

theorem grows_of_free {position n : Nat} (free : (w.after moves n).tasks[position]? = none)
    (turns : (moves n).turns position = true) : w.grows moves n = false := by
  cases made : moves n with
  | turn place turn =>
    obtain rfl : place = position := by simpa [made, Move.turns] using turns
    apply grows_of_idle
    rw [after, made, step_turn_missing free]
  | _ => simp [made, Move.turns] at turns

theorem made_of_free {position n : Nat} (free : (w.after moves n).tasks[position]? = none) :
    w.made moves position n = 0 := by
  induction n with
  | zero => rfl
  | succ n ih =>
    have before : (w.after moves n).tasks[position]? = none :=
      List.getElem?_eq_none ((length_tasks_le n).trans (List.getElem?_eq_none_iff.1 free))
    rw [made_succ, ih before]
    cases turns : (moves n).turns position with
    | false => simp
    | true => simp [grows_of_free before turns]

theorem made_of_other {position n : Nat} (other : ∀ turn, moves n ≠ .turn position turn) :
    w.made moves position (n + 1) = w.made moves position n := by
  have skipped : (moves n).turns position = false := by
    cases made : moves n with
    | turn place turn =>
      have elsewhere : place ≠ position := fun same => other turn (by rw [made, same])
      simp [Move.turns, elsewhere]
    | _ => rfl
  simp [made_succ, skipped]

theorem made_of_turn {position n : Nat} {turn : Turn} (made : moves n = .turn position turn) :
    w.made moves position (n + 1) + w.count moves n =
      w.made moves position n + w.count moves (n + 1) := by
  have taken : (moves n).turns position = true := by simp [made, Move.turns]
  rw [made_succ, count_succ, taken, Bool.true_and]
  omega

/-- The names that the call of a task makes sure of, and what it goes on with after that. -/
def Ensures (w : World ι) (moves : Nat → Move ι) (task : Task ι) :
    List String → (Nat → Program task.call.Answer) → Prop :=
  task.call.Ensures ((w.after moves task.began).resolvers task.home)

/-- From one moment until another the directory serves requests and rejects none of some names. -/
def Accepting (w : World ι) (moves : Nat → Move ι) (names : List String) (began last : Nat) :
    Prop :=
  ∀ m, began ≤ m → m < last → (w.after moves m).directory.Accepts names

theorem accepting_of_calm {names : List String} (accepts : w.directory.Accepts names)
    (calm : ∀ n change, moves n = .upkeep change → ¬ change.Disturbs names) (began last : Nat) :
    w.Accepting moves names began last := by
  have always (m : Nat) : (w.after moves m).directory.Accepts names := by
    induction m with
    | zero => exact accepts
    | succ m ih =>
      cases directory_step (w.after moves m) m (moves m) with
      | kept same =>
        rw [after, same]
        exact ih
      | @upkept change made changed =>
        rw [after, changed]
        exact Directory.upkeep_accepts ih (calm m change made)
      | served _ _ changed =>
        rw [after, changed]
        exact Directory.serve_accepts ih _
  exact fun m _ _ => always m

def system (w : World ι) (moves : Nat → Move ι) (i : ι) (n : Nat) : System :=
  ⟨(w.after moves n).resolvers i, (w.after moves n).directory⟩

theorem system_turn {position n : Nat} {turn : Turn} {task : Task ι}
    (made : moves n = .turn position turn)
    (found : (w.after moves n).tasks[position]? = some task) :
    w.system moves task.home (n + 1) =
      (task.phase.turn (n + 1) (w.system moves task.home n) turn).2 := by
  simp only [system, after, made, step_turn found, Function.update_self]

theorem system_call {n : Nat} {home : ι} {call : Call} (made : moves n = .call home call) :
    w.system moves home (n + 1) = { w.system moves home n with
      resolver := ((call.program ((w.after moves n).resolvers home)).advance (n + 1)
        ((w.after moves n).resolvers home)).2 } := by
  simp only [system, after, made, step, Function.update_self]

theorem holds_persists (fresh : w.Fresh) {sure : Prop} {names : List String} {p : Progress} {i : ι}
    {m n : Nat} (earlier : m ≤ n) (holds : p.Holds sure names (w.system moves i m)) :
    p.Holds sure names (w.system moves i n) := by
  constructor
  · intro name member
    exact catalog_contains_persists fresh earlier (holds.known name member)
  · intro certain name refused member
    obtain ⟨id, there⟩ := Table.contains_iff.1 (holds.refused certain name refused member)
    exact Table.contains_iff.2 ⟨id, permission_persists earlier there⟩

/-- The permissions that a task has created so far are those that it counts. -/
def Tracked (w : World ι) (moves : Nat → Move ι) (names : List String) (last position n : Nat)
    (task : Task ι) : Prop :=
  let sure := w.Accepting moves names task.began last
  ∃ p : Progress, task.phase.Tracks sure names (task.call.Accounts sure names) p ∧
    p.Holds sure names (w.system moves task.home n) ∧ p.created = w.made moves position n

/-- Whatever its resolver and its directory have been through, a task that makes sure of some
permissions counts those that it creates. -/
theorem tracked (fresh : w.Fresh) {n last : Nat} (within : n ≤ last) {position : Nat}
    {task : Task ι} (found : (w.after moves n).tasks[position]? = some task) {names : List String}
    {rest : Nat → Program task.call.Answer} (ensures : w.Ensures moves task names rest) :
    w.Tracked moves names last position n task := by
  revert rest within
  apply task_at_invariant (P := fun n task => n ≤ last → ∀ rest, w.Ensures moves task names rest →
    w.Tracked moves names last position n task) fresh ?begins ?stays ?turns found
  case begins =>
    intro n home call free made _ rest ensures
    have nothing : w.made moves position (n + 1) = 0 := by
      rw [made_of_other (by simp [made]), made_of_free free]
    have holds : Progress.start.Holds (w.Accepting moves names n last) names
        (w.system moves home n) := ⟨List.forall_mem_nil _, fun _ => List.forall_mem_nil _⟩
    obtain ⟨p, tracks, there, created⟩ := ensures.program_tracks.advance holds (n + 1)
    refine ⟨p, tracks, ?_, created.trans nothing.symm⟩
    rw [system_call made]
    exact there
  case stays =>
    intro n task _ before other within rest ensures
    obtain ⟨p, tracks, holds, created⟩ := before (by omega) rest ensures
    exact ⟨p, tracks, holds_persists fresh (Nat.le_succ n) holds,
      created.trans (made_of_other other).symm⟩
  case turns =>
    intro n task turn found before made within rest ensures
    obtain ⟨p, tracks, holds, created⟩ := before (by omega) rest ensures
    -- the turn is taken in the directory of moment `n`, which lies between `began` and `last`
    have began := began_lt fresh (List.mem_of_getElem? found)
    obtain ⟨q, later, there, total⟩ := Phase.turn_tracks tracks holds
      (fun accepting => accepting n (Nat.le_of_lt began) within) (n + 1) turn
    rw [← system_turn made found] at there total
    have account : w.made moves position (n + 1) + w.count moves n =
        w.made moves position n + w.count moves (n + 1) := made_of_turn made
    change q.created + w.count moves n = p.created + w.count moves (n + 1) at total
    exact ⟨q, later, there, by omega⟩

theorem made_of_spares {position n : Nat} {turn : Turn} {task : Task ι}
    (made : moves n = .turn position turn)
    (found : (w.after moves n).tasks[position]? = some task)
    (spares : task.phase.Meets Request.Spares .any fun _ => True) :
    w.made moves position (n + 1) = w.made moves position n := by
  have account : w.made moves position (n + 1) + w.count moves n =
      w.made moves position n + w.count moves (n + 1) := made_of_turn made
  have same := Phase.size_spared spares (n + 1) (w.system moves task.home n) turn
  rw [← system_turn made found] at same
  change w.count moves (n + 1) = w.count moves n at same
  omega

theorem made_of_idle (fresh : w.Fresh) {n position : Nat} {task : Task ι}
    (found : (w.after moves n).tasks[position]? = some task)
    (idle : ∀ names rest, ¬ w.Ensures moves task names rest) : w.made moves position n = 0 := by
  suffices both : (task.phase.Meets Request.Spares .any fun _ => True) ∧
      w.made moves position n = 0 from both.2
  revert idle
  apply task_at_invariant (P := fun n task => (∀ names rest, ¬ w.Ensures moves task names rest) →
    (task.phase.Meets Request.Spares .any fun _ => True) ∧ w.made moves position n = 0)
    fresh ?begins ?stays ?turns found
  case begins =>
    intro n home call free made idle
    have spares := Call.program_spares idle
    exact ⟨spares.advance_meets (fun _ _ _ => trivial) (n + 1), by
      rw [made_of_other (by simp [made]), made_of_free free]⟩
  case stays =>
    intro n task _ before other idle
    obtain ⟨spares, none⟩ := before idle
    exact ⟨spares, (made_of_other other).trans none⟩
  case turns =>
    intro n task turn found before made idle
    obtain ⟨spares, none⟩ := before idle
    exact ⟨Phase.turn_spares spares _ _ _, (made_of_spares made found spares).trans none⟩

/-- Once a task has gone on to work that creates no permission, it creates none. -/
theorem made_of_passed {m n position : Nat} {task : Task ι} (later : m ≤ n)
    (found : (w.after moves m).tasks[position]? = some task)
    (spares : task.phase.Meets Request.Spares .any fun _ => True) :
    w.made moves position n = w.made moves position m := by
  suffices both : w.made moves position n = w.made moves position m ∧ ∃ now,
      (w.after moves n).tasks[position]? = some now ∧
      now.phase.Meets Request.Spares .any fun _ => True from both.1
  induction later with
  | refl => exact ⟨rfl, task, found, spares⟩
  | @step n _ ih =>
    obtain ⟨same, now, there, spares⟩ := ih
    rcases task_at n (moves n) there with ⟨other, still⟩ | ⟨turn, made, turned⟩
    · exact ⟨(made_of_other other).trans same, now, still, spares⟩
    · exact ⟨(made_of_spares made there spares).trans same, _, turned,
        Phase.turn_spares spares _ _ _⟩

end World

end Authorization
