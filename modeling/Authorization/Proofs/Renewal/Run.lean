import Authorization.Proofs.Renewal.Twin
import Mathlib.Data.List.Forall2

namespace Authorization

section

variable {α β : Type} {R : α → β → Prop} {xs : List α} {ys : List β}

theorem forall₂_getElem? (related : List.Forall₂ R xs ys) (p : Nat) :
    (xs[p]? = none ∧ ys[p]? = none) ∨ ∃ x y, xs[p]? = some x ∧ ys[p]? = some y ∧ R x y := by
  induction related generalizing p with
  | nil => exact .inl ⟨rfl, rfl⟩
  | cons first rest ih =>
    cases p with
    | zero => exact .inr ⟨_, _, rfl, rfl, first⟩
    | succ p => exact ih p

theorem forall₂_set (related : List.Forall₂ R xs ys) {x : α} {y : β} (new : R x y) (p : Nat) :
    List.Forall₂ R (xs.set p x) (ys.set p y) := by
  induction related generalizing p with
  | nil => exact .nil
  | cons first rest ih =>
    cases p with
    | zero => exact .cons new rest
    | succ p => exact .cons first (ih p)

end

variable {ι : Type}

/-- The same call on one resolver and on its twin, or on another resolver that both worlds share. -/
inductive Task.Twin (i : ι) (more : Epochs) : Task ι → Task ι → Prop where
  | here {call : Call} {began : Nat} {P Q : Phase call.Answer} (phases : P.Twin more Q) :
    Twin i more ⟨i, call, began, P⟩ ⟨i, call, began, Q⟩
  | elsewhere {task : Task ι} (other : task.home ≠ i) : Twin i more task task

namespace World

/-- Two worlds that differ in one resolver only, which is a twin of the other. Calls on it that are
ever gone on with heed the catalog. -/
structure Twin (i : ι) (more : Carried) (known : Table String PermissionId) (live : Nat → Prop)
    (a b : World ι) : Prop where
  directory : a.directory = b.directory
  records : b.directory.Records known
  others : ∀ j, j ≠ i → a.resolvers j = b.resolvers j
  home : (a.resolvers i).Twin more known (b.resolvers i)
  tasks : List.Forall₂ (Task.Twin i more.epochs) a.tasks b.tasks
  heeds : ∀ p task, live p → b.tasks[p]? = some task → task.home = i →
    task.phase.Heeds known ((a.resolvers i).catalog = (b.resolvers i).catalog)

/-- A move by which a resolver takes in a listing of the permissions. -/
def Relists (w : World ι) (i : ι) (move : Move ι) : Prop :=
  ∃ position index task f, move = .turn position (.resume index) ∧
    w.tasks[position]? = some task ∧ task.home = i ∧ task.phase.flights[index]? = some f ∧ f.Lists

variable {i : ι} {more : Carried} {known : Table String PermissionId} {live : Nat → Prop}
  {a b : World ι}

variable [DecidableEq ι]

theorem call_origin {w : World ι} {n p : Nat} {home : ι} {call : Call} {task : Task ι}
    (found : (w.step n (.call home call)).tasks[p]? = some task) :
    w.tasks[p]? = some task ∨ task = ⟨home, call, n,
      ((call.program (w.resolvers home)).advance (n + 1) (w.resolvers home)).1⟩ := by
  cases before : w.tasks[p]? with
  | none =>
    obtain ⟨_, _, made, begun⟩ := task_begun before found
    cases made
    exact .inr begun
  | some old =>
    rcases task_at n (.call home call) before with ⟨_, still⟩ | ⟨_, made, _⟩
    · exact .inl (still.symm.trans found)
    · cases made

theorem turn_origin {w : World ι} {n p q : Nat} {turn : Turn} {task later : Task ι}
    (turned : w.tasks[p]? = some task)
    (found : (w.step n (.turn p turn)).tasks[q]? = some later) :
    w.tasks[q]? = some later ∨ later = { task with
      phase := (task.phase.turn (n + 1) ⟨w.resolvers task.home, w.directory⟩ turn).1 } := by
  rw [step_turn turned] at found
  by_cases same : p = q
  · subst same
    rw [List.getElem?_set_self (List.getElem?_eq_some_iff.1 turned).1] at found
    exact .inr (Option.some.inj found).symm
  · rw [List.getElem?_set_ne same] at found
    exact .inl found

namespace Twin

variable {c d : World ι}

/-- Worlds stay twins when some work goes on on a resolver that they share. -/
theorem elsewhere (twin : Twin i more known live a b) (directory : c.directory = d.directory)
    (records : d.directory.Records known) {home : ι} (away : home ≠ i) {r : Resolver}
    (left : c.resolvers = Function.update a.resolvers home r)
    (right : d.resolvers = Function.update b.resolvers home r)
    (tasks : List.Forall₂ (Task.Twin i more.epochs) c.tasks d.tasks)
    (origin : ∀ (p : Nat) (task : Task ι), d.tasks[p]? = some task →
      b.tasks[p]? = some task ∨ task.home = home) :
    Twin i more known live c d ∧
      ((a.resolvers i).catalog = (b.resolvers i).catalog →
        (c.resolvers i).catalog = (d.resolvers i).catalog) := by
  have unmoved : c.resolvers i = a.resolvers i := by
    rw [left, Function.update_of_ne (Ne.symm away)]
  have unmovedToo : d.resolvers i = b.resolvers i := by
    rw [right, Function.update_of_ne (Ne.symm away)]
  rw [unmoved, unmovedToo]
  refine ⟨?_, id⟩
  constructor
  · exact directory
  · exact records
  · intro j other
    rw [left, right]
    by_cases moved : j = home
    · rw [moved, Function.update_self, Function.update_self]
    · rw [Function.update_of_ne moved, Function.update_of_ne moved, twin.others j other]
  · rw [unmoved, unmovedToo]
    exact twin.home
  · exact tasks
  · intro p task alive found atHome
    rw [unmoved, unmovedToo]
    rcases origin p task found with old | moved
    · exact twin.heeds p task alive old atHome
    · exact absurd (moved.symm.trans atHome) away

/-- Worlds stay twins when the same work goes on on both twins. -/
theorem here (twin : Twin i more known live a b) (directory : c.directory = d.directory)
    (records : d.directory.Records known) {call : Call} {began : Nat} {P Q : Phase call.Answer}
    {r s : Resolver} (left : c.resolvers = Function.update a.resolvers i r)
    (right : d.resolvers = Function.update b.resolvers i s) (paired : P.Paired more known r Q s)
    (synced : (a.resolvers i).catalog = (b.resolvers i).catalog → r.catalog = s.catalog)
    (tasks : List.Forall₂ (Task.Twin i more.epochs) c.tasks d.tasks)
    (origin : ∀ (p : Nat) (task : Task ι), d.tasks[p]? = some task →
      b.tasks[p]? = some task ∨ task = ⟨i, call, began, Q⟩) : Twin i more known live c d := by
  constructor
  · exact directory
  · exact records
  · intro j other
    rw [left, right, Function.update_of_ne other, Function.update_of_ne other]
    exact twin.others j other
  · rw [left, right, Function.update_self, Function.update_self]
    exact paired.resolvers
  · exact tasks
  · intro p task alive found home
    rw [left, right, Function.update_self, Function.update_self]
    rcases origin p task found with old | rfl
    · exact (twin.heeds p task alive old home).mono synced
    · exact paired.heeds

theorem records_step (twin : Twin i more known live a b) (n : Nat) (move : Move ι) :
    (b.step n move).directory.Records known := by
  obtain ⟨_, registered⟩ := step_registered b n move
  intro name id held
  exact registered.find? (twin.records name id held)

theorem call (twin : Twin i more known live a b) (n : Nat) (home : ι) (call : Call) :
    Twin i more known live (a.step n (.call home call)) (b.step n (.call home call)) ∧
      ((a.resolvers i).catalog = (b.resolvers i).catalog →
        ((a.step n (.call home call)).resolvers i).catalog =
          ((b.step n (.call home call)).resolvers i).catalog) := by
  have records := twin.records_step n (.call home call)
  by_cases here : home = i
  · subst here
    obtain ⟨paired, synced⟩ := twin.home.begins (n + 1) call
    have tasks : List.Forall₂ (Task.Twin home more.epochs) (a.step n (.call home call)).tasks
        (b.step n (.call home call)).tasks :=
      List.rel_append twin.tasks (.cons (.here paired.phases) .nil)
    constructor
    · exact twin.here twin.directory records rfl rfl paired synced tasks fun _ _ => call_origin
    · simp only [step, Function.update_self]
      exact synced
  · have shared := twin.others home here
    have tasks : List.Forall₂ (Task.Twin i more.epochs) (a.step n (.call home call)).tasks
        (b.step n (.call home call)).tasks := by
      simp only [step, shared]
      exact List.rel_append twin.tasks (.cons (.elsewhere here) .nil)
    refine twin.elsewhere twin.directory records here rfl ?_ tasks fun p task found => ?_
    · rw [shared]
      rfl
    · exact (call_origin found).imp id (congrArg Task.home)

theorem turn_here (twin : Twin i more known live a b) (n : Nat) (turn : Turn) {p : Nat}
    (alive : live p) {call : Call} {began : Nat} {P Q : Phase call.Answer}
    (left : a.tasks[p]? = some ⟨i, call, began, P⟩) (right : b.tasks[p]? = some ⟨i, call, began, Q⟩)
    (phases : P.Twin more.epochs Q) :
    Twin i more known live (a.step n (.turn p turn)) (b.step n (.turn p turn)) ∧
      ((a.resolvers i).catalog = (b.resolvers i).catalog ∨ b.Relists i (.turn p turn) →
        ((a.step n (.turn p turn)).resolvers i).catalog =
          ((b.step n (.turn p turn)).resolvers i).catalog) := by
  have paired : P.Paired more known (a.resolvers i) Q (b.resolvers i) :=
    ⟨phases, twin.home, twin.heeds p _ alive right rfl⟩
  obtain ⟨turned, directories, synced⟩ := Phase.Paired.turn
    (s := ⟨a.resolvers i, a.directory⟩) (t := ⟨b.resolvers i, b.directory⟩) paired
    twin.directory twin.records (n + 1) turn
  have records := twin.records_step n (.turn p turn)
  have origin (q : Nat) (task : Task ι)
      (found : (b.step n (.turn p turn)).tasks[q]? = some task) := turn_origin right found
  rw [step_turn left, step_turn right]
  rw [step_turn right] at records origin
  constructor
  · exact twin.here directories records rfl rfl turned (fun same => synced (.inl same))
      (forall₂_set twin.tasks (.here turned.phases) p) origin
  · simp only [Function.update_self]
    intro sooner
    apply synced
    apply sooner.imp id
    intro ⟨q, index, task, f, made, found, _, flying, lists⟩
    cases made
    cases right.symm.trans found
    exact ⟨index, f, rfl, flying, lists⟩

theorem turn_elsewhere (twin : Twin i more known live a b) (n : Nat) (turn : Turn) {p : Nat}
    {task : Task ι} (left : a.tasks[p]? = some task) (right : b.tasks[p]? = some task)
    (away : task.home ≠ i) :
    Twin i more known live (a.step n (.turn p turn)) (b.step n (.turn p turn)) ∧
      ((a.resolvers i).catalog = (b.resolvers i).catalog →
        ((a.step n (.turn p turn)).resolvers i).catalog =
          ((b.step n (.turn p turn)).resolvers i).catalog) := by
  have same : task.phase.turn (n + 1) ⟨a.resolvers task.home, a.directory⟩ turn =
      task.phase.turn (n + 1) ⟨b.resolvers task.home, b.directory⟩ turn := by
    rw [twin.others task.home away, twin.directory]
  have records := twin.records_step n (.turn p turn)
  have origin (q : Nat) (later : Task ι)
      (found : (b.step n (.turn p turn)).tasks[q]? = some later) :
      b.tasks[q]? = some later ∨ later.home = task.home :=
    (turn_origin right found).imp id fun turned => by rw [turned]
  rw [step_turn right] at records origin
  rw [step_turn left, step_turn right]
  simp only [same]
  exact twin.elsewhere rfl records away rfl rfl
    (forall₂_set twin.tasks (.elsewhere (by exact away)) p) origin

/-- A turn of a call on the twins makes the same of both, and a listing brings their catalogs
together. -/
theorem turn (twin : Twin i more known live a b) (n : Nat) {p : Nat} (alive : live p)
    (turn : Turn) :
    Twin i more known live (a.step n (.turn p turn)) (b.step n (.turn p turn)) ∧
      ((a.resolvers i).catalog = (b.resolvers i).catalog ∨ b.Relists i (.turn p turn) →
        ((a.step n (.turn p turn)).resolvers i).catalog =
          ((b.step n (.turn p turn)).resolvers i).catalog) := by
  rcases forall₂_getElem? twin.tasks p with ⟨left, right⟩ | ⟨task, other, left, right, related⟩
  · rw [step_turn_missing left, step_turn_missing right]
    refine ⟨twin, (·.resolve_right ?_)⟩
    intro ⟨q, index, task, f, made, found, _⟩
    cases made
    rw [right] at found
    cases found
  · cases related with
    | here phases => exact twin.turn_here n turn alive left right phases
    | elsewhere away =>
      obtain ⟨turned, synced⟩ := twin.turn_elsewhere n turn left right away
      refine ⟨turned, fun sooner => synced (sooner.resolve_right ?_)⟩
      intro ⟨q, index, later, f, made, found, atHome, _⟩
      cases made
      cases right.symm.trans found
      exact away atHome

theorem invalidate (twin : Twin i more known live a b) (n : Nat) (home : ι) (what : Invalidation) :
    Twin i more known live (a.step n (.invalidate home what)) (b.step n (.invalidate home what)) ∧
      ((a.resolvers i).catalog = (b.resolvers i).catalog →
        ((a.step n (.invalidate home what)).resolvers i).catalog =
          ((b.step n (.invalidate home what)).resolvers i).catalog) := by
  have unchanged (w : World ι) : ((w.step n (.invalidate home what)).resolvers i).catalog =
      (w.resolvers i).catalog := by
    by_cases here : i = home
    · simp only [step, here, Function.update_self]
      exact Resolver.catalog_invalidate _ what
    · simp only [step, Function.update_of_ne here]
  constructor
  · constructor
    · exact twin.directory
    · exact twin.records
    · intro j other
      by_cases here : j = home
      · simp only [step, ← here, Function.update_self, twin.others j other]
      · simp only [step, Function.update_of_ne here, twin.others j other]
    · by_cases here : i = home
      · simp only [step, ← here, Function.update_self]
        exact twin.home.invalidate what
      · simp only [step, Function.update_of_ne here]
        exact twin.home
    · exact twin.tasks
    · rw [unchanged a, unchanged b]
      exact twin.heeds
  · rw [unchanged a, unchanged b]
    exact id

theorem step (twin : Twin i more known live a b) (n : Nat) {move : Move ι}
    (alive : ∀ p turn, move = .turn p turn → live p) :
    Twin i more known live (a.step n move) (b.step n move) ∧
      ((a.resolvers i).catalog = (b.resolvers i).catalog ∨ b.Relists i move →
        ((a.step n move).resolvers i).catalog = ((b.step n move).resolvers i).catalog) := by
  have calm (still : ∀ p turn, move ≠ .turn p turn) : ¬ b.Relists i move := by
    intro ⟨p, index, _, _, made, _⟩
    exact still p _ made
  cases move with
  | call home call =>
    obtain ⟨begun, synced⟩ := twin.call n home call
    exact ⟨begun, fun sooner => synced (sooner.resolve_right (calm nofun))⟩
  | turn p turn => exact twin.turn n (alive p turn rfl) turn
  | invalidate home what =>
    obtain ⟨invalidated, synced⟩ := twin.invalidate n home what
    exact ⟨invalidated, fun sooner => synced (sooner.resolve_right (calm nofun))⟩
  | upkeep change =>
    have directory : a.directory.upkeep change = b.directory.upkeep change := by
      rw [twin.directory]
    have records := twin.records_step n (.upkeep change)
    exact ⟨⟨directory, records, twin.others, twin.home, twin.tasks, twin.heeds⟩,
      (·.resolve_right (calm nofun))⟩
  | pause => exact ⟨twin, (·.resolve_right (calm nofun))⟩

theorem after {moves : Nat → Move ι} (twin : Twin i more known live a b)
    (alive : ∀ n p turn, moves n = .turn p turn → live p) (n : Nat) :
    Twin i more known live (a.after moves n) (b.after moves n) ∧
      ((∃ t < n, (b.after moves t).Relists i (moves t)) →
        ((a.after moves n).resolvers i).catalog = ((b.after moves n).resolvers i).catalog) := by
  induction n with
  | zero => exact ⟨twin, fun ⟨_, before, _⟩ => nomatch before⟩
  | succ n ih =>
    obtain ⟨before, synced⟩ := ih
    obtain ⟨later, brings⟩ := before.step n (alive n)
    refine ⟨later, fun ⟨t, within, relists⟩ => brings ?_⟩
    rcases Nat.lt_succ_iff_lt_or_eq.1 within with earlier | rfl
    · exact .inl (synced ⟨t, earlier, relists⟩)
    · exact .inr relists

end Twin

end World

end Authorization
