import Authorization.Proofs.Interleaving.Recency
import Authorization.Proofs.Queries.Contract

namespace Authorization

section

variable {α : Type} {asks : Request → Prop} {e : Evidence} {result : α → Prop}

def Phase.Meets (asks : Request → Prop) (e : Evidence) (result : α → Prop) : Phase α → Prop
  | finished a => result a
  | asking flight next =>
    asks flight.request ∧
      ∀ given, e.answer flight.request given → (next given).Meets asks e result
  | loading waiting flying _ next =>
    (∀ role ∈ waiting, asks (.loadRole role)) ∧ (∀ f ∈ flying, asks (.loadRole f.role)) ∧
      ∀ loads, (next loads).Meets asks e result

theorem Phase.Meets.asked {phase : Phase α} (meets : phase.Meets asks e result) {f : Flight}
    (flying : f ∈ phase.flights) : asks f.request := by
  cases phase with
  | finished _ => cases flying
  | asking flight next =>
    obtain rfl := List.mem_singleton.1 flying
    exact meets.1
  | loading waiting loads _ next =>
    obtain ⟨load, member, rfl⟩ := List.mem_map.1 flying
    exact meets.2.1 load member

theorem Program.Meets.advance_meets {p : Program α} {r : Resolver} (meets : p.Meets asks e result)
    (cached : ∀ k v, r.cached? k = some v → e.snapshot k v) (moment : Nat) :
    (p.advance moment r).1.Meets asks e result := by
  induction p generalizing r with
  | done a => exact meets
  | act a next ih =>
    have kept : ∀ k v, (r.perform a).2.cached? k = some v → e.snapshot k v := by
      intro k v held
      rw [(r.perform_agrees a).cached] at held
      exact cached k v held
    exact ih _ (meets _ (Evidence.finds_perform cached a)) kept
  | ask request next _ => exact meets
  | loadRoles roles next ih =>
    cases roles with
    | nil => exact ih [] (meets.2 []) cached
    | cons role roles => exact ⟨meets.1, List.forall_mem_nil _, meets.2⟩

namespace Phase

theorem launch_meets {phase : Phase α} (meets : phase.Meets asks e result) (moment : Nat)
    (r : Resolver) : (phase.launch moment r).Meets asks e result := by
  cases phase with
  | finished _ => exact meets
  | asking _ _ => exact meets
  | loading waiting flying loads next =>
    cases waiting with
    | nil => exact meets
    | cons role waiting =>
      obtain ⟨ahead, under, rest⟩ := meets
      simp only [launch]
      split
      · have launched : ∀ f ∈ flying ++ [⟨role, r.epochs, moment, none⟩],
            asks (.loadRole f.role) := by
          intro f member
          rcases List.mem_append.1 member with old | new
          · exact under f old
          · obtain rfl := List.mem_singleton.1 new
            exact ahead role List.mem_cons_self
        exact ⟨fun x member => ahead x (List.mem_cons_of_mem _ member), launched, rest⟩
      · exact ⟨ahead, under, rest⟩

theorem serve_meets {phase : Phase α} (meets : phase.Meets asks e result) (index : Nat)
    (d : Directory) : (phase.serve index d).1.Meets asks e result := by
  cases phase with
  | finished _ => exact meets
  | asking flight next =>
    simp only [serve]
    split <;> exact meets
  | loading waiting flying loads next =>
    obtain ⟨ahead, under, rest⟩ := meets
    simp only [serve]
    split
    · exact ⟨ahead, under, rest⟩
    · rename_i f found
      split
      · have served : ∀ answer, ∀ g ∈ flying.set index { f with answer := answer },
            asks (.loadRole g.role) := by
          intro answer g member
          rcases List.mem_or_eq_of_mem_set member with old | rfl
          · exact under g old
          · exact under f (List.mem_of_getElem? found)
        exact ⟨ahead, served _, rest⟩
      · exact ⟨ahead, under, rest⟩

theorem resume_meets {phase : Phase α} (meets : phase.Meets asks e result) {moment index : Nat}
    {r : Resolver}
    (arrives : ∀ f given, phase.flights[index]? = some f → f.answer = some given →
      e.answer f.request given)
    (cached : ∀ k v, (phase.resume moment index r).2.cached? k = some v → e.snapshot k v) :
    (phase.resume moment index r).1.Meets asks e result := by
  have goesOn {p : Program α} {r : Resolver} (rest : p.Meets asks e result)
      (cached : ∀ k v, (p.advance moment r).2.cached? k = some v → e.snapshot k v) :
      (p.advance moment r).1.Meets asks e result := by
    have before : ∀ k v, r.cached? k = some v → e.snapshot k v := by
      intro k v held
      rw [← (p.advance_starts moment r).1.cached] at held
      exact cached k v held
    exact rest.advance_meets before moment
  cases phase with
  | finished _ => exact meets
  | asking flight next =>
    simp only [resume] at cached ⊢
    split at cached
    · rename_i given answered
      exact goesOn (meets.2 given (arrives flight given rfl answered)) cached
    · exact meets
  | loading waiting flying loads next =>
    obtain ⟨ahead, under, rest⟩ := meets
    simp only [resume] at cached ⊢
    split at cached
    · exact ⟨ahead, under, rest⟩
    · split at cached
      · exact ⟨ahead, under, rest⟩
      · split at cached
        · rename_i last
          rw [if_pos last]
          exact goesOn (rest _) cached
        · rename_i last
          rw [if_neg last]
          exact ⟨ahead, fun f member => under f (List.mem_of_mem_eraseIdx member), rest⟩

/-- A turn leaves work that meets its contract, as long as what it brings is known. -/
theorem turn_meets {phase : Phase α} (meets : phase.Meets asks e result) {moment : Nat}
    {s : System} {turn : Turn}
    (arrives : ∀ index f given, turn = .resume index → phase.flights[index]? = some f →
      f.answer = some given → e.answer f.request given)
    (cached : ∀ k v, (phase.turn moment s turn).2.resolver.cached? k = some v → e.snapshot k v) :
    (phase.turn moment s turn).1.Meets asks e result := by
  cases turn with
  | launch => exact launch_meets meets moment s.resolver
  | serve index => exact serve_meets meets index s.directory
  | resume index => exact resume_meets meets (fun f given => arrives index f given rfl) cached

end Phase

end

namespace World

variable {ι : Type} [DecidableEq ι] {w : World ι} {moves : Nat → Move ι}

/-- What a call that began at a moment can have been given until a later moment: snapshots that
were on record since the latest invalidation before it began, and answers that were served after it
began and before they reached its resolver. -/
def evidence (w : World ι) (moves : Nat → Move ι) (i : ι) (began last : Nat) : Evidence where
  snapshot k v := ∃ m ≤ last, w.Follows moves i k began m ∧
    (w.after moves m).directory.snapshot? k = some v
  answer request given := ∃ m t, began < m ∧ m < t ∧ t < last ∧
    (w.after moves m).directory.serve request = (given, (w.after moves (m + 1)).directory) ∧
    ∀ what, request.invalidation? given = some what →
      (w.after moves t).invalidation? (moves t) = some (i, what)
  brings := by
    rintro request given k v ⟨m, t, later, earlier, within, served, _⟩ brought
    have answered : ((w.after moves m).directory.serve request).1 = given :=
      congrArg Prod.fst served
    rw [← answered] at brought
    exact ⟨m, by omega, fun _ before _ => by omega, Directory.snapshot?_of_serve brought⟩

theorem known_of_cached (fresh : w.Fresh) (calm : w.Calm moves) {i : ι} {began n last : Nat}
    (before : began ≤ n) (within : n ≤ last) (k : Key) (v : k.Snapshot)
    (held : ((w.after moves n).resolvers i).cached? k = some v) :
    (w.evidence moves i began last).snapshot k v := by
  obtain ⟨m, earlier, latest, there⟩ := cached_recent fresh calm held
  exact ⟨m, by omega, fun t first hit => latest t (by omega) hit, there⟩

theorem known_of_answer (fresh : w.Fresh) {n last position index : Nat} {task : Task ι} {f : Flight}
    {given : Except Error f.request.Answer} (made : moves n = .turn position (.resume index))
    (found : (w.after moves n).tasks[position]? = some task)
    (flying : task.phase.flights[index]? = some f) (answered : f.answer = some given)
    (within : n < last) : (w.evidence moves task.home task.began last).answer f.request given := by
  have when := dated fresh (List.mem_of_getElem? found) (List.mem_of_getElem? flying)
  obtain ⟨m, later, earlier, served, changed⟩ := when.served (by simp [answered])
  have since := when.began_lt
  rw [answered] at served
  have serves : (w.after moves m).directory.serve f.request =
      (given, (w.after moves (m + 1)).directory) := by
    rw [changed, Option.some.inj served]
  have completes : ∀ what, f.request.invalidation? given = some what →
      (w.after moves n).invalidation? (moves n) = some (task.home, what) := by
    intro what owed
    rw [made, invalidation?_resume found, flying, Option.bind_some, Flight.invalidation?, answered,
      Option.bind_some, owed, Option.map_some]
  exact ⟨m, n, by omega, earlier, within, serves, completes⟩

/-- Calls keep to whatever contracts their programs meet, if whatever is cached and whatever is
answered up to a moment is known. -/
theorem tasks_meet_of {asks : ι → Call → Request → Prop} {e : ι → Nat → Evidence}
    {result : (home : ι) → Nat → (call : Call) → call.Answer → Prop} {last : Nat} (fresh : w.Fresh)
    (begins : ∀ n home (call : Call), (call.program ((w.after moves n).resolvers home)).Meets
      (asks home call) (e home n) (result home n call))
    (cached : ∀ i began n, began ≤ n → n ≤ last → ∀ k v,
      ((w.after moves n).resolvers i).cached? k = some v → (e i began).snapshot k v)
    (arrives : ∀ n position index (task : Task ι) (f : Flight) given,
      moves n = .turn position (.resume index) → (w.after moves n).tasks[position]? = some task →
      task.phase.flights[index]? = some f → f.answer = some given → n < last →
      (e task.home task.began).answer f.request given)
    {n : Nat} (within : n ≤ last) {task : Task ι} (member : task ∈ (w.after moves n).tasks) :
    task.phase.Meets (asks task.home task.call) (e task.home task.began)
      (result task.home task.began task.call) := by
  revert within
  apply task_invariant (P := fun n task => n ≤ last →
    task.phase.Meets (asks task.home task.call) (e task.home task.began)
      (result task.home task.began task.call)) fresh ?_ member
  intro n before task made within
  cases made with
  | kept old => exact before task old (by omega)
  | @begun home call made =>
    exact (begins n home call).advance_meets (cached home n n (Nat.le_refl n) (by omega)) (n + 1)
  | @turned position turn task made found =>
    have there := List.mem_of_getElem? found
    have began := began_lt fresh there
    apply Phase.turn_meets (before task there (by omega))
    · rintro index f given rfl flying answered
      exact arrives n position index task f given made found flying answered (by omega)
    · intro k v held
      have known := cached task.home task.began (n + 1) (by omega) within k v
      rw [after, made, step_turn found] at known
      simp only [Function.update_self] at known
      exact known held

theorem task_meets_of {e : ι → Nat → Evidence} {last : Nat} (fresh : w.Fresh)
    (cached : ∀ i began n, began ≤ n → n ≤ last → ∀ k v,
      ((w.after moves n).resolvers i).cached? k = some v → (e i began).snapshot k v)
    (arrives : ∀ n position index (task : Task ι) (f : Flight) given,
      moves n = .turn position (.resume index) → (w.after moves n).tasks[position]? = some task →
      task.phase.flights[index]? = some f → f.answer = some given → n < last →
      (e task.home task.began).answer f.request given)
    {n : Nat} (within : n ≤ last) {task : Task ι} (member : task ∈ (w.after moves n).tasks) :
    task.phase.Meets task.call.Asks (e task.home task.began)
      (task.call.Supported (e task.home task.began)) := by
  have begins (n : Nat) (home : ι) (call : Call) :
      (call.program ((w.after moves n).resolvers home)).Meets call.Asks (e home n)
        (call.Supported (e home n)) := call.program_meets (e home n) _
  exact tasks_meet_of fresh begins cached arrives within member

/-- Whatever its resolver and its directory have been through, a call keeps to its contract. -/
theorem task_meets (fresh : w.Fresh) (calm : w.Calm moves) {n last : Nat} (within : n ≤ last)
    {task : Task ι} (member : task ∈ (w.after moves n).tasks) :
    task.phase.Meets task.call.Asks (w.evidence moves task.home task.began last)
      (task.call.Supported (w.evidence moves task.home task.began last)) :=
  task_meets_of (e := fun i began => w.evidence moves i began last) fresh
    (fun _ _ _ before inside => known_of_cached fresh calm before inside)
    (fun _ _ _ _ _ _ made found flying answered inside =>
      known_of_answer fresh made found flying answered inside) within member

end World

end Authorization
