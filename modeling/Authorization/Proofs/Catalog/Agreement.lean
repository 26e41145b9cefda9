import Authorization.Proofs.Catalog.Accounting

namespace Authorization

namespace World

variable {ι : Type} [DecidableEq ι] {w : World ι} {moves : Nat → Move ι}

/-- Some names have been made sure of for a resolver: the number of permissions created for that is
in the answer to the call, or the call has gone on with it. -/
inductive Returned (w : World ι) (moves : Nat → Move ι) (n position : Nat) (home : ι)
    (names : List String) (created : Nat) : Prop where
  | answered {task : Task ι} {rest : Nat → Program task.call.Answer} {answer : task.call.Answer}
    (found : (w.after moves n).tasks[position]? = some task) (here : task.home = home)
    (ensures : w.Ensures moves task names rest) (ended : task.phase = .finished answer)
    (counted : task.call.count? answer = some created) :
    Returned w moves n position home names created
  | passed {m : Nat} {task : Task ι} {rest : Nat → Program task.call.Answer} {moment : Nat}
    {r : Resolver} (earlier : m ≤ n) (found : (w.after moves m).tasks[position]? = some task)
    (here : task.home = home) (ensures : w.Ensures moves task names rest)
    (gone : task.phase = ((rest created).advance moment r).1) :
    Returned w moves n position home names created

/-- All catalogs agree with the directory, in which every permission was created once. -/
structure Agreement (w : World ι) (moves : Nat → Move ι) (n : Nat) : Prop where
  kept : ∀ m ≤ n, ∀ name id, (w.after moves m).directory.permissions.find? name = some id →
    (w.after moves n).directory.permissions.find? name = some id
  recorded : ∀ i name id, ((w.after moves n).resolvers i).catalog.find? name = some id →
    (w.after moves n).directory.permissions.find? name = some id
  grown : ∀ m ≤ n, ∀ i name id, ((w.after moves m).resolvers i).catalog.find? name = some id →
    ((w.after moves n).resolvers i).catalog.find? name = some id
  ensured : ∀ position home names created, w.Returned moves n position home names created →
    ∀ name ∈ names, ((w.after moves n).resolvers home).catalog.contains name = true
  succeeds : ∀ (position : Nat) (task : Task ι) names rest answer,
    (w.after moves n).tasks[position]? = some task →
    w.Ensures moves task names rest → task.phase = .finished answer →
    w.Accepting moves names task.began n → ∃ created, task.call.count? answer = some created
  returns : ∀ (position : Nat) home call began phase names rest,
    (w.after moves n).tasks[position]? = some ⟨home, call, began, phase⟩ →
    w.Ensures moves ⟨home, call, began, phase⟩ names rest → Fair moves position →
    (∀ last, w.Accepting moves names began last) → ∃ m ≥ n, ∃ answer created,
      (w.after moves m).tasks[position]? = some ⟨home, call, began, .finished answer⟩ ∧
      call.count? answer = some created
  balanced : ∀ counts : Nat → Nat,
    (∀ (position : Nat) (task : Task ι), (w.after moves n).tasks[position]? = some task →
      (∃ home names, w.Returned moves n position home names (counts position)) ∨
        (∀ names rest, ¬ w.Ensures moves task names rest) ∧ counts position = 0) →
    ∑ position ∈ Finset.range (w.after moves n).tasks.length, counts position + w.direct moves n =
      (w.after moves n).directory.permissions.size
  counted : (w.after moves n).directory.permissionsCreated =
    .ofNat (w.after moves n).directory.permissions.size

theorem returned_ensured (fresh : w.Fresh) {n position created : Nat} {home : ι}
    {names : List String} (returned : w.Returned moves n position home names created) :
    (∀ name ∈ names, ((w.after moves n).resolvers home).catalog.contains name = true) ∧
      w.made moves position n = created := by
  cases returned with
  | answered found here ensures ended counted =>
    subst here
    obtain ⟨p, tracks, holds, made⟩ := tracked fresh (Nat.le_refl n) found ensures
    rw [ended] at tracks
    simp only [Phase.Tracks, Call.Accounts, counted] at tracks
    exact ⟨fun name member => holds.known name (tracks.known name member),
      made.symm.trans tracks.created⟩
  | @passed m task rest moment r earlier found here ensures gone =>
    subst here
    obtain ⟨p, tracks, holds, made⟩ := tracked fresh (Nat.le_refl m) found ensures
    rw [gone] at tracks
    have ensured := ensures.ensured tracks
    have spares : task.phase.Meets Request.Spares .any fun _ => True := by
      rw [gone]
      exact (ensures.rest_spares created).advance_meets (fun _ _ _ => trivial) moment
    have there := holds_persists fresh earlier holds
    exact ⟨fun name member => there.known name (ensured.known name member),
      (made_of_passed earlier found spares).trans (made.symm.trans ensured.created)⟩

theorem succeeds_of_accepting (fresh : w.Fresh) {n position : Nat} {task : Task ι}
    {names : List String} {rest : Nat → Program task.call.Answer} {answer : task.call.Answer}
    (found : (w.after moves n).tasks[position]? = some task)
    (ensures : w.Ensures moves task names rest) (ended : task.phase = .finished answer)
    (accepting : w.Accepting moves names task.began n) :
    ∃ created, task.call.count? answer = some created := by
  obtain ⟨p, tracks, _, _⟩ := tracked fresh (Nat.le_refl n) found ensures
  rw [ended] at tracks
  cases counted : task.call.count? answer with
  | some created => exact ⟨created, rfl⟩
  | none =>
    simp only [Phase.Tracks, Call.Accounts, counted] at tracks
    exact absurd accepting tracks

/-- Permission catalogs agree with the directory, and each permission is created once, however
calls, direct creations, rejections and outages are interleaved. -/
theorem catalogs_agree (fresh : w.Fresh) (start : w.directory = .empty) (n : Nat) :
    w.Agreement moves n where
  kept _ earlier _ _ there := permission_persists earlier there
  recorded _ _ _ held := catalog_recorded fresh held
  grown _ earlier _ _ _ held := catalog_persists fresh earlier held
  ensured _ _ _ _ returned := (returned_ensured fresh returned).1
  succeeds _ _ _ _ _ found ensures ended accepting :=
    succeeds_of_accepting fresh found ensures ended accepting
  returns position home call began phase names rest found ensures fair accepting := by
    obtain ⟨m, later, answer, ended⟩ := ends_of_fair fresh fair found
    obtain ⟨created, counted⟩ := succeeds_of_accepting fresh ended ensures rfl (accepting m)
    exact ⟨m, later, answer, created, ended, counted⟩
  balanced counts returned := by
    have each : ∀ position ∈ Finset.range (w.after moves n).tasks.length,
        counts position = w.made moves position n := by
      intro position bound
      have found := List.getElem?_eq_getElem (Finset.mem_range.1 bound)
      rcases returned position _ found with ⟨home, names, returned⟩ | ⟨idle, none⟩
      · exact (returned_ensured fresh returned).2.symm
      · rw [none, made_of_idle fresh found idle]
    have empty : w.count moves 0 = 0 := by
      rw [count, after, start]
      rfl
    have total := count_eq_sum w moves (Nat.le_refl (w.after moves n).tasks.length)
    rw [Finset.sum_congr rfl each]
    change w.count moves n = _ at total
    rw [empty, Nat.zero_add] at total
    exact total.symm
  counted := by
    have first : w.directory.Counted := by
      rw [start]
      rfl
    exact counted_after first n

def shared : World Bool where
  directory := .empty
  resolvers home := { Resolver.sample with projection := if home then some .directory else none }
  tasks := []

/-- Two resolvers want the same permission, and an outage ends the warmup of the one that creates
it. -/
def contended : List (Move Bool) :=
  [.call false (.ensurePermissions ["a", "b"]), .turn 0 (.serve 0), .turn 0 (.resume 0),
    .call true (.warmup ["b"]), .turn 1 (.serve 0), .turn 1 (.resume 0),
    .turn 0 (.serve 0), .turn 0 (.resume 0), .turn 1 (.serve 0),
    .upkeep (.request (.createPermission "c")), .turn 0 (.serve 0), .turn 0 (.resume 0),
    .turn 0 (.serve 0), .turn 0 (.resume 0), .turn 1 (.resume 0),
    .upkeep (.setAvailable false), .turn 1 (.serve 0), .turn 1 (.resume 0)]

def unhurried : Nat → Move Bool
  | 0 => .call false (.ensurePermissions ["a", "b"])
  | n + 1 => .turn 0 (if n % 3 = 0 then .launch else if n % 3 = 1 then .serve 0 else .resume 0)

theorem fair_unhurried : Fair unhurried 0 := by
  intro turn member n
  simp only [List.mem_cons, List.not_mem_nil, or_false] at member
  rcases member with rfl | rfl | rfl
  · exact ⟨3 * n + 1, by omega, by simp [unhurried]⟩
  · exact ⟨3 * n + 2, by omega, by simp [unhurried, Nat.add_mod]⟩
  · exact ⟨3 * n + 3, by omega, by simp [unhurried, Nat.add_mod]⟩

theorem catalogs_agree_shared :
    (∀ name ∈ ["a", "b"],
      ((shared.after (schedule contended) 18).resolvers false).catalog.contains name = true) ∧
    1 + 1 + shared.direct (schedule contended) 18 =
      (shared.after (schedule contended) 18).directory.permissions.size ∧
    ∃ m answer created, (shared.after unhurried m).tasks[0]? =
        some ⟨false, .ensurePermissions ["a", "b"], 0, .finished answer⟩ ∧
      (Call.ensurePermissions ["a", "b"]).count? answer = some created := by
  have fresh : shared.Fresh := ⟨fun _ => ⟨⟨1, 1, false, []⟩, _, rfl⟩, rfl⟩
  have agreement : shared.Agreement (schedule contended) 18 := catalogs_agree fresh rfl 18
  have found : (shared.after (schedule contended) 18).tasks[0]? =
    some ⟨false, .ensurePermissions ["a", "b"], 0, .finished (.ok 1)⟩ := rfl
  have first : shared.Returned (schedule contended) 18 0 false ["a", "b"] 1 :=
    .answered found rfl (.ensurePermissions _) rfl rfl
  -- the second resolver has gone on to list its roles at moment 15
  have listing : (shared.after (schedule contended) 15).tasks[1]? =
    some ⟨true, .warmup ["b"], 3, ((Query.warmRoles (some .directory) 1).run.advance 15
      ((shared.after (schedule contended) 15).resolvers true)).1⟩ := rfl
  have second : shared.Returned (schedule contended) 18 1 true ["b"] 1 :=
    .passed (by decide) listing rfl (.warmup _) rfl
  have begun : shared.Agreement unhurried 1 := catalogs_agree fresh rfl 1
  have accepting : ∀ last, shared.Accepting unhurried ["a", "b"] 0 last :=
    accepting_of_calm ⟨rfl, fun _ _ => rfl⟩ (fun n change made => by cases n <;> cases made) 0
  refine ⟨agreement.ensured 0 false _ 1 first, ?_, ?_⟩
  · refine agreement.balanced (fun _ => 1) fun position task found => .inl ?_
    match position with
    | 0 => exact ⟨_, _, first⟩
    | 1 => exact ⟨_, _, second⟩
    | _ + 2 => cases found
  · obtain ⟨m, _, answer, created, ended⟩ :=
      begun.returns 0 false _ 0 _ _ _ rfl (.ensurePermissions _) fair_unhurried accepting
    exact ⟨m, answer, created, ended⟩

end World

end Authorization
