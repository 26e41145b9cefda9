import Authorization.Proofs.Identifiers.Numbering
import Authorization.Proofs.Interleaving.Handler

namespace Authorization

namespace World

variable {ι : Type} [DecidableEq ι] {w : World ι} {moves : Nat → Move ι}

/-- The counter of permission identifiers never runs over. -/
def CountsPermissions (w : World ι) (moves : Nat → Move ι) : Prop :=
  ∀ n, (w.after moves n).directory.lastPermission ≤ (w.after moves (n + 1)).directory.lastPermission

theorem countsPermissions_schedule {run : List (Move ι)}
    (within : ∀ n < run.length, (w.after (schedule run) n).directory.lastPermission ≤
      (w.after (schedule run) (n + 1)).directory.lastPermission) :
    w.CountsPermissions (schedule run) := by
  intro n
  rcases Nat.lt_or_ge n run.length with inside | beyond
  · exact within n inside
  · rw [after, schedule, List.getElem?_eq_none beyond]
    exact Std.le_refl _

/-- Users that are put on record directly are members of roles on record only. -/
def ListsRecorded (w : World ι) (moves : Nat → Move ι) : Prop :=
  ∀ n user, moves n = .upkeep (.insertUser user) →
    ∀ role ∈ user.roles, role ∈ (w.after moves n).directory.roles.keys

theorem directory_upkept (w : World ι) (moves : Nat → Move ι) (n : Nat) :
    (w.after moves (n + 1)).directory = (w.after moves n).directory ∨
      ∃ change, (w.after moves (n + 1)).directory = (w.after moves n).directory.upkeep change ∧
        ∀ user, change = .insertUser user → moves n = .upkeep (.insertUser user) := by
  cases directory_step (w.after moves n) n (moves n) with
  | kept same => exact .inl same
  | upkept made changed => exact .inr ⟨_, changed, fun user same => same ▸ made⟩
  | @served _ f _ _ changed =>
    exact .inr ⟨.request f.request, changed, fun user same => nomatch same⟩

theorem wellFormed_after (wellFormed : w.directory.WellFormed)
    (counts : w.CountsPermissions moves) (n : Nat) : (w.after moves n).directory.WellFormed := by
  induction n with
  | zero => exact wellFormed
  | succ n ih =>
    have growing := counts n
    rcases directory_upkept w moves n with same | ⟨change, changed, _⟩
    · rw [same]
      exact ih
    · rw [changed] at growing ⊢
      exact Directory.upkeep_wellFormed ih growing

theorem keys_persist (w : World ι) (moves : Nat → Move ι) {m n : Nat} (earlier : m ≤ n) :
    (w.after moves m).directory.users.keys ⊆ (w.after moves n).directory.users.keys ∧
      (w.after moves m).directory.roles.keys ⊆ (w.after moves n).directory.roles.keys := by
  induction earlier with
  | refl => exact ⟨fun _ => id, fun _ => id⟩
  | @step n _ ih =>
    rcases directory_upkept w moves n with same | ⟨change, changed, _⟩
    · rw [same]
      exact ih
    · have grown := (w.after moves n).directory.upkeep_keys_subset change
      rw [changed]
      exact ⟨List.Subset.trans ih.1 grown.1, List.Subset.trans ih.2 grown.2⟩

theorem closed_after (closed : w.directory.Closed) (lists : w.ListsRecorded moves) (n : Nat) :
    (w.after moves n).directory.Closed := by
  induction n with
  | zero => exact closed
  | succ n ih =>
    rcases directory_upkept w moves n with same | ⟨change, changed, made⟩
    · rw [same]
      exact ih
    · rw [changed]
      exact Directory.upkeep_closed ih fun user same => lists n user (made user same)

theorem cached_recorded (fresh : w.Fresh) {i : ι} {k : Key} {v : k.Snapshot} {n : Nat}
    (held : ((w.after moves n).resolvers i).cached? k = some v) :
    ∃ m ≤ n, (w.after moves m).directory.snapshot? k = some v := by
  induction n with
  | zero =>
    obtain ⟨config, projection, built⟩ := fresh.built i
    rw [after, Resolver.cached?_build built] at held
    cases held
  | succ n ih =>
    have before (held : ((w.after moves n).resolvers i).cached? k = some v) :
        ∃ m ≤ n + 1, (w.after moves m).directory.snapshot? k = some v := by
      obtain ⟨m, earlier, there⟩ := ih held
      exact ⟨m, Nat.le_succ_of_le earlier, there⟩
    cases resolver_step (w.after moves n) n (moves n) i with
    | kept _ same =>
      rw [after, same.cached] at held
      exact before held
    | invalidated what _ same =>
      rw [after, same.cached, Resolver.cached?_invalidate] at held
      split at held
      · cases held
      · exact before held
    | received _ found _ flying calm same =>
      rw [after, same.cached] at held
      rcases Resolver.cached?_receive calm held with old | ⟨brought, _⟩
      · exact before old
      · have when := dated fresh (List.mem_of_getElem? found) (List.mem_of_getElem? flying)
        obtain ⟨m, _, earlier, there⟩ := when.snapshot? brought
        exact ⟨m, by omega, there⟩

/-- A snapshot that is on record, that a resolver caches, or that a load brings to its resolver. -/
inductive Present (w : World ι) (k : Key) (v : k.Snapshot) : Prop where
  | recorded (there : w.directory.snapshot? k = some v)
  | cached (i : ι) (held : (w.resolvers i).cached? k = some v)
  | flying {task : Task ι} {f : Flight} (member : task ∈ w.tasks) (flying : f ∈ task.phase.flights)
    (brought : f.snapshot? k = some v)

theorem Present.since (fresh : w.Fresh) {k : Key} {v : k.Snapshot} {n : Nat}
    (present : (w.after moves n).Present k v) :
    ∃ m ≤ n, (w.after moves m).directory.snapshot? k = some v := by
  cases present with
  | recorded there => exact ⟨n, Nat.le_refl n, there⟩
  | cached i held => exact cached_recorded fresh held
  | flying member flying brought =>
    obtain ⟨m, _, earlier, there⟩ := (dated fresh member flying).snapshot? brought
    exact ⟨m, Nat.le_of_lt earlier, there⟩

/-- The directory creates a role in the move that leads on from moment `c`. -/
def Creates (w : World ι) (moves : Nat → Move ι) (c : Nat) (draft : RoleDraft) (id : RoleId) :
    Prop :=
  (w.after moves c).directory.serve (.write (.createRole draft)) =
    (.ok id, (w.after moves (c + 1)).directory)

/-- A role that is created at moment `c` was new then: it was not on record, nobody was a member of
it, and what is ever cached of it, or brought to a resolver, was on record after that moment. -/
structure NewAt (w : World ι) (moves : Nat → Move ι) (c : Nat) (id : RoleId) : Prop where
  unrecorded : id ∉ (w.after moves c).directory.roles.keys
  unknown (g : RoleGrant) : ¬ (w.after moves c).Present (.role id) g
  unlisted : w.ListsRecorded moves → ∀ user m, (w.after moves c).Present (.user user) m →
    id ∉ m.roles
  grants (n : Nat) (g : RoleGrant) : (w.after moves n).Present (.role id) g →
    ∃ m ≤ n, c < m ∧ (w.after moves m).directory.snapshot? (.role id) = some g
  listings : w.ListsRecorded moves → ∀ n user m, (w.after moves n).Present (.user user) m →
    id ∈ m.roles → ∃ t ≤ n, c < t ∧ (w.after moves t).directory.snapshot? (.user user) = some m

theorem newAt_of_unrecorded (fresh : w.Fresh) (closed : w.directory.Closed) {c : Nat} {id : RoleId}
    (unrecorded : id ∉ (w.after moves c).directory.roles.keys) : w.NewAt moves c id := by
  have later {m : Nat} (recorded : id ∈ (w.after moves m).directory.roles.keys) : c < m := by
    apply Nat.not_le.1
    intro before
    exact unrecorded ((keys_persist w moves before).2 recorded)
  have grants (n : Nat) (g : RoleGrant) (present : (w.after moves n).Present (.role id) g) :
      ∃ m ≤ n, c < m ∧ (w.after moves m).directory.snapshot? (.role id) = some g := by
    obtain ⟨m, earlier, there⟩ := present.since fresh
    obtain ⟨record, found, _⟩ := Option.map_eq_some_iff.1 there
    have recorded := Table.contains_iff_mem_keys.1 (Table.contains_iff.2 ⟨record, found⟩)
    exact ⟨m, earlier, later recorded, there⟩
  have listings (lists : w.ListsRecorded moves) (n : Nat) (user : UserId) (m : Membership)
      (present : (w.after moves n).Present (.user user) m) (member : id ∈ m.roles) :
      ∃ t ≤ n, c < t ∧ (w.after moves t).directory.snapshot? (.user user) = some m := by
    obtain ⟨t, earlier, there⟩ := present.since fresh
    obtain ⟨record, found, member⟩ := Directory.holds_listed there member
    have recorded := closed_after closed lists t user record found id member
    exact ⟨t, earlier, later recorded, there⟩
  constructor
  · exact unrecorded
  · intro g present
    obtain ⟨m, earlier, after, _⟩ := grants c g present
    omega
  · intro lists user m present member
    obtain ⟨t, earlier, after, _⟩ := listings lists c user m present member
    omega
  · exact grants
  · exact listings

theorem newAt_of_creates (fresh : w.Fresh) (closed : w.directory.Closed) {c : Nat}
    (numbered : (w.after moves c).directory.Numbered) {draft : RoleDraft} {id : RoleId}
    (creates : w.Creates moves c draft id) : w.NewAt moves c id :=
  newAt_of_unrecorded fresh closed
    (Directory.created_fresh numbered (Directory.createRole_of_serve creates))

theorem creates_of_returned (fresh : w.Fresh) {n : Nat} {home : ι} {draft : RoleDraft}
    {began : Nat} {id : RoleId} (returned :
      ⟨home, .command (.createRole draft), began, .finished (.ok id)⟩ ∈ (w.after moves n).tasks) :
    ∃ c, began < c ∧ c < n ∧ w.Creates moves c draft id := by
  -- only answers matter here, so every snapshot may pass for known
  let answers (i : ι) (began : Nat) : Evidence :=
    { w.evidence moves i began n with
      snapshot := fun _ _ => True
      brings := fun _ _ => trivial }
  have meets := task_meets_of (e := answers) fresh (fun _ _ _ _ _ _ _ _ => trivial)
    (fun _ _ _ _ _ _ made found flying answered inside =>
      known_of_answer fresh made found flying answered inside) (Nat.le_refl n) returned
  obtain ⟨c, t, later, earlier, within, served, _⟩ := meets
  exact ⟨c, later, by omega, served⟩

/-- What identifies the records of a directory, and the roles that are created, in a world. -/
structure Identified (w : World ι) (moves : Nat → Move ι) : Prop where
  wellFormed (n : Nat) : (w.after moves n).directory.WellFormed
  users {m n : Nat} : m ≤ n →
    (w.after moves m).directory.users.keys ⊆ (w.after moves n).directory.users.keys
  roles {m n : Nat} : m ≤ n →
    (w.after moves m).directory.roles.keys ⊆ (w.after moves n).directory.roles.keys
  closed : w.ListsRecorded moves → ∀ n, (w.after moves n).directory.Closed
  created {c : Nat} {draft : RoleDraft} {id : RoleId} : w.Creates moves c draft id →
    w.NewAt moves c id
  returned {n : Nat} {home : ι} {draft : RoleDraft} {began : Nat} {id : RoleId} :
    ⟨home, .command (.createRole draft), began, .finished (.ok id)⟩ ∈ (w.after moves n).tasks →
      ∃ c, began < c ∧ c < n ∧ w.Creates moves c draft id ∧ w.NewAt moves c id

/-- However a directory is filled, and by whomever it is read meanwhile, its records keep their
identifiers, and the identifiers that it gives out are new. -/
theorem identified_of_empty (fresh : w.Fresh) (empty : w.directory = .empty)
    (counts : w.CountsPermissions moves) : w.Identified moves := by
  have wellFormed (n : Nat) : (w.after moves n).directory.WellFormed :=
    wellFormed_after (empty ▸ Directory.wellFormed_empty) counts n
  have closed : w.directory.Closed := by
    rw [empty]
    exact fun _ _ found => nomatch found
  have created {c : Nat} {draft : RoleDraft} {id : RoleId} (creates : w.Creates moves c draft id) :
      w.NewAt moves c id :=
    newAt_of_creates fresh closed (wellFormed c).numbered creates
  constructor
  · exact wellFormed
  · exact fun earlier => (keys_persist w moves earlier).1
  · exact fun earlier => (keys_persist w moves earlier).2
  · exact closed_after closed
  · exact created
  · intro n home draft began id returned
    obtain ⟨c, later, earlier, creates⟩ := creates_of_returned fresh returned
    exact ⟨c, later, earlier, creates, created creates⟩

def unfilled : World Unit where
  directory := .empty
  resolvers _ := { Resolver.sample with projection := some (.fixed [⟨5⟩]) }
  tasks := []

/-- A warmup has begun to load a role when that role is created. -/
def creating : List (Move Unit) :=
  [.upkeep (.insertRole ⟨⟨4⟩, ⟨3⟩, "", "", .empty, false⟩), .upkeep (.insertUser ⟨⟨1⟩, [⟨4⟩]⟩),
    .call () (.warmup []), .turn 0 (.serve 0), .turn 0 (.resume 0), .turn 0 .launch,
    .call () (.command (.createRole ⟨⟨3⟩, "", "", ["x"]⟩)), .turn 1 (.serve 0), .turn 0 (.serve 0),
    .turn 0 (.resume 0), .turn 1 (.resume 0)]

theorem identified_creating : unfilled.Identified (schedule creating) ∧
    unfilled.Creates (schedule creating) 7 ⟨⟨3⟩, "", "", ["x"]⟩ ⟨5⟩ ∧
    ((unfilled.after (schedule creating) 11).resolvers ()).cached? (.role ⟨5⟩) =
      some ⟨⟨5⟩, ⟨3⟩, .ofList ["x"], false⟩ := by
  have fresh : unfilled.Fresh := ⟨fun _ => ⟨⟨1, 1, false, []⟩, some (.fixed [⟨5⟩]), rfl⟩, rfl⟩
  have counts : unfilled.CountsPermissions (schedule creating) :=
    countsPermissions_schedule (by decide)
  exact ⟨identified_of_empty fresh rfl counts, rfl, rfl⟩

end World

end Authorization
