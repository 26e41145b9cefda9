import Authorization.Proofs.Interleaving.Evidence
import Authorization.Proofs.Snapshots.Fact

namespace Authorization

namespace World

variable {ι : Type} [DecidableEq ι] {w : World ι} {moves : Nat → Move ι} {i : ι} {began n : Nat}

/-- A fact held at a moment up to `n` that is later than every invalidation of its record completed
before `began`. If the command handler had by then returned from a revocation of the fact, the fact
held anew: it did not hold when the revocation had been written. -/
def HeldSince (w : World ι) (moves : Nat → Move ι) (i : ι) (began n : Nat) (fact : Fact) : Prop :=
  ∃ m ≤ n, w.Follows moves i fact.key began m ∧ (w.after moves m).directory.Holds fact ∧
    ∀ change since, change.Revokes fact →
      ⟨i, .command (.edit change), since, .finished (.ok ())⟩ ∈ (w.after moves began).tasks →
      ∃ c, since < c ∧ c + 1 < m ∧
        (w.after moves c).directory.edit change = .ok (w.after moves (c + 1)).directory ∧
        ¬ (w.after moves (c + 1)).directory.Holds fact

theorem edit_returned (fresh : w.Fresh) (calm : w.Calm moves) {change : Edit} {since : Nat}
    (returned : ⟨i, .command (.edit change), since, .finished (.ok ())⟩ ∈ (w.after moves n).tasks) :
    ∃ c t, since < c ∧ c < t ∧ t < n ∧ w.Invalidates moves i change.key t ∧
      (w.after moves c).directory.edit change = .ok (w.after moves (c + 1)).directory := by
  obtain ⟨c, t, later, earlier, within, served, invalidated⟩ :=
    task_meets fresh calm (Nat.le_refl n) returned
  exact ⟨c, t, later, earlier, within, ⟨_, invalidated (.one change.key) rfl, .inl rfl⟩,
    Directory.edit_of_serve served⟩

theorem heldSince_of_holds (fresh : w.Fresh) (calm : w.Calm moves) {fact : Fact} {m : Nat}
    (earlier : m ≤ n) (latest : w.Follows moves i fact.key began m)
    (holds : (w.after moves m).directory.Holds fact) : w.HeldSince moves i began n fact := by
  refine ⟨m, earlier, latest, holds, fun change since revokes returned => ?_⟩
  obtain ⟨c, t, later, before, within, hit, edited⟩ := edit_returned fresh calm returned
  rw [revokes.key] at hit
  have after := latest t within hit
  exact ⟨c, later, by omega, edited, Directory.not_holds_of_revokes edited revokes⟩

theorem held_of_grounds (fresh : w.Fresh) (calm : w.Calm moves) {user : UserId}
    {scope : OrganizationId} {permission : String}
    (grounds : (w.evidence moves i began n).Grounds user scope permission true) :
    ∃ role, w.HeldSince moves i began n (.listed user role) ∧
      w.HeldSince moves i began n (.granted role scope permission) := by
  obtain ⟨m, ⟨m₁, earlier, latest, listed⟩, role, member, g, ⟨m₂, before, last, there⟩, grants⟩ :=
    grounds
  exact ⟨role,
    heldSince_of_holds fresh calm earlier latest (Directory.holds_listed listed member),
    heldSince_of_holds fresh calm before last (Directory.holds_granted there grants)⟩

/-- What a check answers was so at moments that no invalidation completed before the check comes
after. A permission that was revoked through the command handler before the check began is not what
allows it, unless it was granted anew. -/
theorem check_justified (fresh : w.Fresh) (calm : w.Calm moves) {user : UserId}
    {scope : OrganizationId} {permission : String} {allowed : Bool}
    (returned : ⟨i, .hasPermission user scope permission, began, .finished (.ok allowed)⟩ ∈
      (w.after moves n).tasks) :
    (allowed = true → ∃ role, w.HeldSince moves i began n (.listed user role) ∧
      w.HeldSince moves i began n (.granted role scope permission)) ∧
    (allowed = false → ∃ m ≤ n, w.Follows moves i (.user user) began m ∧
      ∃ record, (w.after moves m).directory.users.find? user = some record ∧
        ∀ role ∈ record.roles, ∃ l ≤ n, w.Follows moves i (.role role) began l ∧
          ∃ there, (w.after moves l).directory.roles.find? role = some there ∧
            ¬ there.Grants scope permission) := by
  have grounds := task_meets fresh calm (Nat.le_refl n) returned allowed rfl
  constructor
  · rintro rfl
    exact held_of_grounds fresh calm grounds
  · rintro rfl
    obtain ⟨_, ⟨m, earlier, latest, listed⟩, refused⟩ := grounds
    obtain ⟨record, found, rfl⟩ := Option.map_eq_some_iff.1 listed
    refine ⟨m, earlier, latest, record, found, fun role member => ?_⟩
    obtain ⟨_, ⟨l, before, last, recorded⟩, refuses⟩ := refused role member
    obtain ⟨there, present, rfl⟩ := Option.map_eq_some_iff.1 recorded
    refine ⟨l, before, last, there, present, fun grants => ?_⟩
    rw [(RoleGrant.grants_ofRole there scope permission).2 grants] at refuses
    cases refuses

def revoked : List (Move Unit) :=
  [.call () (.hasPermission ⟨1⟩ ⟨3⟩ "x"), .turn 0 (.serve 0), .turn 0 (.resume 0),
    .turn 0 (.serve 0), .turn 0 (.resume 0),
    .call () (.command (.edit (.removePermission ⟨7⟩ "x"))), .turn 1 (.serve 0), .turn 1 (.resume 0),
    .call () (.hasPermission ⟨1⟩ ⟨3⟩ "x"), .turn 2 (.serve 0), .turn 2 (.resume 0)]

theorem check_justified_revoked :
    (∃ role, sample.HeldSince (schedule revoked) () 0 5 (.listed ⟨1⟩ role) ∧
      sample.HeldSince (schedule revoked) () 0 5 (.granted role ⟨3⟩ "x")) ∧
    ∃ m ≤ 11, sample.Follows (schedule revoked) () (.user ⟨1⟩) 8 m ∧
      ∃ record, (sample.after (schedule revoked) m).directory.users.find? ⟨1⟩ = some record ∧
        ∀ role ∈ record.roles, ∃ l ≤ 11, sample.Follows (schedule revoked) () (.role role) 8 l ∧
          ∃ there, (sample.after (schedule revoked) l).directory.roles.find? role = some there ∧
            ¬ there.Grants ⟨3⟩ "x" := by
  have calm : sample.Calm (schedule revoked) := calm_schedule sample revoked (by decide)
  have allowed : (sample.after (schedule revoked) 5).tasks[0]? =
      some ⟨(), .hasPermission ⟨1⟩ ⟨3⟩ "x", 0, .finished (.ok true)⟩ := rfl
  have denied : (sample.after (schedule revoked) 11).tasks[2]? =
      some ⟨(), .hasPermission ⟨1⟩ ⟨3⟩ "x", 8, .finished (.ok false)⟩ := rfl
  exact ⟨(check_justified fresh_sample calm (List.mem_of_getElem? allowed)).1 rfl,
    (check_justified fresh_sample calm (List.mem_of_getElem? denied)).2 rfl⟩

/-- A check that denies what cannot be resolved allows nothing else. -/
theorem checkOrDeny_justified (fresh : w.Fresh) (calm : w.Calm moves) {user : UserId}
    {scope : OrganizationId} {permission : String}
    (returned : ⟨i, .checkOrDeny user scope permission, began, .finished true⟩ ∈
      (w.after moves n).tasks) :
    ∃ role, w.HeldSince moves i began n (.listed user role) ∧
      w.HeldSince moves i began n (.granted role scope permission) :=
  held_of_grounds fresh calm (task_meets fresh calm (Nat.le_refl n) returned rfl)

end World

end Authorization
