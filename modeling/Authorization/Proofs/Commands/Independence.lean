import Authorization.Proofs.Commands.Edits
import Authorization.Proofs.Queries.Replies
import Mathlib.Data.List.Pairwise

namespace Authorization

namespace Edit

/-- What an edit changes: the roles of a user, or one part of a role. -/
inductive Target where
  | memberships (user : UserId)
  | permission (role : RoleId) (name : String)
  | owner (role : RoleId)
  | mark (role : RoleId)
  deriving DecidableEq

def target : Edit → Target
  | addPermission role permission | removePermission role permission => .permission role permission
  | addMember user _ | removeMember user _ => .memberships user
  | moveRole role _ => .owner role
  | deleteRole role | restoreRole role => .mark role

/-- Two edits of different users, of a user and a role, of different roles, or of different parts of
one role. -/
def Independent (a b : Edit) : Prop := a.target ≠ b.target

instance : DecidableRel Independent := fun a b => inferInstanceAs (Decidable (a.target ≠ b.target))

instance : Std.Symm Independent := ⟨fun _ _ => Ne.symm⟩

theorem target_of_user {change : Edit} {user : UserId} (key : change.key = .user user) :
    change.target = .memberships user := by
  cases change <;> cases key <;> rfl

/-- Different parts of a role can be changed in any order. -/
theorem onRole_comm {a b : Edit} (same : a.key = b.key) (independent : a.Independent b) (r : Role) :
    b.onRole (a.onRole r) = a.onRole (b.onRole r) := by
  have permissions {p q : OrderedSet String} (equal : p = q) :
      { r with permissions := p } = { r with permissions := q } := by rw [equal]
  have clash (equal : a.target = b.target) :
      b.onRole (a.onRole r) = a.onRole (b.onRole r) := absurd equal independent
  cases a with
  | addPermission role p =>
    cases b with
    | addPermission x q => exact permissions (r.permissions.insert_comm p q)
    | removePermission x q =>
      by_cases equal : p = q
      · exact clash (by rw [target, target, Key.role.inj same, equal])
      · exact permissions (r.permissions.insert_erase_comm equal)
    | _ => rfl
  | removePermission role p =>
    cases b with
    | addPermission x q =>
      by_cases equal : p = q
      · exact clash (by rw [target, target, Key.role.inj same, equal])
      · exact permissions (r.permissions.insert_erase_comm (Ne.symm equal)).symm
    | removePermission x q => exact permissions (r.permissions.erase_comm p q)
    | _ => rfl
  | moveRole role owner =>
    cases b with
    | moveRole x other => exact clash (congrArg Target.owner (Key.role.inj same))
    | _ => rfl
  | deleteRole role =>
    cases b with
    | restoreRole x => exact clash (congrArg Target.mark (Key.role.inj same))
    | _ => rfl
  | restoreRole role =>
    cases b with
    | deleteRole x => exact clash (congrArg Target.mark (Key.role.inj same))
    | _ => rfl
  | addMember _ _ => rfl
  | removeMember _ _ => rfl

theorem apply_comm {a b : Edit} (independent : a.Independent b) (d : Directory) :
    b.apply (a.apply d) = a.apply (b.apply d) := by
  unfold apply
  cases first : a.key with
  | role x =>
    cases second : b.key with
    | role y =>
      have commutes (same : x = y) : ∀ r, b.onRole (a.onRole r) = a.onRole (b.onRole r) :=
        onRole_comm (by rw [first, second, same]) independent
      exact congrArg (fun roles => { d with roles := roles }) (d.roles.modify_comm commutes)
    | user _ => rfl
  | user x =>
    cases second : b.key with
    | role _ => rfl
    | user y =>
      have other (same : x = y) : ∀ u, b.onUser (a.onUser u) = a.onUser (b.onUser u) :=
        absurd ((target_of_user first).trans (same ▸ (target_of_user second).symm)) independent
      exact congrArg (fun users => { d with users := users }) (d.users.modify_comm other)

end Edit

namespace Directory

variable {d e : Directory}

theorem serve_edit_comm {a b : Edit} (independent : a.Independent b) (d : Directory) :
    ((d.serve (.write (.edit a))).2.serve (.write (.edit b))).2 =
      ((d.serve (.write (.edit b))).2.serve (.write (.edit a))).2 := by
  rw [snd_serve_edit (d.serve (.write (.edit a))).2 b, snd_serve_edit (d.serve (.write (.edit b))).2 a,
    (d.sameKeys_edit a).serve, (d.sameKeys_edit b).serve, snd_serve_edit d a, snd_serve_edit d b]
  split
  · split
    · exact Edit.apply_comm independent d
    · rfl
  · rfl

variable {edits others : List Edit}

theorem SameKeys.outcomes (same : d.SameKeys e) (edits : List Edit) :
    e.outcomes (edits.map .edit) =
      edits.map fun change => ⟨.edit change, (d.serve (.write (.edit change))).1⟩ := by
  induction edits generalizing e with
  | nil => rfl
  | cons change edits ih =>
    have others := ih (same.trans (e.sameKeys_edit change))
    rw [List.map_cons, Directory.outcomes, same.serve, others, List.map_cons]

theorem written_perm (independent : edits.Pairwise Edit.Independent) (perm : others.Perm edits)
    (d : Directory) : d.written (others.map .edit) = d.written (edits.map .edit) := by
  rw [written, written, List.foldl_map, List.foldl_map]
  apply (perm.symm.foldl_eq' _ d).symm
  intro a first b second e
  -- the fold asks for any two members of the list, also for a member twice
  by_cases same : a = b
  · rw [same]
  · exact serve_edit_comm (independent.forall first second same) e

theorem outcomes_perm (perm : others.Perm edits) (d : Directory) :
    (d.outcomes (others.map .edit)).Perm (d.outcomes (edits.map .edit)) := by
  rw [(SameKeys.refl d).outcomes, (SameKeys.refl d).outcomes]
  exact perm.map _

end Directory

namespace System

variable {s : System}

theorem Coherent.edit (coherent : s.Coherent) (change : Edit) :
    (s.call (.command (.edit change))).Coherent :=
  coherent.request fun _ _ there => (s.directory.serve_wrote (.edit change)).snapshot? there

theorem Coherent.edits (coherent : s.Coherent) (edits : List Edit) :
    (s.commanded (edits.map .edit)).Coherent := by
  induction edits generalizing s with
  | nil => exact coherent
  | cons change edits ih => exact ih (coherent.edit change)

/-- Independent edits can be given to the command handler in any order: each has the same result,
what is on record in the end is the same, and so are the answers to whatever is asked then. -/
theorem independent_edits_commute (coherent : s.Coherent) {edits others : List Edit}
    (independent : edits.Pairwise Edit.Independent) (perm : others.Perm edits) :
    (s.outcomes (others.map .edit)).Perm (s.outcomes (edits.map .edit)) ∧
      (s.commanded (others.map .edit)).directory = (s.commanded (edits.map .edit)).directory ∧
      ∀ vs : List Visit, (∀ v ∈ vs, v.Reads (s.commanded (edits.map .edit)).directory) →
        (s.commanded (others.map .edit)).resolver.replies vs =
          (s.commanded (edits.map .edit)).resolver.replies vs := by
  have same : (s.commanded (others.map .edit)).directory =
      (s.commanded (edits.map .edit)).directory := by
    rw [commanded_directory, commanded_directory, Directory.written_perm independent perm]
  refine ⟨?_, same, fun vs reads => ?_⟩
  · rw [outcomes_eq, outcomes_eq]
    exact Directory.outcomes_perm perm s.directory
  · rw [replies_scanned (coherent.edits edits) reads]
    rw [← same] at reads ⊢
    exact replies_scanned (coherent.edits others) reads

/-- Both roles and the user are changed, and one edit is refused. -/
def rearrangement : List Edit := [
  .addPermission ⟨8⟩ "z", .removePermission ⟨8⟩ "y", .moveRole ⟨8⟩ ⟨3⟩, .moveRole ⟨7⟩ .any,
  .deleteRole ⟨7⟩, .removeMember ⟨1⟩ ⟨7⟩]

def rearranged (edits : List Edit) : System := warm.commanded (edits.map .edit)

theorem independent_edits_commute_reversed : rearrangement.Pairwise Edit.Independent ∧
    (rearranged rearrangement.reverse).directory = (rearranged rearrangement).directory ∧
    (rearranged rearrangement.reverse).resolver.replies
        [⟨(rearranged rearrangement).directory, ⟨1⟩, .checkOrDeny ⟨3⟩ "z"⟩] =
      [⟨.checkOrDeny ⟨3⟩ "z", true⟩] := by
  have reached : warm.Reached :=
    .call (.built Resolver.build_sample (filled_shared ⟨5⟩ ["y"])) _
  have independent : rearrangement.Pairwise Edit.Independent := by decide
  have reads : ∀ v ∈ [(⟨(rearranged rearrangement).directory, ⟨1⟩, .checkOrDeny ⟨3⟩ "z"⟩ : Visit)],
      v.Reads (rearranged rearrangement).directory := by
    intro v member
    obtain rfl := List.mem_singleton.1 member
    exact ⟨⟨rfl, rfl, rfl⟩, rfl, fun _ _ _ _ => rfl⟩
  obtain ⟨_, same, replies⟩ :=
    independent_edits_commute reached.steady.coherent independent rearrangement.reverse_perm
  exact ⟨independent, same, (replies _ reads).trans rfl⟩

end System

end Authorization
