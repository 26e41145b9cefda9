import Authorization.Proofs.Queries.Coherence

namespace Authorization

/-- A command with its result. -/
abbrev Outcome := (command : Command) × Except Error command.Answer

namespace Directory

/-- What a write can do, and the result that comes with it. -/
inductive Wrote (d : Directory) : (c : Command) → Except Error c.Answer → Directory → Prop where
  | refused {c : Command} {e : Error} : Wrote d c (.error e) d
  | edited {change : Edit} {after : Directory} (ok : d.edit change = .ok after) :
      Wrote d (.edit change) (.ok ()) after
  | created {draft : RoleDraft} {id : RoleId} {after : Directory}
      (ok : d.createRole draft = .ok (id, after)) : Wrote d (.createRole draft) (.ok id) after

theorem serve_wrote (d : Directory) (c : Command) :
    d.Wrote c (d.serve (.write c)).1 (d.serve (.write c)).2 := by
  cases up : d.available with
  | false =>
    rw [serve_unavailable up]
    exact .refused
  | true =>
    simp only [serve, up, if_true]
    cases c with
    | edit change =>
      simp only [execute]
      cases made : d.edit change with
      | ok after => exact .edited made
      | error _ => exact .refused
    | createRole draft =>
      simp only [execute]
      cases made : d.createRole draft with
      | ok created => exact .created made
      | error _ => exact .refused

theorem Wrote.available {d after : Directory} {c : Command} {result : Except Error c.Answer}
    (wrote : d.Wrote c result after) : after.available = d.available := by
  cases wrote with
  | refused => rfl
  | edited ok => rcases edit_cases ok with ⟨_, _, _, _, rfl⟩ | ⟨_, _, _, _, rfl⟩ <;> rfl
  | created ok =>
    obtain ⟨_, _, rfl⟩ := createRole_cases ok
    rfl

/-- What some commands make of a directory, one after the other. -/
def written (d : Directory) (cs : List Command) : Directory :=
  cs.foldl (fun d c => (d.serve (.write c)).2) d

def outcomes (d : Directory) : List Command → List Outcome
  | [] => []
  | c :: cs => ⟨c, (d.serve (.write c)).1⟩ :: (d.serve (.write c)).2.outcomes cs

end Directory

namespace System

/-- What some commands make of a system, given to its command handler one after the other. -/
def commanded (s : System) (cs : List Command) : System :=
  cs.foldl (fun s c => s.call (.command c)) s

def outcomes (s : System) : List Command → List Outcome
  | [] => []
  | c :: cs => ⟨c, ((Query.command c).run.run s).1⟩ :: (s.call (.command c)).outcomes cs

theorem commanded_directory (s : System) (cs : List Command) :
    (s.commanded cs).directory = s.directory.written cs := by
  induction cs generalizing s with
  | nil => rfl
  | cons c cs ih => exact ih (s.call (.command c))

theorem outcomes_eq (s : System) (cs : List Command) : s.outcomes cs = s.directory.outcomes cs := by
  induction cs generalizing s with
  | nil => rfl
  | cons c cs ih => exact congrArg (_ :: ·) (ih (s.call (.command c)))

end System

end Authorization
