import Authorization.Proofs.Queries.Failure

namespace Authorization

/-- What is asked about a user: a question, or a check that counts as denied where the question
fails. -/
inductive Inquiry where
  | question (question : Question)
  | checkOrDeny (scope : OrganizationId) (permission : String)

namespace Inquiry

abbrev Answer : Inquiry → Type
  | question q => Except Error q.Answer
  | checkOrDeny _ _ => Bool

def program (user : UserId) : (inquiry : Inquiry) → Program inquiry.Answer
  | question q => (q.query user).run
  | checkOrDeny scope permission => Query.checkOrDeny user scope permission

/-- The question that has to be resolved. -/
def toQuestion : Inquiry → Question
  | question q => q
  | checkOrDeny scope permission => .hasPermission scope permission

def settle : (inquiry : Inquiry) → Except Error inquiry.toQuestion.Answer → inquiry.Answer
  | question _, outcome => outcome
  | checkOrDeny _ _, .ok allowed => allowed
  | checkOrDeny _ _, .error _ => false

theorem program_eq (inquiry : Inquiry) (user : UserId) : inquiry.program user =
    (inquiry.toQuestion.query user).run >>= fun outcome => pure (inquiry.settle outcome) := by
  cases inquiry with
  | question q => exact (bind_pure _).symm
  | checkOrDeny scope permission =>
    refine congrArg ((Query.hasPermission user scope permission).run >>= ·) (funext fun outcome => ?_)
    cases outcome <;> rfl

theorem program_run (inquiry : Inquiry) (user : UserId) (s : System) :
    (inquiry.program user).run s =
      (inquiry.settle ((inquiry.toQuestion.query user).run.run s).1,
        ((inquiry.toQuestion.query user).run.run s).2) := by
  rw [program_eq, Program.run_bind]
  rfl

end Inquiry

/-- An inquiry, and the directory as it is at that time. -/
structure Visit where
  directory : Directory
  user : UserId
  inquiry : Inquiry

def Visit.asked (v : Visit) : UserId × Inquiry := (v.user, v.inquiry)

/-- An inquiry with its answer. -/
abbrev Reply := (inquiry : Inquiry) × inquiry.Answer

namespace Resolver

def visit (r : Resolver) (v : Visit) : v.inquiry.Answer × System :=
  (v.inquiry.program v.user).run ⟨r, v.directory⟩

/-- What is left of a resolver after some visits, between which anything may happen to the
directory. -/
def visits (r : Resolver) (vs : List Visit) : Resolver :=
  vs.foldl (fun r v => (r.visit v).2.resolver) r

def replies (r : Resolver) : List Visit → List Reply
  | [] => []
  | v :: vs => ⟨v.inquiry, (r.visit v).1⟩ :: (r.visit v).2.resolver.replies vs

end Resolver

end Authorization
