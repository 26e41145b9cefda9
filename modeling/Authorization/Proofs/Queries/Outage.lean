import Authorization.Proofs.Queries.Recall

namespace Authorization

namespace Query

variable {held : (k : Key) → Option k.Snapshot} {roles : List RoleId}
  (known : ∀ role ∈ roles, ∃ g, held (.role role) = some g)

include known

theorem grantedByOne_recollect? (scope : OrganizationId) (permission : String) :
    (grantedByOne scope permission roles).run.recollect? held =
      some (.ok ((roles.filterMap fun role => held (.role role)).any
        (·.grants scope permission))) := by
  induction roles with
  | nil => rfl
  | cons role roles ih =>
    obtain ⟨g, found⟩ := known role List.mem_cons_self
    have first : (roleGrant role).run.recollect? held = some (.ok g) :=
      lookUp_recollect? (k := .role role) found
    rw [grantedByOne, recollect?_bind_ok first, List.filterMap_cons_some found, List.any_cons]
    cases g.grants scope permission with
    | true => rfl
    | false => exact ih fun other member => known other (List.mem_cons_of_mem _ member)

theorem grantedByAll_recollect? (scope : OrganizationId) (granted : OrderedSet String) :
    (grantedByAll scope granted roles).run.recollect? held =
      some (.ok (unite scope granted (roles.filterMap fun role => held (.role role)))) := by
  induction roles generalizing granted with
  | nil => rfl
  | cons role roles ih =>
    obtain ⟨g, found⟩ := known role List.mem_cons_self
    have first : (roleGrant role).run.recollect? held = some (.ok g) :=
      lookUp_recollect? (k := .role role) found
    rw [grantedByAll, recollect?_bind_ok first, List.filterMap_cons_some found]
    exact ih (fun other member => known other (List.mem_cons_of_mem _ member)) _

end Query

namespace RoleGrant

/-- The permissions that some roles grant in a scope. -/
def inScope (scope : OrganizationId) (grants : List RoleGrant) : OrderedSet String :=
  .ofList ((grants.filter (·.appliesIn scope)).flatMap (·.permissions.toList))

theorem unite_eq_inScope (scope : OrganizationId) (grants : List RoleGrant) :
    Query.unite scope .empty grants = inScope scope grants := by
  apply OrderedSet.ext_mem
  intro permission
  rw [Query.mem_unite, or_iff_right (OrderedSet.not_mem_empty permission), inScope,
    OrderedSet.mem_ofList]
  simp [RoleGrant.grants, OrderedSet.contains_iff, OrderedSet.mem_toList, and_assoc]

end RoleGrant

namespace Inquiry

/-- What is answered about a member of some roles with these grants. -/
def reply (m : Membership) (grants : List RoleGrant) : (inquiry : Inquiry) → inquiry.Answer
  | question (.belongsToRole role) => .ok (m.roles.any (· = role))
  | question .userRoles => .ok m.roles
  | question (.userPermissions scope) => .ok (RoleGrant.inScope scope grants)
  | question (.hasPermission scope permission) => .ok (grants.any (·.grants scope permission))
  | checkOrDeny scope permission => grants.any (·.grants scope permission)

theorem program_recollect? {held : (k : Key) → Option k.Snapshot} {user : UserId} {m : Membership}
    (listed : held (.user user) = some m)
    (known : ∀ role ∈ m.roles, ∃ g, held (.role role) = some g) (inquiry : Inquiry) :
    (inquiry.program user).recollect? held =
      some (inquiry.reply m (m.roles.filterMap fun role => held (.role role))) := by
  have found : (Query.membership user).run.recollect? held = some (.ok m) :=
    Query.lookUp_recollect? (k := .user user) listed
  have checked (scope : OrganizationId) (permission : String) :
      (Query.hasPermission user scope permission).run.recollect? held = some (.ok
        ((m.roles.filterMap fun role => held (.role role)).any (·.grants scope permission))) := by
    rw [Query.hasPermission, Query.recollect?_bind_ok found,
      Query.recollect?_bind_ok (Query.grantedByOne_recollect? known scope permission)]
    rfl
  cases inquiry with
  | question q =>
    cases q with
    | belongsToRole role =>
      have contained : m.contains role = m.roles.any (· = role) := List.any_beq'.symm
      rw [reply, ← contained]
      exact Query.recollect?_bind_ok found _
    | userRoles => exact Query.recollect?_bind_ok found _
    | userPermissions scope =>
      refine (Query.recollect?_bind_ok found _).trans ?_
      rw [Query.grantedByAll_recollect? known, RoleGrant.unite_eq_inScope]
      rfl
    | hasPermission scope permission => exact checked scope permission
  | checkOrDeny scope permission =>
    rw [program_eq, Program.recollect?_bind]
    show Option.bind ((Query.hasPermission user scope permission).run.recollect? held) _ = _
    rw [checked]
    rfl

end Inquiry

namespace Resolver

/-- Enough is cached to answer whatever is asked about a user. -/
def Knows (r : Resolver) (user : UserId) : Prop :=
  ∃ m, r.cached? (.user user) = some m ∧ ∀ role ∈ m.roles, ∃ g, r.cached? (.role role) = some g

/-- The reply that follows from what is cached. -/
def recalled? (r : Resolver) (v : Visit) : Option Reply :=
  (r.cached? (.user v.user)).map fun m =>
    ⟨v.inquiry, v.inquiry.reply m (m.roles.filterMap fun role => r.cached? (.role role))⟩

section

variable {r after : Resolver}

theorem Shuffled.knows (shuffled : r.Shuffled after) {user : UserId} (known : r.Knows user) :
    after.Knows user := by
  unfold Knows
  rw [shuffled.cached?]
  exact known

theorem Shuffled.recalled? (shuffled : r.Shuffled after) : after.recalled? = r.recalled? := by
  funext v
  rw [Resolver.recalled?, Resolver.recalled?, shuffled.cached?]

theorem Knows.visit {user : UserId} (known : r.Knows user) (inquiry : Inquiry) :
    ∃ after answer, r.Shuffled after ∧
      ∀ d, r.recalled? ⟨d, user, inquiry⟩ = some ⟨inquiry, answer⟩ ∧
        r.visit ⟨d, user, inquiry⟩ = (answer, ⟨after, d⟩) ∧
        Event.requests ((inquiry.program user).events ⟨r, d⟩) = [] := by
  obtain ⟨m, listed, grants⟩ := known
  obtain ⟨after, shuffled, runs⟩ :=
    Program.run_of_recollect? (Inquiry.program_recollect? listed grants inquiry)
  refine ⟨after, _, shuffled, fun d => ⟨?_, runs d⟩⟩
  rw [Resolver.recalled?, listed]
  rfl

end

/-- Whoever is fully cached is answered from the caches alone, in any order and whatever has become
of the directory: nothing is asked of it, nothing is missed or evicted, and nothing is different
afterwards but the order of recency. -/
theorem answered_from_cache {r : Resolver} {vs : List Visit} (known : ∀ v ∈ vs, r.Knows v.user) :
    (r.replies vs).map some = vs.map r.recalled? ∧ Event.requests (r.trace vs) = [] ∧
      r.Shuffled (r.visits vs) ∧
      ∀ others : List Visit, others.map Visit.asked = vs.map Visit.asked →
        r.replies others = r.replies vs ∧ r.visits others = r.visits vs := by
  -- what follows from the caches does not depend on their order, so `r` may be a shuffled resolver
  induction vs generalizing r with
  | nil =>
    refine ⟨rfl, rfl, .refl r, fun others same => ?_⟩
    rw [List.map_eq_nil_iff.1 same]
    exact ⟨rfl, rfl⟩
  | cons v vs ih =>
    obtain ⟨d, user, inquiry⟩ := v
    obtain ⟨after, answer, shuffled, runs⟩ := (known _ List.mem_cons_self).visit inquiry
    obtain ⟨recalled, visited, quiet⟩ := runs d
    obtain ⟨replies, requests, reordered, regardless⟩ :=
      ih fun v member => shuffled.knows (known v (List.mem_cons_of_mem _ member))
    rw [shuffled.recalled?] at replies
    refine ⟨?_, ?_, ?_, fun others same => ?_⟩
    · simp only [Resolver.replies, visited, List.map_cons, recalled, replies]
    · simp only [trace, visited, Event.requests, List.filterMap_append]
      exact List.append_eq_nil_iff.2 ⟨quiet, requests⟩
    · simp only [visits, List.foldl_cons, visited]
      exact shuffled.trans reordered
    · obtain ⟨⟨e, _, _⟩, others, rfl, here, rest⟩ := List.map_eq_cons_iff.1 same
      obtain ⟨rfl, rfl⟩ := Prod.mk.inj here
      obtain ⟨_, visitedToo, _⟩ := runs e
      obtain ⟨sameReplies, sameRest⟩ := regardless others rest
      simp only [Resolver.replies, visits, List.foldl_cons, visited, visitedToo, sameReplies]
      exact ⟨trivial, sameRest⟩

/-- Both roles of the user and the membership are cached. -/
def warmed : Resolver :=
  (System.call ⟨{ Resolver.sample with grants := .new 2 }, System.shared ⟨5⟩ ["y"]⟩
    (.userPermissions ⟨1⟩ ⟨3⟩)).resolver

def outage : List Visit := [
  ⟨(System.shared ⟨5⟩ ["y"]).setAvailable false, ⟨1⟩, .checkOrDeny ⟨5⟩ "y"⟩,
  ⟨.empty, ⟨1⟩, .question .userRoles⟩]

theorem answered_from_cache_outage : warmed.Knows ⟨1⟩ ∧
    (warmed.replies outage).map some =
      [some ⟨.checkOrDeny ⟨5⟩ "y", true⟩, some ⟨.question .userRoles, .ok [⟨8⟩, ⟨7⟩]⟩] ∧
    Event.requests (warmed.trace outage) = [] := by
  have known : warmed.Knows ⟨1⟩ := by
    refine ⟨⟨⟨1⟩, [⟨8⟩, ⟨7⟩]⟩, rfl, fun role member => ?_⟩
    rcases List.mem_cons.1 member with rfl | member
    · exact ⟨_, rfl⟩
    · obtain rfl := List.mem_singleton.1 member
      exact ⟨_, rfl⟩
  have throughout : ∀ v ∈ outage, warmed.Knows v.user := by simp [outage, known]
  obtain ⟨replies, requests, _⟩ := answered_from_cache throughout
  exact ⟨known, replies, requests⟩

end Resolver

end Authorization
