import Authorization.Proofs.Catalog.Progress

namespace Authorization

/-- A directory that serves requests and lets any of some names be created. -/
def Directory.Accepts (d : Directory) (names : List String) : Prop :=
  d.available = true ∧ ∀ name ∈ names, d.rejectedNames.contains name = false

/-- A change that takes the directory down or has it reject one of some names. -/
def Upkeep.Disturbs (names : List String) : Upkeep → Prop
  | .setAvailable available => available = false
  | .rejectName name => name ∈ names
  | _ => False

namespace Directory

variable {d : Directory} {names : List String}

theorem contains_of_refused {name : String} {e : Error} (accepts : d.Accepts names)
    (member : name ∈ names) (refused : (d.serve (.createPermission name)).1 = .error e) :
    d.permissions.contains name = true := by
  simp only [serve, accepts.1, if_true, createPermission, accepts.2 name member,
    Bool.false_eq_true, if_false] at refused
  split at refused
  · assumption
  · cases refused

theorem serve_accepts (accepts : d.Accepts names) (request : Request) :
    (d.serve request).2.Accepts names := by
  unfold serve
  rw [if_pos accepts.1]
  cases request with
  | createPermission name =>
    simp only [createPermission]
    split
    · exact accepts
    · split <;> exact accepts
  | write command =>
    have same := d.execute_permissions command
    exact ⟨same.available.trans accepts.1, fun name member => by
      rw [same.rejectedNames, accepts.2 name member]⟩
  | _ => exact accepts

theorem upkeep_accepts (accepts : d.Accepts names) {change : Upkeep}
    (calm : ¬ change.Disturbs names) : (d.upkeep change).Accepts names := by
  cases change with
  | setAvailable available => exact ⟨eq_true_of_ne_false calm, accepts.2⟩
  | rejectName rejected =>
    refine ⟨accepts.1, fun name member => ?_⟩
    have other : name ≠ rejected := fun same => calm (same ▸ member)
    have before := accepts.2 name member
    rw [← Bool.not_eq_true, OrderedSet.contains_iff] at before ⊢
    rw [upkeep, rejectName, OrderedSet.mem_insert]
    exact not_or.2 ⟨other, before⟩
  | request request => exact serve_accepts accepts request
  | _ => exact accepts

end Directory

namespace Progress

variable {sure : Prop} {names : List String}

/-- Some progress is true of a system: the catalog has what it is sure to find, and the directory
has what it refused to create. -/
structure Holds (sure : Prop) (names : List String) (p : Progress) (s : System) : Prop where
  known : ∀ name ∈ p.known, s.resolver.catalog.contains name = true
  refused : sure → ∀ name ∈ p.refused, name ∈ names → s.directory.permissions.contains name = true

variable {p : Progress} {s : System}

theorem Holds.find (holds : p.Holds sure names s) (a : Act) :
    p.Finds a (s.resolver.perform a).1 ∧
      (p.find a (s.resolver.perform a).1).Holds sure names s := by
  cases a with
  | knowsPermission name =>
    refine ⟨holds.known name, ?_⟩
    cases found : s.resolver.catalog.contains name with
    | true =>
      simp only [Resolver.perform, found]
      exact ⟨List.forall_mem_cons.2 ⟨found, holds.known⟩, holds.refused⟩
    | false =>
      simp only [Resolver.perform, found]
      exact holds
  | _ => exact ⟨trivial, holds⟩

theorem Holds.hears (holds : p.Holds sure names s)
    (accepts : sure → s.directory.Accepts names) (request : Request) :
    p.Hears sure names request (s.directory.serve request).1 := by
  cases request with
  | listPermissions =>
    intro certain
    refine ⟨s.directory.catalog, by simp only [Directory.serve, (accepts certain).1, if_true], ?_⟩
    intro name refused member
    obtain ⟨id, there⟩ := Table.contains_iff.1 (holds.refused certain name refused member)
    exact List.mem_map.2 ⟨⟨id, name⟩, Directory.mem_catalog.2 there, rfl⟩
  | listRoles =>
    intro certain
    exact ⟨s.directory.roles.keys, by simp only [Directory.serve, (accepts certain).1, if_true]⟩
  | _ => trivial

theorem Holds.served (holds : p.Holds sure names s)
    (accepts : sure → s.directory.Accepts names) (request : Request) :
    (p.served request (s.directory.serve request).1).Holds sure names
      { s with directory := (s.directory.serve request).2 } := by
  have registered := s.directory.serve_registered request
  have still : sure → ∀ name ∈ p.refused, name ∈ names →
      (s.directory.serve request).2.permissions.contains name = true := by
    intro certain name refused member
    obtain ⟨id, there⟩ := Table.contains_iff.1 (holds.refused certain name refused member)
    exact Table.contains_iff.2 ⟨id, registered.find? there⟩
  cases request with
  | createPermission name =>
    cases answered : (s.directory.serve (.createPermission name)).1 with
    | ok id => exact ⟨holds.known, still⟩
    | error e =>
      refine ⟨holds.known, fun certain => List.forall_mem_cons.2 ⟨fun member => ?_, still certain⟩⟩
      have present := Directory.contains_of_refused (accepts certain) member answered
      obtain ⟨id, there⟩ := Table.contains_iff.1 present
      exact Table.contains_iff.2 ⟨id, registered.find? there⟩
  | _ => exact ⟨holds.known, still⟩

theorem created_served (p : Progress) (d : Directory) (request : Request) :
    (p.served request (d.serve request).1).created + d.permissions.size =
      p.created + (d.serve request).2.permissions.size := by
  rw [(d.serve_registered request).size]
  cases request with
  | createPermission name =>
    cases answered : (d.serve (.createPermission name)).1 with
    | ok id =>
      simp only [Progress.served, Request.created?, Option.isSome_some, if_true]
      omega
    | error e =>
      simp only [Progress.served, Request.created?, Option.isSome_none, Bool.false_eq_true,
        if_false]
      omega
  | _ => rfl

theorem Holds.received (holds : p.Holds sure names s) (asked : Epochs) (request : Request)
    (given : Except Error request.Answer) :
    (p.received request given).Holds sure names
      { s with resolver := s.resolver.absorb asked request given } := by
  refine ⟨fun name member => ?_, holds.refused⟩
  rw [Resolver.catalog_absorb, Resolver.contains_record]
  rcases List.mem_append.1 member with told | old
  · obtain ⟨record, there, same⟩ := List.mem_map.1 told
    exact .inr ⟨record, there, same⟩
  · exact .inl (holds.known name old)

theorem Holds.agrees (holds : p.Holds sure names s) {r : Resolver} (same : r.Agrees s.resolver) :
    p.Holds sure names { s with resolver := r } := by
  refine ⟨fun name member => ?_, holds.refused⟩
  rw [same.catalog]
  exact holds.known name member

end Progress

variable {α : Type} {sure : Prop} {names : List String} {post : Progress → α → Prop}

/-- Wherever some work under way ends, what it has brought about is as required. -/
def Phase.Tracks (sure : Prop) (names : List String) (post : Progress → α → Prop) :
    Phase α → Progress → Prop
  | finished a, p => post p a
  | asking flight next, p =>
    match flight.answer with
    | none => ∀ given, p.Hears sure names flight.request given →
      (next given).Tracks sure names post
        ((p.served flight.request given).received flight.request given)
    | some given => (next given).Tracks sure names post (p.received flight.request given)
  | loading _ _ _ next, p => ∀ loads, (next loads).Tracks sure names post p

theorem Program.Tracks.advance {program : Program α} {p : Progress} {s : System}
    (tracks : program.Tracks sure names post p) (holds : p.Holds sure names s) (moment : Nat) :
    ∃ q : Progress, (program.advance moment s.resolver).1.Tracks sure names post q ∧
      q.Holds sure names { s with resolver := (program.advance moment s.resolver).2 } ∧
      q.created = p.created := by
  induction program generalizing p s with
  | done a => exact ⟨p, tracks, holds, rfl⟩
  | act a next ih =>
    obtain ⟨finds, holds⟩ := holds.find a
    have same : (p.find a (s.resolver.perform a).1).created = p.created := by
      unfold Progress.find
      split <;> rfl
    have after := holds.agrees (s.resolver.perform_agrees a)
    obtain ⟨q, rest, there, kept⟩ := ih _ (tracks _ finds) after
    exact ⟨q, rest, there, kept.trans same⟩
  | ask request next _ => exact ⟨p, tracks, holds, rfl⟩
  | loadRoles roles next ih =>
    cases roles with
    | nil => exact ih [] (tracks []) holds
    | cons role roles => exact ⟨p, tracks, holds, rfl⟩

namespace Phase

theorem launch_tracks {phase : Phase α} {p : Progress} (tracks : phase.Tracks sure names post p)
    (moment : Nat) (r : Resolver) : (phase.launch moment r).Tracks sure names post p := by
  unfold launch
  split
  · split <;> exact tracks
  · exact tracks

theorem serve_tracks {phase : Phase α} {p : Progress} {s : System}
    (tracks : phase.Tracks sure names post p) (holds : p.Holds sure names s)
    (accepts : sure → s.directory.Accepts names) (index : Nat) :
    ∃ q : Progress, (phase.serve index s.directory).1.Tracks sure names post q ∧
      q.Holds sure names { s with directory := (phase.serve index s.directory).2 } ∧
      q.created + s.directory.permissions.size =
        p.created + (phase.serve index s.directory).2.permissions.size := by
  cases phase with
  | finished a => exact ⟨p, tracks, holds, rfl⟩
  | asking flight next =>
    cases index with
    | succ _ => exact ⟨p, tracks, holds, rfl⟩
    | zero =>
      cases answered : flight.answer with
      | some given =>
        simp only [serve, answered]
        exact ⟨p, tracks, holds, rfl⟩
      | none =>
        simp only [Tracks, answered] at tracks
        simp only [serve, answered]
        have heard := holds.hears accepts flight.request
        exact ⟨_, tracks _ heard, holds.served accepts flight.request,
          p.created_served s.directory flight.request⟩
  | loading waiting flying loads next =>
    simp only [serve]
    split
    · exact ⟨p, tracks, holds, rfl⟩
    · rename_i f found
      split
      · have after := holds.served accepts (.loadRole f.role)
        have size := p.created_served s.directory (.loadRole f.role)
        exact ⟨p, tracks, after, size⟩
      · exact ⟨p, tracks, holds, rfl⟩

theorem resume_tracks {phase : Phase α} {p : Progress} {s : System}
    (tracks : phase.Tracks sure names post p) (holds : p.Holds sure names s) (moment index : Nat) :
    ∃ q : Progress, (phase.resume moment index s.resolver).1.Tracks sure names post q ∧
      q.Holds sure names { s with resolver := (phase.resume moment index s.resolver).2 } ∧
      q.created = p.created := by
  cases phase with
  | finished a => exact ⟨p, tracks, holds, rfl⟩
  | asking flight next =>
    cases index with
    | succ _ => exact ⟨p, tracks, holds, rfl⟩
    | zero =>
      cases answered : flight.answer with
      | none =>
        simp only [resume, answered]
        exact ⟨p, tracks, holds, rfl⟩
      | some given =>
        simp only [Tracks, answered] at tracks
        simp only [resume, answered]
        exact tracks.advance (holds.received flight.asked flight.request given) moment
  | loading waiting flying loads next =>
    simp only [resume]
    split
    · exact ⟨p, tracks, holds, rfl⟩
    · rename_i f found
      split
      · exact ⟨p, tracks, holds, rfl⟩
      · rename_i given answered
        have after := holds.received f.asked (.loadRole f.role) given
        split
        · exact (tracks _).advance after moment
        · exact ⟨p, tracks, after, rfl⟩

/-- A turn creates as many permissions as the work it moves on gets to count. -/
theorem turn_tracks {phase : Phase α} {p : Progress} {s : System}
    (tracks : phase.Tracks sure names post p) (holds : p.Holds sure names s)
    (accepts : sure → s.directory.Accepts names) (moment : Nat) (turn : Turn) :
    ∃ q : Progress, (phase.turn moment s turn).1.Tracks sure names post q ∧
      q.Holds sure names (phase.turn moment s turn).2 ∧
      q.created + s.directory.permissions.size =
        p.created + (phase.turn moment s turn).2.directory.permissions.size := by
  cases turn with
  | launch => exact ⟨p, launch_tracks tracks moment s.resolver, holds, rfl⟩
  | serve index => exact serve_tracks tracks holds accepts index
  | resume index =>
    obtain ⟨q, rest, there, same⟩ := resume_tracks tracks holds moment index
    exact ⟨q, rest, there, congrArg (· + s.directory.permissions.size) same⟩

end Phase

theorem Call.Ensures.ensured {r : Resolver} {call : Call} {rest : Nat → Program call.Answer}
    (ensures : call.Ensures r names rest) {p : Progress} {created moment : Nat} {s : Resolver}
    (tracks : ((rest created).advance moment s).1.Tracks sure names (call.Accounts sure names) p) :
    p.Ensured names created := by
  -- answers that let the call end in success lead to the requirement, which gives the count
  cases ensures with
  | ensurePermissions _ => exact tracks
  | warmup _ | warmupFromConfig _ =>
    generalize r.projection = projection at tracks
    match projection with
    | none => exact tracks
    | some (.fixed []) => exact tracks
    | some (.fixed (_ :: _)) => exact tracks [] () trivial
    | some .directory => exact tracks (.ok []) (fun _ => ⟨[], rfl⟩) [] () trivial

end Authorization
