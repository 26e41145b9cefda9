import Authorization.Proofs.Catalog.Creation
import Authorization.Proofs.Warmup.Loading

namespace Authorization

/-- Where a warmup learns which roles there are: from what the resolver was built with, or from a
reader that is apart from the directory and may fail on its own. -/
inductive Source where
  | projection (p : Option Projection)
  | reader (answer : Except Error (List RoleId))

/-- The roles that a source lists while the directory can be reached. -/
def Source.listing (d : Directory) : Source → Except Error (List RoleId)
  | projection none => .ok []
  | projection (some .directory) => .ok d.roles.keys
  | projection (some (.fixed roles)) => .ok roles
  | reader answer => answer

theorem Source.listing_alike (source : Source) {d after : Directory} (alike : d.Alike after) :
    source.listing after = source.listing d := by
  match source with
  | projection (some .directory) => exact congrArg (Except.ok ∘ Table.keys) alike.roles
  | projection none | projection (some (.fixed _)) | reader _ => rfl

namespace Query

/-- Caches the listed roles and reports on them, after some permissions were created. -/
def warmListed (created : Nat) (roles : List RoleId) : Query WarmupReport := do
  let loads ← ExceptT.lift (Program.attemptRoles roles)
  let skipped := skippedRoles loads
  perform (.recordWarmup skipped.length)
  return ⟨created, loads.length - skipped.length, skipped.mergeSort fun a b => decide (a ≤ b)⟩

theorem warmRoles_some (p : Projection) (created : Nat) :
    warmRoles (some p) created = listRoles p >>= warmListed created := rfl

/-- A warmup that learns the roles from a given source. -/
def warmupFrom (source : Source) (names : List String) : Query WarmupReport :=
  match source with
  | .projection p => warmup p names
  | .reader answer => do
    let created ← ensurePermissions names
    warmListed created (← ExceptT.mk (pure answer))

end Query

def Directory.report (d : Directory) (created : Nat) (roles : List RoleId) : WarmupReport :=
  let skipped := roles.filter fun role => !d.loads role
  ⟨created, roles.length - skipped.length, skipped.mergeSort fun a b => decide (a ≤ b)⟩

namespace System

/-- The system once a warmup has loaded some roles. -/
def warmed (s : System) (roles : List RoleId) : System :=
  let after := (s.loadRoles roles).2
  let skipped := (roles.filter fun role => !s.directory.loads role).length
  ⟨{ after.resolver with activity := after.resolver.activity.recordWarmup skipped },
    after.directory⟩

end System

namespace Query

variable {s t : System} {source : Source} {names : List String} {created : Nat} {e : Error}

theorem warmListed_run (s : System) (created : Nat) (roles : List RoleId) :
    (warmListed created roles).run.run s =
      (.ok (s.directory.report created roles), s.warmed roles) := by
  have loaded := lift_run (Program.attemptRoles roles) s
  rw [show (Program.attemptRoles roles).run s = s.loadRoles roles from rfl] at loaded
  rw [warmListed, run_bind_ok loaded, System.loadRoles_fst, skippedRoles_map, List.length_map]
  rfl

theorem warmupFrom_failed (failed : (ensurePermissions names).run.run s = (.error e, t)) :
    (warmupFrom source names).run.run s = (.error e, t) := by
  cases source <;> exact run_bind_error failed _

theorem warmupFrom_listed (ensured : (ensurePermissions names).run.run s = (.ok created, t))
    (up : t.directory.available = true) {roles : List RoleId}
    (listed : source.listing t.directory = .ok roles) :
    (warmupFrom source names).run.run s =
      (.ok (t.directory.report created roles), t.warmed roles) := by
  have rest := warmListed_run t created roles
  match source with
  | .projection none =>
    cases listed
    have nothing : t.directory.report created [] = ⟨created, 0, []⟩ :=
      congrArg (WarmupReport.mk created 0) List.mergeSort_nil
    rw [warmupFrom, warmup, run_bind_ok ensured, nothing]
    rfl
  | .projection (some .directory) =>
    cases listed
    have told : (listRoles .directory).run.run t = (.ok t.directory.roles.keys, t) := by
      show t.request .listRoles = _
      simp only [System.request, Directory.serve, up]
      rfl
    rw [warmupFrom, warmup, run_bind_ok ensured, warmRoles_some, run_bind_ok told]
    exact rest
  | .projection (some (.fixed _)) =>
    cases listed
    rw [warmupFrom, warmup, run_bind_ok ensured]
    exact rest
  | .reader _ =>
    cases listed
    rw [warmupFrom, run_bind_ok ensured]
    exact rest

theorem warmupFrom_unlisted (ensured : (ensurePermissions names).run.run s = (.ok created, t))
    (failed : source.listing t.directory = .error e) :
    (warmupFrom source names).run.run s = (.error e, t) := by
  match source with
  | .projection none | .projection (some .directory) | .projection (some (.fixed _)) => cases failed
  | .reader _ =>
    cases failed
    rw [warmupFrom, run_bind_ok ensured]
    rfl

end Query

namespace System

/-- Nothing differs but the permissions on record and those that the resolver knows. -/
structure KeepsRoles (s after : System) : Prop where
  resolver : after.resolver = { s.resolver with catalog := after.resolver.catalog }
  directory : s.directory.Alike after.directory

theorem keepsRoles_foldl (s : System) (names : List String) :
    s.KeepsRoles (names.foldl register s) := by
  refine ⟨resolver_foldl s names, ?_⟩
  rw [directory_foldl, Directory.foldl_register]
  exact ⟨⟨rfl, rfl, rfl⟩, rfl, rfl⟩

theorem ensurePermissions_keepsRoles (s : System) (names : List String) :
    s.KeepsRoles ((Query.ensurePermissions names).run.run s).2 := by
  cases up : s.directory.available with
  | false =>
    rw [Query.ensurePermissions_unavailable names up]
    exact ⟨rfl, ⟨rfl, rfl, rfl⟩, rfl, rfl⟩
  | true =>
    rw [Query.ensurePermissions_run names up]
    have later := keepsRoles_foldl s.list (s.directory.accepted (s.list.unknown names))
    exact ⟨later.resolver, later.directory⟩

/-- What a warmup that succeeds reports on the listed roles, and what it does to the caches and to
the counters. -/
structure Warmed (s : System) (roles : List RoleId) (report : WarmupReport)
    (after : System) : Prop where
  counted : report.rolesWarmed + report.rolesSkipped.length = roles.length
  skipped : report.rolesSkipped.Perm (roles.filter fun role => !s.directory.loads role)
  sorted : report.rolesSkipped.Pairwise (· ≤ ·)
  activity : after.resolver.activity = { s.resolver.activity with
    loadErrors := s.resolver.activity.loadErrors + .ofNat report.rolesSkipped.length
    warmups := s.resolver.activity.warmups + 1
    skippedRoles := s.resolver.activity.skippedRoles + .ofNat report.rolesSkipped.length }
  keys : after.resolver.grants.keys =
    (Cache.ahead (roles.filter s.directory.loads) s.resolver.grants.keys).take
      s.resolver.grants.capacity
  values : ∀ role ∈ after.resolver.grants.keys, after.resolver.grants.peek? role =
    if role ∈ roles.filter s.directory.loads then
      (after.directory.roles.find? role).map .ofRole
    else s.resolver.grants.peek? role
  capacity : after.resolver.grants.capacity = s.resolver.grants.capacity
  hits : after.resolver.grants.hits = s.resolver.grants.hits
  misses : after.resolver.grants.misses = s.resolver.grants.misses
  memberships : after.resolver.memberships = s.resolver.memberships
  directory : s.directory.Alike after.directory

theorem warmed_resolver (s : System) (roles : List RoleId) : (s.warmed roles).resolver =
    { s.resolver with
      grants := s.resolver.grants.fill s.directory.image roles
      activity := (s.resolver.activity.recordLoadErrors
        (roles.filter fun role => !s.directory.loads role).length).recordWarmup
        (roles.filter fun role => !s.directory.loads role).length } := by
  rw [warmed, loadRoles_snd]
  rfl

theorem warmed_directory (s : System) (roles : List RoleId) : (s.warmed roles).directory =
    { s.directory with roleLoads := (s.warmed roles).directory.roleLoads } :=
  congrArg System.directory (s.loadRoles_snd roles)

theorem alike_warmed (s : System) (roles : List RoleId) :
    s.directory.Alike (s.warmed roles).directory := by
  rw [warmed_directory]
  exact ⟨⟨rfl, rfl, rfl⟩, rfl, rfl⟩

theorem warmed_of_listed (s : System) (created : Nat) (roles : List RoleId) :
    s.Warmed roles (s.directory.report created roles) (s.warmed roles) := by
  have size : (s.directory.report created roles).rolesSkipped.length =
      (roles.filter fun role => !s.directory.loads role).length := List.length_mergeSort _
  have alike := s.alike_warmed roles
  obtain ⟨capacity, hits, misses⟩ :=
    Cache.fill_counts s.resolver.grants s.directory.image roles
  constructor
  · rw [size]
    exact Nat.sub_add_cancel (List.length_filter_le _ _)
  · exact List.mergeSort_perm _ _
  · have trans (a b c : RoleId) (ab : decide (a ≤ b) = true) (bc : decide (b ≤ c) = true) :
        decide (a ≤ c) = true :=
      decide_eq_true (Std.le_trans (of_decide_eq_true ab) (of_decide_eq_true bc))
    have total (a b : RoleId) : (decide (a ≤ b) || decide (b ≤ a)) = true := by
      simpa using Std.le_total (a := a) (b := b)
    have ordered := List.pairwise_mergeSort trans total
      (roles.filter fun role => !s.directory.loads role)
    exact ordered.imp of_decide_eq_true
  · rw [warmed_resolver, size]
    rfl
  · rw [warmed_resolver, ← Directory.given_image]
    exact Cache.keys_fill ..
  · rw [warmed_resolver, alike.roles, ← Directory.given_image]
    intro role held
    refine (Cache.peek?_fill _ _ _ held).trans ?_
    split
    · rename_i given
      rw [Directory.given_image] at given
      exact Directory.image_of_loads (List.mem_filter.1 given).2
    · rfl
  · rw [warmed_resolver]
    exact capacity
  · rw [warmed_resolver]
    exact hits
  · rw [warmed_resolver]
    exact misses
  · rw [warmed_resolver]
  · exact alike

theorem Warmed.of_keepsRoles {s t after : System} {roles : List RoleId} {report : WarmupReport}
    (keeps : s.KeepsRoles t) (warmed : t.Warmed roles report after) :
    s.Warmed roles report after := by
  obtain ⟨counted, skipped, sorted, activity, keys, values, capacity, hits, misses, memberships,
    directory⟩ := warmed
  rw [keeps.resolver] at activity keys values capacity hits misses memberships
  rw [keeps.directory.loads] at skipped keys values
  exact ⟨counted, skipped, sorted, activity, keys, values, capacity, hits, misses, memberships,
    keeps.directory.trans directory⟩

theorem available_ensured {s t : System} {names : List String} {created : Nat}
    (ensured : (Query.ensurePermissions names).run.run s = (.ok created, t)) :
    t.directory.available = true := by
  have keeps := s.ensurePermissions_keepsRoles names
  rw [ensured] at keeps
  rw [keeps.directory.available]
  cases up : s.directory.available with
  | true => rfl
  | false =>
    rw [Query.ensurePermissions_unavailable names up] at ensured
    cases ensured

/-- A warmup that succeeds makes the roles that load the most recently used ones, in the order in
which they were listed last, and counts the others. One that fails leaves no trace but in the
catalog. -/
theorem warmup_effect (s : System) (source : Source) (names : List String) :
    let ensured := ((Query.ensurePermissions names).run.run s).1
    let ran := (Query.warmupFrom source names).run.run s
    match ran.1 with
    | .ok report => ensured = .ok report.permissionsCreated ∧
      ∃ roles, source.listing s.directory = .ok roles ∧ s.Warmed roles report ran.2
    | .error e =>
      (ensured = .error e ∨
        ∃ created, ensured = .ok created ∧ source.listing s.directory = .error e) ∧
      ran.2.resolver = { s.resolver with catalog := ran.2.resolver.catalog } := by
  dsimp only
  have keeps := s.ensurePermissions_keepsRoles names
  rcases ensured : (Query.ensurePermissions names).run.run s with ⟨e | created, t⟩
  · rw [ensured] at keeps
    rw [Query.warmupFrom_failed ensured]
    exact ⟨.inl rfl, keeps.resolver⟩
  · rw [ensured] at keeps
    have same := source.listing_alike keeps.directory
    cases listed : source.listing t.directory with
    | error e =>
      rw [Query.warmupFrom_unlisted ensured listed]
      exact ⟨.inr ⟨created, rfl, same ▸ listed⟩, keeps.resolver⟩
    | ok roles =>
      rw [Query.warmupFrom_listed ensured (available_ensured ensured) listed]
      exact ⟨rfl, roles, same ▸ listed, (t.warmed_of_listed created roles).of_keepsRoles keeps⟩

/-- Two roles are cached, neither of which will be listed, and there is room for a third. -/
def crowded : System :=
  let held := ((Cache.new 3).put ⟨6⟩ ⟨⟨6⟩, ⟨3⟩, .empty, false⟩).2
  ⟨{ Resolver.sample with grants := (held.put ⟨5⟩ ⟨⟨5⟩, ⟨3⟩, .empty, false⟩).2 },
    Directory.sample.insertRole ⟨⟨8⟩, ⟨3⟩, "", "", .empty, false⟩⟩

theorem warmup_effect_crowded :
    let source := Source.reader (.ok [⟨8⟩, ⟨7⟩, ⟨9⟩, ⟨8⟩, ⟨9⟩])
    let ran := (Query.warmupFrom source ["a"]).run.run crowded
    ∃ report, ran.1 = .ok report ∧ report.rolesSkipped.Perm [⟨9⟩, ⟨9⟩] ∧
      ran.2.resolver.grants.keys = [⟨8⟩, ⟨7⟩, ⟨5⟩] ∧ ran.2.resolver.activity.skippedRoles = 2 := by
  obtain ⟨_, roles, listed, warmed⟩ := warmup_effect crowded
    (.reader (.ok [⟨8⟩, ⟨7⟩, ⟨9⟩, ⟨8⟩, ⟨9⟩])) ["a"]
  cases listed
  refine ⟨_, rfl, warmed.skipped, warmed.keys.trans (by decide), ?_⟩
  have skipped := warmed.skipped.length_eq
  rw [warmed.activity, skipped]
  rfl

end System

end Authorization
