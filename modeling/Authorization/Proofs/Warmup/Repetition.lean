import Authorization.Proofs.Warmup.Effect

namespace Authorization

namespace System

variable {s t : System} {source : Source} {names : List String} {created : Nat}
  {report : WarmupReport}

theorem unknown_ensured (ensured : (Query.ensurePermissions names).run.run s = (.ok created, t)) :
    t.Listed ∧ t.unknown names = [] := by
  cases up : s.directory.available with
  | false =>
    rw [Query.ensurePermissions_unavailable names up] at ensured
    cases ensured
  | true =>
    rw [Query.ensurePermissions_run names up] at ensured
    rcases s.directory.accepts_or_rejects (s.list.unknown names) with
      all | ⟨front, name, back, parts, all, rejected⟩
    · obtain ⟨answer, whole⟩ := Directory.outcome_of_accepted all 0
      rw [answer, whole] at ensured
      obtain ⟨_, rfl⟩ := Prod.ext_iff.1 ensured
      exact ⟨s.listed_list.foldl, unknown_foldl (List.append_nil _).symm⟩
    · obtain ⟨answer, _⟩ := Directory.outcome_of_rejected front back all rejected 0
      rw [parts, answer] at ensured
      cases ensured

theorem ensurePermissions_idle (up : s.directory.available = true) (listed : s.Listed)
    (known : s.unknown names = []) :
    (Query.ensurePermissions names).run.run s = (.ok 0, s) := by
  rw [Query.ensurePermissions_run names up, listed.list_eq, known]
  rfl

theorem warmupFrom_parts {after : System}
    (ran : (Query.warmupFrom source names).run.run s = (.ok report, after)) :
    ∃ created t roles, (Query.ensurePermissions names).run.run s = (.ok created, t) ∧
      source.listing t.directory = .ok roles ∧ report = t.directory.report created roles ∧
      after = t.warmed roles := by
  rcases ensured : (Query.ensurePermissions names).run.run s with ⟨e | created, t⟩
  · rw [Query.warmupFrom_failed ensured] at ran
    cases ran
  · cases listed : source.listing t.directory with
    | error e =>
      rw [Query.warmupFrom_unlisted ensured listed] at ran
      cases ran
    | ok roles =>
      rw [Query.warmupFrom_listed ensured (available_ensured ensured) listed] at ran
      cases ran
      exact ⟨created, t, roles, rfl, listed, rfl, rfl⟩

/-- Nothing that a warmup prepares differs. Loads are counted, and so are warmups. -/
structure Unmoved (s after : System) : Prop where
  permissions : after.directory.permissions = s.directory.permissions
  created : after.directory.permissionsCreated = s.directory.permissionsCreated
  catalog : after.resolver.catalog = s.resolver.catalog
  memberships : after.resolver.memberships = s.resolver.memberships
  entries : after.resolver.grants.entries = s.resolver.grants.entries
  hits : after.resolver.grants.hits = s.resolver.grants.hits
  misses : after.resolver.grants.misses = s.resolver.grants.misses

theorem unmoved_warmed (t : System) (roles : List RoleId) :
    (t.warmed roles).Unmoved ((t.warmed roles).warmed roles) := by
  have same := (t.alike_warmed roles).image
  obtain ⟨_, hits, misses⟩ :=
    (t.resolver.grants.fill t.directory.image roles).fill_counts t.directory.image roles
  constructor
  · rw [warmed_directory (t.warmed roles)]
  · rw [warmed_directory (t.warmed roles)]
  · rw [warmed_resolver (t.warmed roles)]
  · rw [warmed_resolver (t.warmed roles)]
  · rw [warmed_resolver (t.warmed roles), same, warmed_resolver t]
    exact Cache.entries_fill_fill ..
  · rw [warmed_resolver (t.warmed roles), same, warmed_resolver t]
    exact hits
  · rw [warmed_resolver (t.warmed roles), same, warmed_resolver t]
    exact misses

/-- A warmup that succeeds has the same report when it is run again, except that it creates nothing,
and leaves everything as it is. -/
theorem warmup_repeated {after : System}
    (first : (Query.warmupFrom source names).run.run s = (.ok report, after)) :
    let again := (Query.warmupFrom source names).run.run after
    again.1 = .ok { report with permissionsCreated := 0 } ∧ after.Unmoved again.2 := by
  obtain ⟨created, t, roles, ensured, listed, rfl, rfl⟩ := warmupFrom_parts first
  -- loading the roles has changed neither catalog, so that all names are still known
  have alike := t.alike_warmed roles
  have up : (t.warmed roles).directory.available = true :=
    alike.available.trans (available_ensured ensured)
  obtain ⟨knows, none⟩ := unknown_ensured ensured
  have directory : (t.warmed roles).directory.permissions = t.directory.permissions := by
    rw [warmed_directory]
  have resolver : (t.warmed roles).resolver.catalog = t.resolver.catalog := by
    rw [warmed_resolver]
  have knows : (t.warmed roles).Listed := by
    rw [Listed, directory, resolver]
    exact knows
  have none : (t.warmed roles).unknown names = [] := by
    rw [unknown, resolver]
    exact none
  have listed : source.listing (t.warmed roles).directory = .ok roles :=
    (source.listing_alike alike).trans listed
  have same : (t.warmed roles).directory.report 0 roles =
      { t.directory.report created roles with permissionsCreated := 0 } := by
    rw [Directory.report, alike.loads]
    rfl
  dsimp only
  rw [Query.warmupFrom_listed (ensurePermissions_idle up knows none) up listed, same]
  exact ⟨rfl, t.unmoved_warmed roles⟩

/-- There is room for one of the roles that are listed. -/
def cramped : System := ⟨.sample, crowded.directory⟩

theorem warmup_repeated_cramped :
    let source := Source.projection (some (.fixed [⟨8⟩, ⟨7⟩, ⟨9⟩, ⟨8⟩, ⟨9⟩]))
    let first := (Query.warmupFrom source ["a"]).run.run cramped
    let again := (Query.warmupFrom source ["a"]).run.run first.2
    ∃ report, first.1 = .ok report ∧ report.permissionsCreated = 1 ∧ report.rolesWarmed = 3 ∧
      again.1 = .ok { report with permissionsCreated := 0 } ∧
      again.2.resolver.grants.keys = [⟨8⟩] := by
  have first : (Query.warmupFrom (.projection (some (.fixed [⟨8⟩, ⟨7⟩, ⟨9⟩, ⟨8⟩, ⟨9⟩])))
      ["a"]).run.run cramped = (.ok ⟨1, 3, _⟩, _) := rfl
  obtain ⟨report, unmoved⟩ := warmup_repeated first
  have keys := congrArg (List.map (·.1)) unmoved.entries
  exact ⟨_, rfl, rfl, rfl, report, keys.trans rfl⟩

end System

end Authorization
