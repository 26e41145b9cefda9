import Authorization.Proofs.Cache.Filling
import Authorization.Proofs.Queries.Trace

namespace Authorization

namespace Cache

variable {κ ν : Type} [DecidableEq κ] {c d : Cache κ ν}

theorem mem_entries_iff {e : κ × ν} : e ∈ c.entries ↔ c.peek? e.1 = some e.2 := by
  constructor
  · exact peek?_of_mem
  · intro held
    obtain ⟨x, found, value⟩ := Option.map_eq_some_iff.1 held
    have key : x.1 = e.1 := by simpa using List.find?_some found
    exact Prod.ext key value ▸ List.mem_of_find?_eq_some found

theorem entries_perm_iff : d.entries.Perm c.entries ↔ ∀ k, d.peek? k = c.peek? k := by
  have distinct (c : Cache κ ν) : c.entries.Nodup := List.Nodup.of_map _ c.nodup
  rw [List.perm_ext_iff_of_nodup (distinct d) (distinct c)]
  simp only [mem_entries_iff]
  constructor
  · intro same k
    exact Option.ext fun v => same (k, v)
  · intro same e
    rw [same]

/-- The same entries in whatever order, without a miss and without an eviction. -/
structure Shuffled (c d : Cache κ ν) : Prop where
  entries : d.entries.Perm c.entries
  capacity : d.capacity = c.capacity
  misses : d.misses = c.misses
  evictions : d.evictions = c.evictions

namespace Shuffled

omit [DecidableEq κ] in
theorem refl (c : Cache κ ν) : c.Shuffled c := ⟨.refl _, rfl, rfl, rfl⟩

omit [DecidableEq κ] in
theorem trans {e : Cache κ ν} (first : c.Shuffled d) (second : d.Shuffled e) : c.Shuffled e where
  entries := second.entries.trans first.entries
  capacity := second.capacity.trans first.capacity
  misses := second.misses.trans first.misses
  evictions := second.evictions.trans first.evictions

theorem peek? (shuffled : c.Shuffled d) (k : κ) : d.peek? k = c.peek? k :=
  entries_perm_iff.1 shuffled.entries k

theorem get {k : κ} {v : ν} (held : c.peek? k = some v) : c.Shuffled (c.get k).2 := by
  have entries := entries_perm_iff.2 (c.peek?_get k)
  unfold Cache.get at entries ⊢
  rw [held] at entries ⊢
  exact ⟨entries, rfl, rfl, rfl⟩

end Shuffled

end Cache

namespace Resolver

/-- Nothing is different but the order of recency, the hits and the count of checks. -/
structure Shuffled (r after : Resolver) : Prop where
  memberships : r.memberships.Shuffled after.memberships
  grants : r.grants.Shuffled after.grants
  rest : after = { r with
    memberships := after.memberships
    grants := after.grants
    activity := { r.activity with
      totalChecks := after.activity.totalChecks
      allowedChecks := after.activity.allowedChecks } }

namespace Shuffled

variable {r between after : Resolver}

theorem refl (r : Resolver) : r.Shuffled r := ⟨.refl _, .refl _, rfl⟩

theorem trans (first : r.Shuffled between) (second : between.Shuffled after) : r.Shuffled after where
  memberships := first.memberships.trans second.memberships
  grants := first.grants.trans second.grants
  rest := by
    rw [second.rest, first.rest]

theorem cached? (shuffled : r.Shuffled after) : after.cached? = r.cached? := by
  funext k
  cases k with
  | user user => exact shuffled.memberships.peek? user
  | role role => exact shuffled.grants.peek? role

theorem used {k : Key} {v : k.Snapshot} (held : r.cached? k = some v) : r.Shuffled (r.used k) := by
  cases k with
  | user user => exact ⟨.get held, .refl _, rfl⟩
  | role role => exact ⟨.refl _, .get held, rfl⟩

end Shuffled

end Resolver

namespace Program

variable {α β : Type} {held : (k : Key) → Option k.Snapshot}

/-- The result of some work, if the snapshots that are held are all that it needs. -/
def recollect? (held : (k : Key) → Option k.Snapshot) : Program α → Option α
  | .done a => some a
  | .act (.seekMembership user) next =>
    (held (.user user)).bind fun m => (next (some m)).recollect? held
  | .act (.seekGrant role) next =>
    (held (.role role)).bind fun g => (next (some g)).recollect? held
  | .act (.recordCheck _) next => (next ()).recollect? held
  | _ => none

theorem recollect?_bind (p : Program α) (f : α → Program β) :
    (p >>= f).recollect? held = (p.recollect? held).bind fun a => (f a).recollect? held := by
  induction p with
  | done a => rfl
  | act a next ih =>
    cases a with
    | seekMembership user =>
      exact (Option.bind_congr fun m _ => ih (some m)).trans (Option.bind_assoc ..).symm
    | seekGrant role =>
      exact (Option.bind_congr fun g _ => ih (some g)).trans (Option.bind_assoc ..).symm
    | recordCheck allowed => exact ih ()
    | knowsPermission _ => rfl
    | recordWarmup _ => rfl
  | ask request next ih => rfl
  | loadRoles roles next ih => rfl

/-- What can be recalled can be recalled as long as nothing of it is dropped. -/
theorem recollect?_mono {more : (k : Key) → Option k.Snapshot}
    (kept : ∀ k v, held k = some v → more k = some v) {p : Program α} {a : α}
    (recalled : p.recollect? held = some a) : p.recollect? more = some a := by
  induction p with
  | done _ => exact recalled
  | act act next ih =>
    cases act with
    | seekMembership user =>
      obtain ⟨m, found, rest⟩ := Option.bind_eq_some_iff.1 recalled
      exact Option.bind_eq_some_iff.2 ⟨m, kept _ _ found, ih _ rest⟩
    | seekGrant role =>
      obtain ⟨g, found, rest⟩ := Option.bind_eq_some_iff.1 recalled
      exact Option.bind_eq_some_iff.2 ⟨g, kept _ _ found, ih _ rest⟩
    | recordCheck allowed => exact ih () recalled
    | knowsPermission _ => cases recalled
    | recordWarmup _ => cases recalled
  | ask request next ih => cases recalled
  | loadRoles roles next ih => cases recalled

/-- Work for which enough is cached ends in the same way over any directory, and it asks nothing
of it. -/
theorem run_of_recollect? {p : Program α} {r : Resolver} {a : α}
    (recalled : p.recollect? r.cached? = some a) :
    ∃ after, r.Shuffled after ∧
      ∀ d, p.run ⟨r, d⟩ = (a, ⟨after, d⟩) ∧ Event.requests (p.events ⟨r, d⟩) = [] := by
  induction p generalizing r with
  | done _ =>
    cases recalled
    exact ⟨r, .refl r, fun d => ⟨rfl, rfl⟩⟩
  | act act next ih =>
    cases act with
    | seekMembership user =>
      obtain ⟨m, found, rest⟩ := Option.bind_eq_some_iff.1 recalled
      have same : r.Shuffled (r.used (.user user)) := .used found
      rw [← same.cached?] at rest
      obtain ⟨after, shuffled, runs⟩ := ih _ rest
      have sought : (r.memberships.get user).1 = some m := (Cache.fst_get ..).trans found
      refine ⟨after, same.trans shuffled, fun d => ?_⟩
      simp only [run, events, System.perform, Resolver.perform, sought]
      exact runs d
    | seekGrant role =>
      obtain ⟨g, found, rest⟩ := Option.bind_eq_some_iff.1 recalled
      have same : r.Shuffled (r.used (.role role)) := .used found
      rw [← same.cached?] at rest
      obtain ⟨after, shuffled, runs⟩ := ih _ rest
      have sought : (r.grants.get role).1 = some g := (Cache.fst_get ..).trans found
      refine ⟨after, same.trans shuffled, fun d => ?_⟩
      simp only [run, events, System.perform, Resolver.perform, sought]
      exact runs d
    | recordCheck allowed =>
      have same : r.Shuffled (r.perform (.recordCheck allowed)).2 := ⟨.refl _, .refl _, rfl⟩
      have rest : (next ()).recollect? (r.perform (.recordCheck allowed)).2.cached? = some a := by
        rw [same.cached?]
        exact recalled
      obtain ⟨after, shuffled, runs⟩ := ih () rest
      exact ⟨after, same.trans shuffled, runs⟩
    | knowsPermission _ => cases recalled
    | recordWarmup _ => cases recalled
  | ask request next ih => cases recalled
  | loadRoles roles next ih => cases recalled

end Program

namespace Query

variable {α β : Type} {held : (k : Key) → Option k.Snapshot}

theorem recollect?_bind_ok {q : Query α} {a : α} (first : q.run.recollect? held = some (.ok a))
    (f : α → Query β) : (q >>= f).run.recollect? held = (f a).run.recollect? held := by
  rw [ExceptT.run_bind, Program.recollect?_bind, first]
  rfl

theorem lookUp_recollect? {k : Key} {v : k.Snapshot} (found : held k = some v) :
    (lookUp k).run.recollect? held = some (.ok v) := by
  cases k with
  | user user =>
    show (held (.user user)).bind _ = _
    rw [found]
    rfl
  | role role =>
    show (held (.role role)).bind _ = _
    rw [found]
    rfl

end Query

end Authorization
