import Authorization.Proofs.Queries.Contract
import Authorization.Proofs.Snapshots.Directory

namespace Authorization

def Evidence.any : Evidence where
  snapshot _ _ := True
  answer _ _ := True
  brings _ _ := trivial

namespace System

/-- Every entry of the resolver is what is on record. -/
def Coherent (s : System) : Prop :=
  ∀ k v, s.resolver.cached? k = some v → s.directory.snapshot? k = some v

theorem Coherent.agrees {s : System} {r : Resolver} (coherent : s.Coherent)
    (same : r.Agrees s.resolver) : Coherent ⟨r, s.directory⟩ := by
  intro k v held
  exact coherent k v ((same.cached k).symm.trans held)

theorem Coherent.records {s : System} {d : Directory} (coherent : s.Coherent)
    (same : s.directory.SameRecords d) : Coherent ⟨s.resolver, d⟩ := by
  intro k v held
  exact (same.snapshot? k).trans (coherent k v held)

theorem Coherent.invalidate {s : System} (coherent : s.Coherent) (what : Invalidation) :
    Coherent ⟨s.resolver.invalidate what, s.directory⟩ := by
  intro k v held
  rw [Resolver.cached?_invalidate] at held
  split at held
  · cases held
  · exact coherent k v held

/-- A request keeps the entries current if it changes no record but one that is then invalidated. -/
theorem Coherent.request {s : System} (coherent : s.Coherent) {request : Request}
    (keeps : ∀ (k : Key) (v : k.Snapshot), s.directory.snapshot? k = some v →
      (s.directory.serve request).2.snapshot? k = some v ∨
        request.invalidation? (s.directory.serve request).1 = some (.one k)) :
    (s.request request).2.Coherent := by
  intro k v held
  simp only [System.request] at held ⊢
  cases owed : request.invalidation? (s.directory.serve request).1 with
  | some what =>
    rw [Resolver.absorb_of_invalidation _ _ _ _ owed, Resolver.cached?_invalidate] at held
    split at held
    · cases held
    · rename_i missed
      rcases keeps k v (coherent k v held) with same | due
      · exact same
      · exact absurd (.inl (Option.some.inj (owed.symm.trans due))) missed
  | none =>
    have before : s.directory.snapshot? k = some v := by
      rcases Resolver.cached?_absorb owed held with old | ⟨brought, _⟩
      · exact coherent k v old
      · exact Directory.snapshot?_of_serve brought
    rcases keeps k v before with same | due
    · exact same
    · rw [owed] at due
      cases due

theorem Coherent.read {s : System} (coherent : s.Coherent) {request : Request}
    (reads : request.Reads) : (s.request request).2.Coherent :=
  coherent.request fun k _ there =>
    .inl (((s.directory.serve_reads reads).toSameRecords.snapshot? k).trans there)

/-- What holds of a system while nothing is under way. -/
structure Steady (s : System) : Prop where
  coherent : s.Coherent
  numbered : s.directory.Numbered

theorem Steady.write {s : System} (steady : s.Steady) (command : Command) :
    (s.request (.write command)).2.Steady := by
  have served := s.directory.serve_served (.write command)
  constructor
  · apply steady.coherent.request
    intro k v there
    exact served.snapshot? steady.numbered there
  · exact served.numbered steady.numbered

theorem Steady.read {s : System} (steady : s.Steady) {request : Request} (reads : request.Reads) :
    (s.request request).2.Steady :=
  ⟨steady.coherent.read reads,
    (s.directory.serve_reads reads).toSameRecords.numbered steady.numbered⟩

theorem Steady.loadRoles {s : System} (steady : s.Steady) (roles : List RoleId) :
    (s.loadRoles roles).2.Steady := by
  induction roles generalizing s with
  | nil => exact steady
  | cons role roles ih => exact ih (steady.read trivial)

theorem Steady.run {s : System} (steady : s.Steady) {α : Type} {p : Program α} {result : α → Prop}
    (meets : p.Meets Request.Reads .any result) : (p.run s).2.Steady := by
  induction p generalizing s with
  | done a => exact steady
  | act a next ih =>
    have kept : (s.perform a).2.Steady :=
      ⟨steady.coherent.agrees (s.resolver.perform_agrees a), steady.numbered⟩
    have found := Evidence.finds_perform (e := .any) (r := s.resolver) (fun _ _ _ => trivial) a
    exact ih _ kept (meets _ found)
  | ask request next ih => exact ih _ (steady.read meets.1) (meets.2 _ trivial)
  | loadRoles roles next ih => exact ih _ (steady.loadRoles roles) (meets.2 _)

def call (s : System) (call : Call) : System := ((call.program s.resolver).run s).2

theorem Steady.call {s : System} (steady : s.Steady) (call : Call) : (s.call call).Steady := by
  cases call with
  | command c => exact steady.write c
  | _ => exact steady.run (Call.program_reads .any s.resolver rfl)

/-- The systems that a newly built resolver over any directory can get to, with calls that do not
overlap, as long as users and roles are written through its command handler. -/
inductive Reached : System → Prop where
  | built {config : Config} {projection : Option Projection} {r : Resolver} {d : Directory}
      (built : Resolver.build config projection = .ok r) (filled : d.Filled) : Reached ⟨r, d⟩
  | call {s : System} (reached : Reached s) (call : Call) : Reached (s.call call)
  | invalidate {s : System} (reached : Reached s) (what : Invalidation) :
      Reached { s with resolver := s.resolver.invalidate what }
  | upkeep {s : System} (reached : Reached s) {change : Upkeep} (harmless : change.writes = false) :
      Reached { s with directory := s.directory.upkeep change }

theorem Reached.steady {s : System} (reached : s.Reached) : s.Steady := by
  induction reached with
  | built built filled =>
    constructor
    · intro k v held
      rw [Resolver.cached?_build built] at held
      cases held
    · exact filled.numbered
  | call _ call ih => exact ih.call call
  | invalidate _ what ih => exact ⟨ih.coherent.invalidate what, ih.numbered⟩
  | @upkeep s _ change harmless ih =>
    have same := s.directory.upkeep_records harmless
    exact ⟨ih.coherent.records same, same.numbered ih.numbered⟩

end System

end Authorization
