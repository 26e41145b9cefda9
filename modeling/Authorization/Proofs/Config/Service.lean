import Authorization.Config.Format
import Authorization.Proofs.Config.Overrides
import Authorization.Proofs.Interleaving.Evidence
import Authorization.Proofs.Json.RoundTrip
import Authorization.Proofs.Queries.Coherence
import Authorization.Proofs.Renewal.Equivalence

namespace Authorization

namespace Resolver

variable {c : Config} {projection : Option Projection}

theorem build_error_iff {e : Error} :
    build c projection = .error e ↔ c.validate = .error e := by
  unfold build
  cases c.validate with
  | ok _ => exact iff_of_false nofun nofun
  | error _ =>
    constructor
    · rintro ⟨⟩
      rfl
    · rintro ⟨⟩
      rfl

theorem build_ok_iff : (∃ r, build c projection = .ok r) ↔ c.validate = .ok () := by
  unfold build
  cases c.validate with
  | ok _ => exact iff_of_true ⟨_, rfl⟩ rfl
  | error _ => exact iff_of_false nofun nofun

theorem valid_of_build {r : Resolver} (built : build c projection = .ok r) : c.Valid :=
  Config.validate_ok_iff.1 (build_ok_iff.1 ⟨r, built⟩)

/-- No capacity is raised to one, since those of a valid configuration are positive. -/
theorem settings_build {r : Resolver} (built : build c projection = .ok r) : r.settings =
    (c, projection, c.membershipCacheSize.toNat, c.permissionCacheSize.toNat) := by
  have valid := valid_of_build built
  obtain rfl := build_ok built
  have positive {n : UInt64} (bound : 1 ≤ n) : max n.toNat 1 = n.toNat :=
    Nat.max_eq_left (UInt64.le_iff_toNat_le.1 bound)
  simp only [settings, Cache.new, positive valid.membershipCacheSize,
    positive valid.permissionCacheSize]

end Resolver

namespace Config

/-- The configurations that have been validated on their way in. -/
inductive Checked : Config → Prop where
  | default : Checked .default
  | overridden {c d : Config} {environment : Environment}
    (accepted : c.withOverrides environment = .ok d) : Checked d
  | environment {c : Config} {environment : Environment}
    (accepted : ofEnvironment environment = .ok c) : Checked c
  | toml {c : Config} {text : String} (accepted : ofToml text = .ok c) : Checked c
  | file {c : Config} {file : File} (accepted : ofFile file = .ok c) : Checked c

theorem valid_default : Valid .default := ⟨by decide, by decide, nofun⟩

theorem valid_of_toml {c : Config} {text : String} (accepted : ofToml text = .ok c) : c.Valid := by
  unfold ofToml at accepted
  split at accepted
  · obtain ⟨valid, rfl⟩ := validated_ok_iff.1 accepted
    exact valid
  · cases accepted

theorem Checked.valid {c : Config} (checked : Checked c) : c.Valid := by
  cases checked with
  | default => exact valid_default
  | overridden accepted => exact (withOverrides_ok_iff.1 accepted).2
  | environment accepted => exact (withOverrides_ok_iff.1 accepted).2
  | toml accepted => exact valid_of_toml accepted
  | @file _ file accepted =>
    unfold ofFile at accepted
    cases text : file.text with
    | ok _ =>
      rw [text] at accepted
      exact valid_of_toml accepted
    | error _ =>
      rw [text] at accepted
      cases accepted

/-- What a warmup with the permissions of a configuration may ask of the directory. -/
structure Warms (c : Config) (request : Request) : Prop where
  on : c.warmupOnStart = true
  creates : ∀ name, request = .createPermission name →
    name ∈ c.knownPermissions ∧ ∃ ch ∈ name.toList, isBlank ch = false
  reads : ∀ command, request ≠ .write command

theorem Valid.warms {c : Config} (valid : c.Valid) (on : c.warmupOnStart = true) {name : String}
    (known : name ∈ c.knownPermissions) : c.Warms (.createPermission name) where
  on := on
  creates := by
    rintro _ ⟨⟩
    exact ⟨known, valid.knownPermissions name known⟩
  reads := nofun

theorem warmupFromConfig_meets {r : Resolver} {e : Evidence} (valid : r.config.Valid) :
    r.warmupFromConfig.Meets r.config.Warms e fun report =>
      report.isSome = r.config.warmupOnStart := by
  unfold Resolver.warmupFromConfig
  cases on : r.config.warmupOnStart with
  | false => exact Query.meets_pure rfl
  | true =>
    have loads (k : Key) : r.config.Warms k.load := by
      cases k <;> exact ⟨on, nofun, nofun⟩
    have creates : ∀ name ∈ r.config.knownPermissions, r.config.Warms (.createPermission name) :=
      fun _ known => valid.warms on known
    have warms : (r.warmup r.config.knownPermissions).Meets r.config.Warms e fun _ => True :=
      Query.warmup_meets ⟨on, nofun, nofun⟩ loads ⟨on, nofun, nofun⟩ r.projection creates
    exact warms.bind fun _ _ => Query.meets_pure rfl

end Config

/-- What a call may ask of the directory on a resolver with a configuration. -/
def Call.Honours (c : Config) : Call → Request → Prop
  | warmupFromConfig => c.Warms
  | _ => fun _ => True

/-- What a call may answer on a resolver with a configuration. -/
def Call.Reports (c : Config) : (call : Call) → call.Answer → Prop
  | warmupFromConfig => fun answer =>
    ∀ report, answer = .ok report → report.isSome = c.warmupOnStart
  | _ => fun _ => True

theorem Call.program_honours {r : Resolver} {e : Evidence} (valid : r.config.Valid) (call : Call) :
    (call.program r).Meets (call.Honours r.config) e (call.Reports r.config) := by
  cases call with
  | warmupFromConfig =>
    apply Program.Meets.mono (Config.warmupFromConfig_meets valid) fun _ => id
    rintro _ holds report rfl
    exact holds
  | _ =>
    exact (Call.program_meets e r _).mono (fun _ _ => trivial) fun _ _ => trivial

namespace World

variable {ι : Type} [DecidableEq ι] {w : World ι} {moves : Nat → Move ι}

/-- A resolver is set up as configured, and its warmups do what the configuration says. -/
structure KeepsTo (w : World ι) (c : Config) (projection : Option Projection) (i : ι) : Prop where
  config : (w.resolvers i).config = c
  memberships : (w.resolvers i).memberships.capacity = c.membershipCacheSize.toNat
  grants : (w.resolvers i).grants.capacity = c.permissionCacheSize.toNat
  warmup : (w.resolvers i).warmupFromConfig =
    if c.warmupOnStart then some <$> Query.warmup projection c.knownPermissions else pure none
  requests : ∀ began phase, ⟨i, .warmupFromConfig, began, phase⟩ ∈ w.tasks →
    ∀ f ∈ phase.flights, c.Warms f.request
  reports : ∀ began report, ⟨i, .warmupFromConfig, began, .finished (.ok report)⟩ ∈ w.tasks →
    report.isSome = c.warmupOnStart

theorem config_after (w : World ι) (moves : Nat → Move ι) (n : Nat) (i : ι) :
    ((w.after moves n).resolvers i).config = (w.resolvers i).config :=
  congrArg Prod.fst (settings_after w moves n i)

theorem task_honours (fresh : w.Fresh) {n : Nat} {task : Task ι}
    (member : task ∈ (w.after moves n).tasks) :
    task.phase.Meets (task.call.Honours (w.resolvers task.home).config) .any
      (task.call.Reports (w.resolvers task.home).config) := by
  have begins (m : Nat) (home : ι) (call : Call) :
      (call.program ((w.after moves m).resolvers home)).Meets
        (call.Honours (w.resolvers home).config) .any (call.Reports (w.resolvers home).config) := by
    -- A resolver never changes its configuration, and the one it was built with is valid.
    obtain ⟨config, projection, built⟩ := fresh.built home
    have starts := congrArg Prod.fst (Resolver.settings_build built)
    have same := config_after w moves m home
    have valid : ((w.after moves m).resolvers home).config.Valid := by
      rw [same, show (w.resolvers home).config = config from starts]
      exact Resolver.valid_of_build built
    rw [← same]
    exact call.program_honours valid
  exact tasks_meet_of fresh begins (fun _ _ _ _ _ _ _ _ => trivial)
    (fun _ _ _ _ _ _ _ _ _ _ _ => trivial) (Nat.le_refl n) member

theorem keepsTo_of_build {c : Config} {projection : Option Projection} {i : ι} (fresh : w.Fresh)
    (built : Resolver.build c projection = .ok (w.resolvers i)) (n : Nat) :
    (w.after moves n).KeepsTo c projection i := by
  have start := Resolver.settings_build built
  have same := (settings_after w moves n i).trans start
  simp only [Resolver.settings, Prod.mk.injEq] at start same
  obtain ⟨config, source, memberships, grants⟩ := same
  constructor
  · exact config
  · exact memberships
  · exact grants
  · rw [Resolver.warmupFromConfig, Resolver.warmup, config, source]
    split <;> rfl
  · intro began phase member f flying
    have meets := task_honours fresh member
    rw [start.1] at meets
    exact meets.asked flying
  · intro began report member
    have meets := task_honours fresh member
    rw [start.1] at meets
    exact meets report rfl

end World

namespace Config

/-- How the configuration that a service starts from, its overrides and the resolver that is built
from it go together. -/
structure Composes (c : Config) : Prop where
  overrides : ∀ environment outcome,
    c.withOverrides environment = outcome ↔ Outcome environment c outcome
  again : ∀ environment d, c.withOverrides environment = .ok d →
    d.withOverrides environment = .ok d
  reaches : ∀ d, (∃ environment, c.withOverrides environment = .ok d) ↔
    d.Valid ∧ d.knownPermissions = c.knownPermissions
  checked : Checked c → c.Valid
  unchecked : ∃ json, ofJson? json = some c
  validates : c.validate = .ok () ↔ c.Valid
  builds : ∀ projection, (∃ r, Resolver.build c projection = .ok r) ↔ c.validate = .ok ()
  refuses : ∀ projection e, Resolver.build c projection = .error e ↔
    ∃ fault, c.Violates fault ∧ e = .config fault
  serves : ∀ {ι : Type} [DecidableEq ι] (w : World ι) moves projection i, w.Fresh →
    Resolver.build c projection = .ok (w.resolvers i) →
    1 ≤ c.membershipCacheSize ∧ 1 ≤ c.permissionCacheSize ∧
      ∀ n, (w.after moves n).KeepsTo c projection i

/-- Overrides and validation compose, and only valid configurations reach a resolver. -/
theorem overrides_compose (c : Config) : c.Composes where
  overrides _ _ := withOverrides_eq_iff
  again _ _ := withOverrides_again
  reaches _ := exists_withOverrides_iff
  checked := Checked.valid
  unchecked := ⟨c.toJson, ofJson?_toJson c⟩
  validates := validate_ok_iff
  builds _ := Resolver.build_ok_iff
  refuses _ _ := Resolver.build_error_iff.trans validate_error_iff
  serves _ _ _ _ fresh built :=
    have valid := Resolver.valid_of_build built
    ⟨valid.membershipCacheSize, valid.permissionCacheSize, World.keepsTo_of_build fresh built⟩

def broken : Config := ⟨0, 1, true, ["a"]⟩

def repaired : Config := ⟨1, 1, true, ["a"]⟩

def repair : Environment := fun key => if key = membershipVariable then some " +1\n" else none

def started : World Unit where
  directory := .sample
  resolvers _ := ⟨repaired, none, .new 1, .new 1, 0, 0, .empty, .none⟩
  tasks := []

/-- An invalid configuration is repaired, and a resolver that is built from the result warms up. -/
theorem overrides_compose_repaired :
    ¬ broken.Valid ∧ broken.withOverrides repair = .ok repaired ∧
      repaired.withOverrides repair = .ok repaired ∧
      ∀ n, (started.after (World.schedule [.call () .warmupFromConfig]) n).KeepsTo
        repaired none () := by
  have accepted : broken.withOverrides repair = .ok repaired := by decide
  have invalid : ¬ broken.Valid := fun valid => by
    cases (overrides_compose broken).validates.2 valid
  have built : Resolver.build repaired none = .ok (started.resolvers ()) := rfl
  have fresh : started.Fresh := ⟨fun _ => ⟨_, _, built⟩, rfl⟩
  obtain ⟨_, _, keeps⟩ := (overrides_compose repaired).serves started
    (World.schedule [.call () .warmupFromConfig]) none () fresh built
  exact ⟨invalid, accepted, (overrides_compose broken).again repair repaired accepted, keeps⟩

end Config

end Authorization
