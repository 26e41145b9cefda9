import Authorization.Config.Override
import Authorization.Proofs.Config.Validity
import Authorization.Proofs.Text.Size

namespace Authorization.Config

/-- What the environment can replace, in the order in which it is looked up. -/
inductive Setting where
  | membershipCacheSize
  | permissionCacheSize
  | warmupOnStart

namespace Setting

abbrev Value : Setting → Type
  | membershipCacheSize => UInt64
  | permissionCacheSize => UInt64
  | warmupOnStart => Bool

def key : Setting → String
  | membershipCacheSize => membershipVariable
  | permissionCacheSize => permissionVariable
  | warmupOnStart => warmupVariable

def of (c : Config) : (setting : Setting) → setting.Value
  | membershipCacheSize => c.membershipCacheSize
  | permissionCacheSize => c.permissionCacheSize
  | warmupOnStart => c.warmupOnStart

def read : (setting : Setting) → List Char → Except ValueFault setting.Value
  | membershipCacheSize => readSize
  | permissionCacheSize => readSize
  | warmupOnStart => readFlag

def Denotes : (setting : Setting) → List Char → setting.Value → Prop
  | membershipCacheSize => Size.Spells
  | permissionCacheSize => Size.Spells
  | warmupOnStart => fun cs flag => cs = (toString flag).toList

/-- The settings that are looked up before. -/
def earlier : Setting → List Setting
  | membershipCacheSize => []
  | permissionCacheSize => [membershipCacheSize]
  | warmupOnStart => [membershipCacheSize, permissionCacheSize]

end Setting

theorem mapError_ok_iff {α ε δ : Type} {outcome : Except ε α} {f : ε → δ} {a : α} :
    outcome.mapError f = .ok a ↔ outcome = .ok a := by
  cases outcome <;> simp [Except.mapError]

theorem mapError_error_iff {α ε δ : Type} {outcome : Except ε α} {f : ε → δ} {e : δ} :
    outcome.mapError f = .error e ↔ ∃ fault, outcome = .error fault ∧ e = f fault := by
  cases outcome <;> simp [Except.mapError, eq_comm]

theorem readSize_ok_iff {cs : List Char} {n : UInt64} :
    readSize cs = .ok n ↔ Size.Spells cs n := by
  rw [← Size.read_ok_iff, readSize, mapError_ok_iff]

theorem readFlag_ok_iff {cs : List Char} {flag : Bool} :
    readFlag cs = .ok flag ↔ cs = (toString flag).toList := by
  unfold readFlag
  constructor
  · intro parsed
    split_ifs at parsed with true false
    · cases parsed
      exact true
    · cases parsed
      exact false
  · rintro rfl
    cases flag <;> rfl

namespace Setting

theorem read_ok_iff (setting : Setting) {cs : List Char} {given : setting.Value} :
    setting.read cs = .ok given ↔ setting.Denotes cs given := by
  cases setting with
  | membershipCacheSize => exact readSize_ok_iff
  | permissionCacheSize => exact readSize_ok_iff
  | warmupOnStart => exact readFlag_ok_iff

/-- What the setting becomes. -/
def given (environment : Environment) (c : Config) (setting : Setting) :
    Except Error setting.Value :=
  override environment setting.key setting.read (setting.of c)

/-- The variable of the setting is unset, or its value is one of its type between blanks. -/
def Readable (environment : Environment) (setting : Setting) : Prop :=
  ∀ value, environment setting.key = some value →
    ∃ given, setting.Denotes (trimBlanks value.toList) given

/-- The variable of the setting is set to a value that is not one of its type. -/
def Misread (environment : Environment) (setting : Setting) (fault : ConfigFault) : Prop :=
  ∃ value unread, environment setting.key = some value ∧
    setting.read (trimBlanks value.toList) = .error unread ∧
    fault = .badValue setting.key value unread

section

variable {environment : Environment} {c : Config} {setting : Setting}

theorem given_ok_iff {v : setting.Value} :
    setting.given environment c = .ok v ↔
      (∀ value, environment setting.key = some value →
        setting.Denotes (trimBlanks value.toList) v) ∧
      (environment setting.key = none → v = setting.of c) := by
  unfold given override
  cases environment setting.key with
  | none => simp [eq_comm]
  | some value => simp [mapError_ok_iff, read_ok_iff]

theorem given_error_iff {e : Error} :
    setting.given environment c = .error e ↔
      ∃ fault, setting.Misread environment fault ∧ e = .config fault := by
  unfold given override Misread
  cases environment setting.key with
  | none => simp
  | some value => simp [mapError_error_iff, and_assoc]

theorem readable_iff :
    setting.Readable environment ↔ ∃ v, setting.given environment c = .ok v := by
  simp only [given_ok_iff, Readable]
  cases environment setting.key with
  | none => simp
  | some value => simp

end

end Setting

/-- A configuration with exactly the fields replaced that the environment sets. -/
structure Overridden (environment : Environment) (c d : Config) : Prop where
  replaced : ∀ (setting : Setting) value, environment setting.key = some value →
    setting.Denotes (trimBlanks value.toList) (setting.of d)
  kept : ∀ setting : Setting, environment setting.key = none → setting.of d = setting.of c
  knownPermissions : d.knownPermissions = c.knownPermissions

/-- What overriding a configuration comes to: the first variable that does not parse, else the
first rule that the candidate violates, else the candidate. -/
inductive Outcome (environment : Environment) (c : Config) : Except Error Config → Prop where
  | misread {setting : Setting} {fault : ConfigFault}
    (earlier : ∀ before ∈ setting.earlier, before.Readable environment)
    (misread : setting.Misread environment fault) : Outcome environment c (.error (.config fault))
  | refused {d : Config} {fault : ConfigFault} (overridden : Overridden environment c d)
    (violates : d.Violates fault) : Outcome environment c (.error (.config fault))
  | accepted {d : Config} (overridden : Overridden environment c d) (valid : d.Valid) :
    Outcome environment c (.ok d)

section

variable {environment : Environment} {c d : Config}

theorem overridden_iff :
    Overridden environment c d ↔
      (∀ setting : Setting, setting.given environment c = .ok (setting.of d)) ∧
        d.knownPermissions = c.knownPermissions := by
  simp only [Setting.given_ok_iff]
  constructor
  · rintro ⟨replaced, kept, names⟩
    exact ⟨fun setting => ⟨replaced setting, kept setting⟩, names⟩
  · rintro ⟨all, names⟩
    exact ⟨fun setting => (all setting).1, fun setting => (all setting).2, names⟩

theorem withOverrides_eq :
    c.withOverrides environment = (do
      let membershipCacheSize ← Setting.membershipCacheSize.given environment c
      let permissionCacheSize ← Setting.permissionCacheSize.given environment c
      let warmupOnStart ← Setting.warmupOnStart.given environment c
      validated { c with membershipCacheSize, permissionCacheSize, warmupOnStart }) := rfl

theorem withOverrides_of_overridden (overridden : Overridden environment c d) :
    c.withOverrides environment = d.validated := by
  obtain ⟨all, names⟩ := overridden_iff.1 overridden
  rw [withOverrides_eq, all .membershipCacheSize, all .permissionCacheSize, all .warmupOnStart]
  show validated _ = _
  rw [← names]
  rfl

theorem withOverrides_of_misread {setting : Setting} {fault : ConfigFault}
    (earlier : ∀ before ∈ setting.earlier, before.Readable environment)
    (misread : setting.Misread environment fault) :
    c.withOverrides environment = .error (.config fault) := by
  have failed : setting.given environment c = .error (.config fault) :=
    Setting.given_error_iff.2 ⟨fault, misread, rfl⟩
  have parsed (before : Setting) (member : before ∈ setting.earlier) :
      ∃ v, before.given environment c = .ok v := Setting.readable_iff.1 (earlier before member)
  rw [withOverrides_eq]
  cases setting with
  | membershipCacheSize => rw [failed]; rfl
  | permissionCacheSize =>
    obtain ⟨membership, first⟩ := parsed .membershipCacheSize List.mem_cons_self
    rw [first, failed]
    rfl
  | warmupOnStart =>
    obtain ⟨membership, first⟩ := parsed .membershipCacheSize List.mem_cons_self
    obtain ⟨permission, second⟩ :=
      parsed .permissionCacheSize (List.mem_cons_of_mem _ List.mem_cons_self)
    rw [first, second, failed]
    rfl

theorem misread_or_overridden (environment : Environment) (c : Config) :
    (∃ setting : Setting, (∀ before ∈ setting.earlier, before.Readable environment) ∧
      ∃ fault, setting.Misread environment fault) ∨ ∃ d, Overridden environment c d := by
  -- The settings in the order of the look-ups: each is reached only if those before it were read.
  cases membership : Setting.membershipCacheSize.given environment c with
  | error _ =>
    obtain ⟨fault, misread, _⟩ := Setting.given_error_iff.1 membership
    exact .inl ⟨.membershipCacheSize, nofun, fault, misread⟩
  | ok m =>
    have first := Setting.readable_iff.2 ⟨m, membership⟩
    cases permission : Setting.permissionCacheSize.given environment c with
    | error _ =>
      obtain ⟨fault, misread, _⟩ := Setting.given_error_iff.1 permission
      exact .inl ⟨.permissionCacheSize, List.forall_mem_singleton.2 first, fault, misread⟩
    | ok p =>
      have second := Setting.readable_iff.2 ⟨p, permission⟩
      cases warmup : Setting.warmupOnStart.given environment c with
      | error _ =>
        obtain ⟨fault, misread, _⟩ := Setting.given_error_iff.1 warmup
        have both := List.forall_mem_cons.2 ⟨first, List.forall_mem_singleton.2 second⟩
        exact .inl ⟨.warmupOnStart, both, fault, misread⟩
      | ok flag =>
        refine .inr ⟨⟨m, p, flag, c.knownPermissions⟩, overridden_iff.2 ⟨fun setting => ?_, rfl⟩⟩
        cases setting with
        | membershipCacheSize => exact membership
        | permissionCacheSize => exact permission
        | warmupOnStart => exact warmup

theorem outcome_withOverrides (environment : Environment) (c : Config) :
    Outcome environment c (c.withOverrides environment) := by
  obtain ⟨setting, earlier, fault, misread⟩ | ⟨d, overridden⟩ := misread_or_overridden environment c
  · rw [withOverrides_of_misread earlier misread]
    exact .misread earlier misread
  · rw [withOverrides_of_overridden overridden]
    cases result : d.validated with
    | ok _ =>
      obtain ⟨valid, rfl⟩ := validated_ok_iff.1 result
      exact .accepted overridden valid
    | error _ =>
      obtain ⟨fault, violates, rfl⟩ := validated_error_iff.1 result
      exact .refused overridden violates

theorem withOverrides_eq_iff {outcome : Except Error Config} :
    c.withOverrides environment = outcome ↔ Outcome environment c outcome := by
  constructor
  · rintro rfl
    exact outcome_withOverrides environment c
  · intro reached
    cases reached with
    | misread earlier misread => exact withOverrides_of_misread earlier misread
    | refused overridden violates =>
      rw [withOverrides_of_overridden overridden]
      exact validated_error_iff.2 ⟨_, violates, rfl⟩
    | accepted overridden valid =>
      rw [withOverrides_of_overridden overridden]
      exact validated_ok_iff.2 ⟨valid, rfl⟩

theorem withOverrides_ok_iff :
    c.withOverrides environment = .ok d ↔ Overridden environment c d ∧ d.Valid := by
  rw [withOverrides_eq_iff]
  constructor
  · rintro ⟨⟩
    exact ⟨‹_›, ‹_›⟩
  · rintro ⟨overridden, valid⟩
    exact .accepted overridden valid

theorem Overridden.self (overridden : Overridden environment c d) : Overridden environment d d :=
  ⟨overridden.replaced, fun _ _ => rfl, rfl⟩

theorem withOverrides_again (accepted : c.withOverrides environment = .ok d) :
    d.withOverrides environment = .ok d := by
  obtain ⟨overridden, valid⟩ := withOverrides_ok_iff.1 accepted
  exact withOverrides_ok_iff.2 ⟨overridden.self, valid⟩

end

theorem Setting.trimBlanks_digits (n : UInt64) :
    trimBlanks (toString n.toNat).toList = Nat.toDigits 10 n.toNat := by
  rw [Nat.toString_eq_ofList_toDigits, String.toList_ofList]
  exact trimBlanks_eq_self (Size.spells_toDigits n).plain

def Setting.text (d : Config) : Setting → String
  | membershipCacheSize => toString d.membershipCacheSize.toNat
  | permissionCacheSize => toString d.permissionCacheSize.toNat
  | warmupOnStart => toString d.warmupOnStart

theorem Setting.denotes_text (setting : Setting) (d : Config) :
    setting.Denotes (trimBlanks (setting.text d).toList) (setting.of d) := by
  cases setting with
  | membershipCacheSize =>
    rw [text, trimBlanks_digits]
    exact Size.spells_toDigits d.membershipCacheSize
  | permissionCacheSize =>
    rw [text, trimBlanks_digits]
    exact Size.spells_toDigits d.permissionCacheSize
  | warmupOnStart =>
    rw [text, Denotes, of]
    cases d.warmupOnStart <;> rfl

/-- The environment that sets everything as in a configuration. -/
def settingAll (d : Config) : Environment := fun key =>
  if key = membershipVariable then some (Setting.membershipCacheSize.text d)
  else if key = permissionVariable then some (Setting.permissionCacheSize.text d)
  else if key = warmupVariable then some (Setting.warmupOnStart.text d)
  else none

theorem settingAll_key (d : Config) (setting : Setting) :
    settingAll d setting.key = some (setting.text d) := by
  cases setting with
  | membershipCacheSize => rfl
  | permissionCacheSize => rfl
  | warmupOnStart => rfl

/-- Overriding leads from a configuration, valid or not, to exactly the valid ones with the same
names. -/
theorem exists_withOverrides_iff {c d : Config} :
    (∃ environment, c.withOverrides environment = .ok d) ↔
      d.Valid ∧ d.knownPermissions = c.knownPermissions := by
  constructor
  · rintro ⟨environment, accepted⟩
    obtain ⟨overridden, valid⟩ := withOverrides_ok_iff.1 accepted
    exact ⟨valid, overridden.knownPermissions⟩
  · rintro ⟨valid, names⟩
    have overridden : Overridden (settingAll d) c d := by
      refine ⟨fun setting value set => ?_, fun setting unset => ?_, names⟩
      · rw [settingAll_key] at set
        cases set
        exact setting.denotes_text d
      · rw [settingAll_key] at unset
        cases unset
    exact ⟨settingAll d, withOverrides_ok_iff.2 ⟨overridden, valid⟩⟩

end Authorization.Config
