import Authorization.Proofs.Config.Overrides

namespace Authorization.Config

/-- The error for a value that is not a size. -/
def sizeRefusal (setting value : String) (fault : SizeFault) : Error :=
  .config (.badValue setting value (.size fault))

/-- What a variable with a value makes of a size: the number that the value spells between its
blanks, or else what is wrong with the spelling. -/
inductive SizeGiven (setting value : String) : Except Error UInt64 → Prop where
  | size {body : List Char} {n : UInt64} (trimmed : Trimmed value.toList body)
    (spelt : Size.Spells body n) : SizeGiven setting value (.ok n)
  | refused {body : List Char} {fault : SizeFault} (trimmed : Trimmed value.toList body)
    (faulty : Size.Faulty body fault) :
    SizeGiven setting value (.error (sizeRefusal setting value fault))

/-- The decimal digits of a number, after zeros and perhaps a plus sign, between blanks. -/
def Renders (value : String) (n : UInt64) : Prop :=
  ∃ before sign zeros after,
    value.toList =
      before ++ (sign ++ (List.replicate zeros '0' ++ (toString n.toNat).toList) ++ after) ∧
    (∀ c ∈ before, isBlank c = true) ∧ (sign = [] ∨ sign = ['+']) ∧
    ∀ c ∈ after, isBlank c = true

/-- How the value of a variable is read as a size. -/
structure SizeReading (setting value : String) (given : Except Error UInt64) : Prop where
  outcome : ∀ other, given = other ↔ SizeGiven setting value other
  blank : given = .error (sizeRefusal setting value .empty) ↔
    ∀ c ∈ value.toList, isBlank c = true
  tooLarge : given = .error (sizeRefusal setting value .tooLarge) ↔
    ∃ body, Trimmed value.toList body ∧ 2 ^ 64 ≤ Size.leading body
  interrupted : given = .error (sizeRefusal setting value .invalidDigit) ↔
    ∃ body, Trimmed value.toList body ∧ Size.Interrupted body
  message : ∀ fault, (sizeRefusal setting value fault).message =
    "Configuration error: " ++ (setting ++ "='" ++ value ++ "': " ++ fault.message)
  rendered : ∀ n, Renders value n → given = .ok n

section

variable {setting value : String}

theorem override_set {environment : Environment} (set : environment setting = some value)
    (present : UInt64) : override environment setting readSize present =
      (Size.read (trimBlanks value.toList)).mapError (sizeRefusal setting value) := by
  rw [override, set]
  show (readSize (trimBlanks value.toList)).mapError _ = _
  rw [readSize]
  cases Size.read (trimBlanks value.toList) <;> rfl

theorem read_mapError_iff {outcome : Except Error UInt64} :
    (Size.read (trimBlanks value.toList)).mapError (sizeRefusal setting value) = outcome ↔
      SizeGiven setting value outcome := by
  constructor
  · rintro rfl
    have trimmed := trimmed_trimBlanks value.toList
    cases read : Size.read (trimBlanks value.toList) with
    | ok n => exact .size trimmed (Size.read_ok_iff.1 read)
    | error fault => exact .refused trimmed (Size.read_error_iff.1 read)
  · intro given
    cases given with
    | size trimmed spelt =>
      rw [trimBlanks_eq_iff.2 trimmed, Size.read_ok_iff.2 spelt]
      rfl
    | refused trimmed faulty =>
      rw [trimBlanks_eq_iff.2 trimmed, Size.read_error_iff.2 faulty]
      rfl

theorem refused_iff {fault : SizeFault} :
    SizeGiven setting value (.error (sizeRefusal setting value fault)) ↔
      ∃ body, Trimmed value.toList body ∧ Size.Faulty body fault := by
  constructor
  · rintro ⟨⟩
    exact ⟨_, ‹_›, ‹_›⟩
  · rintro ⟨body, trimmed, faulty⟩
    exact .refused trimmed faulty

theorem sizeGiven_of_renders {n : UInt64} (renders : Renders value n) :
    SizeGiven setting value (.ok n) := by
  obtain ⟨before, sign, zeros, after, whole, blank, plus, blankToo⟩ := renders
  rw [Nat.toString_eq_ofList_toDigits, String.toList_ofList] at whole
  have spelt := Size.spells_padded n zeros plus
  have trimmed := trimmed_of_plain blank blankToo spelt.plain
  rw [← whole] at trimmed
  exact .size trimmed spelt

/-- The value of a variable is read as its grammar says. What is refused is quoted as it stands. -/
theorem override_reads_size {environment : Environment} (set : environment setting = some value)
    (present : UInt64) :
    SizeReading setting value (override environment setting readSize present) := by
  rw [override_set set]
  constructor
  · exact fun _ => read_mapError_iff
  · simp only [read_mapError_iff, refused_iff, Size.faulty_empty_iff, exists_eq_right,
      trimmed_nil_iff]
  · simp only [read_mapError_iff, refused_iff, Size.faulty_tooLarge_iff]
  · simp only [read_mapError_iff, refused_iff, Size.faulty_invalidDigit_iff]
  · exact fun _ => rfl
  · exact fun n renders => read_mapError_iff.2 (sizeGiven_of_renders renders)

end

def overflowing : Environment := fun _ => some " 0018446744073709551616-"

/-- The digits have reached 2^64 before the minus sign is looked at. -/
theorem override_reads_size_overflowing :
    overflowing permissionVariable = some " 0018446744073709551616-" ∧
      SizeReading permissionVariable " 0018446744073709551616-"
        (override overflowing permissionVariable readSize 1) ∧
      override overflowing permissionVariable readSize 1 =
        .error (sizeRefusal permissionVariable " 0018446744073709551616-" .tooLarge) := by
  have set : overflowing permissionVariable = some " 0018446744073709551616-" := rfl
  have reading := override_reads_size set 1
  have trimmed := trimmed_trimBlanks " 0018446744073709551616-".toList
  exact ⟨set, reading, reading.tooLarge.2 ⟨_, trimmed, by decide⟩⟩

end Authorization.Config
