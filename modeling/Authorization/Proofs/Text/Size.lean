import Authorization.Proofs.Text.Trim
import Authorization.Text.Size
import Mathlib.Algebra.GroupWithZero.Nat
import Mathlib.Data.List.TakeWhile
import Mathlib.Data.Nat.Basic

namespace Authorization

theorem isBlank_digit {c : Char} (digit : c.isDigit = true) : isBlank c = false := by
  have range : 48 ≤ c.toNat ∧ c.toNat ≤ 57 := by
    simpa [Char.isDigit, UInt32.le_iff_toNat_le] using digit
  unfold isBlank
  simp only [decide_eq_false_iff_not]
  omega

namespace Size

theorem le_ofDigitChars (value : Nat) (digits : List Char) :
    value ≤ Nat.ofDigitChars 10 digits value := by
  induction digits generalizing value with
  | nil => exact Nat.le_refl value
  | cons c digits ih =>
    rw [Nat.ofDigitChars_cons]
    exact Nat.le_trans (by omega) (ih _)

theorem readDigits_cons (value : Nat) (c : Char) (cs : List Char) :
    readDigits value (c :: cs) =
      if c.isDigit then
        if pushDigit value c < 2 ^ 64 then readDigits (pushDigit value c) cs
        else .error .tooLarge
      else .error .invalidDigit := rfl

/-- The digits count up to the first other character, which is reached only if they have not
overflowed. -/
theorem readDigits_eq (cs : List Char) {value : Nat} (bound : value < 2 ^ 64) :
    readDigits value cs =
      if 2 ^ 64 ≤ Nat.ofDigitChars 10 (cs.takeWhile Char.isDigit) value then .error .tooLarge
      else if cs.all Char.isDigit then .ok (Nat.ofDigitChars 10 cs value)
      else .error .invalidDigit := by
  induction cs generalizing value with
  | nil =>
    rw [List.takeWhile_nil, Nat.ofDigitChars_nil, if_neg (Nat.not_le.2 bound)]
    rfl
  | cons c cs ih =>
    rw [readDigits_cons, List.takeWhile_cons, List.all_cons]
    cases digit : c.isDigit with
    | false =>
      rw [if_neg Bool.false_ne_true, if_neg Bool.false_ne_true, Nat.ofDigitChars_nil,
        if_neg (Nat.not_le.2 bound), Bool.false_and, if_neg Bool.false_ne_true]
    | true =>
      have next {ds : List Char} : Nat.ofDigitChars 10 (c :: ds) value =
          Nat.ofDigitChars 10 ds (pushDigit value c) := Nat.ofDigitChars_cons
      rw [if_pos rfl, if_pos rfl, Bool.true_and, next, next]
      by_cases small : pushDigit value c < 2 ^ 64
      · rw [if_pos small]
        exact ih small
      · have overflows := Nat.le_trans (Nat.not_lt.1 small)
          (le_ofDigitChars (pushDigit value c) (cs.takeWhile Char.isDigit))
        rw [if_neg small, if_pos overflows]

theorem map_readDigits_ok_iff {digits : List Char} {n : UInt64} :
    (readDigits 0 digits).map UInt64.ofNat = .ok n ↔
      (∀ c ∈ digits, c.isDigit = true) ∧ Nat.ofDigitChars 10 digits 0 = n.toNat := by
  have whole (all : ∀ c ∈ digits, c.isDigit = true) : digits.takeWhile Char.isDigit = digits :=
    List.takeWhile_eq_self_iff.2 all
  rw [readDigits_eq _ (by decide)]
  constructor
  · intro parsed
    split_ifs at parsed with overflows all
    · cases parsed
    · cases parsed
      have digits := List.all_eq_true.1 all
      rw [whole digits] at overflows
      exact ⟨digits, (UInt64.toNat_ofNat_of_lt' (Nat.not_le.1 overflows)).symm⟩
    · cases parsed
  · rintro ⟨all, same⟩
    rw [whole all, same, if_neg (Nat.not_le.2 n.toNat_lt), if_pos (List.all_eq_true.2 all),
      Except.map, UInt64.ofNat_toNat]

/-- A text that denotes a size: its decimal digits, with a plus sign or without. -/
def Spells (cs : List Char) (n : UInt64) : Prop :=
  ∃ digits, (cs = digits ∨ cs = '+' :: digits) ∧ digits ≠ [] ∧ (∀ c ∈ digits, c.isDigit = true) ∧
    Nat.ofDigitChars 10 digits 0 = n.toNat

/-- A text without its plus sign, if it begins with one. -/
def unsigned : List Char → List Char
  | '+' :: cs => cs
  | cs => cs

theorem eq_unsigned_or (cs : List Char) : cs = unsigned cs ∨ cs = '+' :: unsigned cs := by
  unfold unsigned
  split
  · exact .inr rfl
  · exact .inl rfl

theorem unsigned_digits {digits : List Char} (all : ∀ c ∈ digits, c.isDigit = true) :
    unsigned digits = digits := by
  unfold unsigned
  split
  · cases all '+' List.mem_cons_self
  · rfl

theorem spells_iff {cs : List Char} {n : UInt64} :
    Spells cs n ↔ unsigned cs ≠ [] ∧ (∀ c ∈ unsigned cs, c.isDigit = true) ∧
      Nat.ofDigitChars 10 (unsigned cs) 0 = n.toNat := by
  constructor
  · rintro ⟨digits, rfl | rfl, spelt⟩
    · rwa [unsigned_digits spelt.2.1]
    · exact spelt
  · exact fun spelt => ⟨unsigned cs, eq_unsigned_or cs, spelt⟩

theorem Spells.plain {cs : List Char} {n : UInt64} (spelt : Spells cs n) :
    ∀ c ∈ cs, isBlank c = false := by
  obtain ⟨digits, rfl | rfl, _, all, _⟩ := spelt
  · exact fun c member => isBlank_digit (all c member)
  · exact List.forall_mem_cons.2 ⟨rfl, fun c member => isBlank_digit (all c member)⟩

/-- Leading zeros and a plus sign change nothing. -/
theorem spells_padded (n : UInt64) (zeros : Nat) {sign : List Char}
    (plus : sign = [] ∨ sign = ['+']) :
    Spells (sign ++ (List.replicate zeros '0' ++ Nat.toDigits 10 n.toNat)) n := by
  refine ⟨List.replicate zeros '0' ++ Nat.toDigits 10 n.toNat, ?_, ?_, ?_, ?_⟩
  · exact plus.imp (by rintro rfl; rfl) (by rintro rfl; rfl)
  · exact fun none => Nat.toDigits_ne_nil (List.append_eq_nil_iff.1 none).2
  · intro c member
    rcases List.mem_append.1 member with zero | digit
    · rw [List.eq_of_mem_replicate zero]
      rfl
    · exact Nat.isDigit_of_mem_toDigits (by decide) (by decide) digit
  · rw [Nat.ofDigitChars_append, Nat.ofDigitChars_replicate_zero, Nat.mul_zero]
    exact Nat.ofDigitChars_ten_toDigits

theorem spells_toDigits (n : UInt64) : Spells (Nat.toDigits 10 n.toNat) n :=
  spells_padded n 0 (.inl rfl)

/-- The value of the longest run of digits right after the plus sign, if there is one. -/
def leading (cs : List Char) : Nat :=
  Nat.ofDigitChars 10 ((unsigned cs).takeWhile Char.isDigit) 0

/-- What is wrong with a text that is not a size. -/
inductive Faulty : List Char → SizeFault → Prop where
  | empty : Faulty [] .empty
  | tooLarge {cs : List Char} (overflows : 2 ^ 64 ≤ leading cs) : Faulty cs .tooLarge
  | invalidDigit {cs : List Char} (some : cs ≠ []) (below : leading cs < 2 ^ 64)
    (unspelt : ∀ n, ¬ Spells cs n) : Faulty cs .invalidDigit

/-- Nothing and a lone plus sign are refused before any digit is looked for. -/
theorem read_cases (cs : List Char) :
    cs = [] ∨ cs = ['+'] ∨
      unsigned cs ≠ [] ∧ read cs = (readDigits 0 (unsigned cs)).map UInt64.ofNat := by
  unfold read
  split
  · exact .inl rfl
  · exact .inr (.inl rfl)
  · rename_i rest more
    exact .inr (.inr ⟨more, rfl⟩)
  · rename_i some _ plain
    have same : unsigned cs = cs := by
      rw [unsigned]
      exact fun rest plus => plain rest plus
    rw [same]
    exact .inr (.inr ⟨some, rfl⟩)

theorem read_ok_iff {cs : List Char} {n : UInt64} : read cs = .ok n ↔ Spells cs n := by
  rw [spells_iff]
  obtain rfl | rfl | ⟨some, same⟩ := read_cases cs
  · exact iff_of_false nofun fun spelt => spelt.1 rfl
  · exact iff_of_false nofun fun spelt => spelt.1 rfl
  · rw [same, map_readDigits_ok_iff]
    exact (and_iff_right some).symm

theorem read_empty_iff {cs : List Char} : read cs = .error .empty ↔ cs = [] := by
  obtain rfl | rfl | ⟨some, same⟩ := read_cases cs
  · exact iff_of_true rfl rfl
  · exact iff_of_false nofun nofun
  · rw [same, readDigits_eq _ (by decide)]
    refine iff_of_false (fun empty => ?_) fun none => some (congrArg unsigned none)
    split_ifs at empty <;> cases empty

theorem read_tooLarge_iff {cs : List Char} :
    read cs = .error .tooLarge ↔ 2 ^ 64 ≤ leading cs := by
  obtain rfl | rfl | ⟨_, same⟩ := read_cases cs
  · exact iff_of_false nofun (by decide)
  · exact iff_of_false nofun (by decide)
  · rw [same, readDigits_eq _ (by decide), ← leading]
    split_ifs with overflows
    · exact iff_of_true rfl overflows
    · exact iff_of_false nofun overflows
    · exact iff_of_false nofun overflows

theorem read_error_iff {cs : List Char} {fault : SizeFault} :
    read cs = .error fault ↔ Faulty cs fault := by
  constructor
  · intro failed
    have unspelt : ∀ n, ¬ Spells cs n := fun n spelt => by
      rw [read_ok_iff.2 spelt] at failed
      cases failed
    cases fault with
    | empty => exact read_empty_iff.1 failed ▸ .empty
    | tooLarge => exact .tooLarge (read_tooLarge_iff.1 failed)
    | invalidDigit =>
      refine .invalidDigit (fun none => ?_) (Nat.not_le.1 fun overflows => ?_) unspelt
      · rw [read_empty_iff.2 none] at failed
        cases failed
      · rw [read_tooLarge_iff.2 overflows] at failed
        cases failed
  · intro faulty
    cases faulty with
    | empty => rfl
    | tooLarge overflows => exact read_tooLarge_iff.2 overflows
    | invalidDigit some below unspelt =>
      -- None of the other outcomes is left.
      cases outcome : read cs with
      | ok n => exact (unspelt n (read_ok_iff.1 outcome)).elim
      | error fault =>
        cases fault with
        | empty => exact (some (read_empty_iff.1 outcome)).elim
        | tooLarge => exact absurd (read_tooLarge_iff.1 outcome) (Nat.not_le.2 below)
        | invalidDigit => rfl

theorem faulty_empty_iff {cs : List Char} : Faulty cs .empty ↔ cs = [] := by
  rw [← read_error_iff, read_empty_iff]

theorem faulty_tooLarge_iff {cs : List Char} : Faulty cs .tooLarge ↔ 2 ^ 64 ≤ leading cs := by
  rw [← read_error_iff, read_tooLarge_iff]

/-- A lone plus sign, or a character that is not a digit after digits that do not overflow. -/
def Interrupted (cs : List Char) : Prop :=
  cs = ['+'] ∨ ∃ digits c rest, unsigned cs = digits ++ c :: rest ∧
    (∀ d ∈ digits, d.isDigit = true) ∧ c.isDigit = false ∧ Nat.ofDigitChars 10 digits 0 < 2 ^ 64

theorem leading_of_shape {cs digits rest : List Char} {c : Char}
    (shape : unsigned cs = digits ++ c :: rest) (all : ∀ d ∈ digits, d.isDigit = true)
    (other : c.isDigit = false) : leading cs = Nat.ofDigitChars 10 digits 0 := by
  rw [leading, shape, List.takeWhile_append_of_pos all,
    List.takeWhile_cons_of_neg (Bool.eq_false_iff.1 other), List.append_nil]

theorem interrupted_of_faulty {cs : List Char} (faulty : Faulty cs .invalidDigit) :
    Interrupted cs := by
  obtain rfl | rfl | ⟨some, _⟩ := read_cases cs
  · cases read_error_iff.2 faulty
  · exact .inl rfl
  cases faulty with | invalidDigit _ below unspelt
  -- What is left after the leading digits begins with the character in question.
  cases shape : (unsigned cs).dropWhile Char.isDigit with
  | nil =>
    have all := List.dropWhile_eq_nil_iff.1 shape
    rw [leading, List.takeWhile_eq_self_iff.2 all] at below
    have spelt := spells_iff.2 ⟨some, all, (UInt64.toNat_ofNat_of_lt' below).symm⟩
    exact (unspelt _ spelt).elim
  | cons c rest =>
    refine .inr ⟨_, c, rest, ?_, fun d member => List.mem_takeWhile_imp member, ?_, below⟩
    · rw [← shape, List.takeWhile_append_dropWhile]
    · have first := List.head?_dropWhile_not Char.isDigit (unsigned cs)
      rwa [shape] at first

theorem faulty_invalidDigit_iff {cs : List Char} :
    Faulty cs .invalidDigit ↔ Interrupted cs := by
  constructor
  · exact interrupted_of_faulty
  · rintro (rfl | ⟨digits, c, rest, shape, all, other, small⟩)
    · exact read_error_iff.1 rfl
    · have member : c ∈ unsigned cs := shape ▸ List.mem_append_right _ List.mem_cons_self
      refine .invalidDigit ?_ ?_ fun n spelt => ?_
      · rintro rfl
        cases member
      · rwa [leading_of_shape shape all other]
      · have digit := (spells_iff.1 spelt).2.1 c member
        rw [other] at digit
        cases digit

end Size

end Authorization
