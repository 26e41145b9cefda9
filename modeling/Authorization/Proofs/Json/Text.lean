import Authorization.Json.Reader
import Authorization.Json.Writer
import Mathlib.Data.Nat.Basic

namespace Authorization.Json

theorem unit?_digits {n : Nat} (bound : n < 256) :
    unit? '0' '0' (n / 16).digitChar (n % 16).digitChar = some n := by
  have zero : hexValue? '0' = some 0 := rfl
  have high : hexValue? (n / 16).digitChar = some (n / 16) := hexValue?_digitChar (by omega)
  have low : hexValue? (n % 16).digitChar = some (n % 16) := hexValue?_digitChar (by omega)
  simp only [unit?, zero, high, low, Option.bind_eq_bind, Option.bind_some, Option.pure_def]
  congr 1
  omega

theorem ofUnit_toNat {c : Char} (small : c.toNat < 0xd800) : Piece.ofUnit c.toNat = .char c := by
  rw [Piece.ofUnit, if_neg (by omega), Char.ofNat_toNat]

theorem readPieces_escape (c : Char) (rest : List Char) :
    readPieces (escape c ++ rest) =
      (readPieces rest).bind fun read => some (.char c :: read.1, read.2) := by
  unfold escape
  split_ifs with quote backslash backspace formFeed newline carriage tab control
  · subst quote; rfl
  · subst backslash; rfl
  · subst backspace; rfl
  · subst formFeed; rfl
  · subst newline; rfl
  · subst carriage; rfl
  · subst tab; rfl
  -- Any other control character is written by its code, which is below all surrogates.
  · have unit := unit?_digits (n := c.toNat) (by omega)
    have piece := ofUnit_toNat (c := c) (by omega)
    simp only [List.cons_append, List.nil_append, readPieces, unit, Option.bind_eq_bind,
      Option.bind_some, piece]
    rfl
  · rw [List.singleton_append, readPieces, if_neg (not_or.2 ⟨backslash, control⟩)]
    · rfl
    · exact quote
    · exact fun _ _ _ _ _ same => (backslash same).elim
    · exact fun _ _ same => (backslash same).elim

theorem readPieces_quoted (text rest : List Char) :
    readPieces (text.flatMap escape ++ '"' :: rest) = some (text.map .char, rest) := by
  induction text with
  | nil => rfl
  | cons c text ih =>
    rw [List.flatMap_cons, List.append_assoc, readPieces_escape, ih]
    rfl

theorem joinPieces_map (text : List Char) : joinPieces (text.map .char) = some text := by
  induction text with
  | nil => rfl
  | cons c text ih =>
    rw [List.map_cons, joinPieces, ih]
    rfl

theorem readString_quoted (text : String) (rest : List Char) :
    readString (text.toList.flatMap escape ++ '"' :: rest) = some (some text, rest) := by
  rw [readString, readPieces_quoted]
  simp [joinPieces_map]

/-- What may stand behind a value: nothing that a number could go on with. -/
def Ends (rest : List Char) : Prop :=
  ∀ c ∈ rest.head?, c.isDigit = false ∧ c ≠ '.' ∧ c ≠ 'e' ∧ c ≠ 'E'

section Numbers

variable {rest : List Char}

theorem span_digits {digits : List Char} (all : ∀ c ∈ digits, c.isDigit = true) (ends : Ends rest) :
    (digits ++ rest).takeWhile Char.isDigit = digits ∧
      (digits ++ rest).dropWhile Char.isDigit = rest := by
  rw [List.takeWhile_append_of_pos all, List.dropWhile_append_of_pos all]
  cases rest with
  | nil => exact ⟨List.append_nil digits, rfl⟩
  | cons c cs =>
    have stop : ¬ c.isDigit = true := Bool.eq_false_iff.1 (ends c rfl).1
    rw [List.takeWhile_cons_of_neg stop, List.dropWhile_cons_of_neg stop]
    exact ⟨List.append_nil digits, rfl⟩

theorem eq_nil_of_toDigits_eq {n : Nat} {cs : List Char} (same : Nat.toDigits 10 n = '0' :: cs) :
    cs = [] := by
  induction n using Nat.strongRecOn generalizing cs with
  | ind n ih =>
    rw [Nat.toDigits_eq_if (by decide)] at same
    split at same
    · exact (List.cons.inj same).2.symm
    · rename_i large
      -- A longer number starts like its tenth, which is not zero.
      cases front : Nat.toDigits 10 (n / 10) with
      | nil => exact (Nat.toDigits_ne_nil front).elim
      | cons d ds =>
        rw [front] at same
        obtain ⟨rfl, _⟩ := List.cons.inj same
        obtain rfl := ih (n / 10) (by omega) front
        have zero : n / 10 = 0 := by
          rw [← Nat.ofDigitChars_ten_toDigits (n := n / 10), front]
          rfl
        omega

theorem readWhole_toDigits (n : Nat) (ends : Ends rest) :
    readWhole (Nat.toDigits 10 n ++ rest) = some (Nat.toDigits 10 n, rest) := by
  have digits : ∀ c ∈ Nat.toDigits 10 n, c.isDigit = true := fun c member =>
    Nat.isDigit_of_mem_toDigits (by decide) (by decide) member
  obtain ⟨taken, dropped⟩ := span_digits digits ends
  rw [readWhole, taken, dropped]
  split
  · rename_i empty
    exact (Nat.toDigits_ne_nil empty).elim
  · rename_i zero
    rw [zero]
  · rename_i others leads
    exact (others (eq_nil_of_toDigits_eq leads)).elim
  · rfl

theorem readFraction_ends (ends : Ends rest) : readFraction rest = some ([], rest) := by
  unfold readFraction
  split
  · exact ((ends '.' rfl).2.1 rfl).elim
  · rfl

theorem readExponent_ends (ends : Ends rest) : readExponent rest = some ([], rest) := by
  cases rest with
  | nil => rfl
  | cons c cs =>
    obtain ⟨_, _, lower, upper⟩ := ends c rfl
    rw [readExponent, if_neg (not_or.2 ⟨lower, upper⟩)]

theorem toDigits_eq_zero {n : Nat} (zero : Nat.toDigits 10 n = ['0']) : n = 0 := by
  rw [← Nat.ofDigitChars_ten_toDigits (n := n), zero]
  rfl

theorem readMagnitude_toDigits {negative : Bool} {n : Nat} (ends : Ends rest)
    (proper : negative = true → n ≠ 0) :
    readMagnitude negative (Nat.toDigits 10 n ++ rest) =
      some (.integer (if negative then -n else n), rest) := by
  have integral : (negative && Nat.toDigits 10 n == ['0']) = false := by
    cases negative with
    | false => rfl
    | true => exact beq_false_of_ne fun zero => proper rfl (toDigits_eq_zero zero)
  simp only [readMagnitude, readWhole_toDigits n ends, readFraction_ends ends,
    readExponent_ends ends, integral, Option.bind_eq_bind, Option.bind_some,
    Nat.ofDigitChars_ten_toDigits]
  rfl

theorem digit_of_toDigits {n : Nat} {c : Char} {cs : List Char}
    (same : Nat.toDigits 10 n = c :: cs) : c.isDigit = true :=
  Nat.isDigit_of_mem_toDigits (b := 10) (n := n) (by decide) (by decide)
    (same ▸ List.mem_cons_self)

theorem readNumber_decimal (n : Int) (ends : Ends rest) :
    readNumber (decimal n ++ rest) = some (.integer n, rest) := by
  cases n with
  | ofNat n =>
    have read : readMagnitude false (Nat.toDigits 10 n ++ rest) = some (.integer n, rest) :=
      readMagnitude_toDigits ends nofun
    rw [readNumber]
    · exact read
    · intro cs same
      cases digits : Nat.toDigits 10 n with
      | nil => exact Nat.toDigits_ne_nil digits
      | cons c ds =>
        rw [decimal, digits] at same
        obtain ⟨rfl, _⟩ := List.cons.inj same
        cases digit_of_toDigits digits
  | negSucc n => exact readMagnitude_toDigits ends fun _ => Nat.succ_ne_zero n

end Numbers

end Authorization.Json
