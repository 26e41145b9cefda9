import Authorization.Proofs.Binary64.Order
import Mathlib.Data.EReal.Operations

namespace Authorization.Binary64

def negative (x : Binary64) : Bool := 0x8000000000000000 ≤ x.bits

/-- The bits below the sign. -/
def low (x : Binary64) : Nat := x.bits.toNat % 2 ^ 63

def exponent (x : Binary64) : Nat := x.low / 2 ^ 52

def fraction (x : Binary64) : Nat := x.low % 2 ^ 52

def IsNaN (x : Binary64) : Prop := x.exponent = 2047 ∧ x.fraction ≠ 0

/-- The fraction with the leading bit that is not stored, which subnormal numbers lack. -/
def significand (x : Binary64) : Nat :=
  if x.exponent = 0 then x.fraction else 2 ^ 52 + x.fraction

noncomputable def magnitude (x : Binary64) : EReal :=
  if x.exponent = 2047 then ⊤
  else ((x.significand * 2 ^ (((max x.exponent 1 : ℕ) : ℤ) - 1075) : ℝ) : EReal)

/-- The number that a pattern stands for, unless it is a NaN. -/
noncomputable def number (x : Binary64) : EReal :=
  if x.negative then -x.magnitude else x.magnitude

def opposite (x : Binary64) : Binary64 := ⟨x.bits ^^^ 0x8000000000000000⟩

theorem negative_iff {x : Binary64} : x.negative = true ↔ 2 ^ 63 ≤ x.bits.toNat :=
  decide_eq_true_iff

theorem low_lt (x : Binary64) : x.low < 2 ^ 63 := Nat.mod_lt _ (Nat.two_pow_pos 63)

theorem rank_of_negative {x : Binary64} (negative : x.negative = true) :
    x.rank = -1 - (x.low : Int) := by
  have high := negative_iff.1 negative
  have bound := x.bits.toNat_lt
  rw [rank_eq, if_neg (Nat.not_lt.2 high), low]
  omega

theorem rank_of_positive {x : Binary64} (positive : x.negative = false) :
    x.rank = (x.low : Int) := by
  have less : x.bits.toNat < 2 ^ 63 := Nat.not_le.1 fun high => by
    rw [negative_iff.2 high] at positive
    cases positive
  rw [rank_eq, if_pos less, low, Nat.mod_eq_of_lt less]

theorem isNaN_iff {x : Binary64} : x.IsNaN ↔ 2047 * 2 ^ 52 < x.low := by
  have bound := x.low_lt
  unfold IsNaN exponent fraction
  omega

theorem toNat_opposite (x : Binary64) : x.opposite.bits.toNat =
    if x.bits.toNat < 2 ^ 63 then x.bits.toNat + 2 ^ 63 else x.bits.toNat - 2 ^ 63 := by
  have bound := x.bits.toNat_lt
  have flipped : x.opposite.bits.toNat = x.bits.toNat ^^^ 2 ^ 63 := UInt64.toNat_xor _ _
  have top : x.opposite.bits.toNat / 2 ^ 63 = x.bits.toNat / 2 ^ 63 ^^^ 1 := by
    rw [flipped, Nat.xor_div_two_pow, Nat.div_self (Nat.two_pow_pos 63)]
  have rest : x.opposite.bits.toNat % 2 ^ 63 = x.bits.toNat % 2 ^ 63 := by
    rw [flipped, Nat.xor_mod_two_pow, Nat.mod_self, Nat.xor_zero]
  split
  · rename_i clear
    rw [Nat.div_eq_of_lt clear, Nat.zero_xor] at top
    omega
  · have set : x.bits.toNat / 2 ^ 63 = 1 := by omega
    rw [set, Nat.xor_self] at top
    omega

theorem rank_opposite (x : Binary64) : x.opposite.rank = -1 - x.rank := by
  have bound := x.bits.toNat_lt
  have flipped := x.toNat_opposite
  rw [rank_eq, rank_eq]
  split at flipped <;> split <;> omega

/-- A magnitude without its sign in units of 2^-1074, by the bits below the sign. -/
def units (n : Nat) : Nat :=
  if n < 2 ^ 52 then n else (2 ^ 52 + n % 2 ^ 52) * 2 ^ (n / 2 ^ 52 - 1)

theorem units_strictMono : StrictMono units := by
  refine strictMono_nat_of_lt_succ fun n => ?_
  have scale : 0 < 2 ^ (n / 2 ^ 52 - 1) := Nat.two_pow_pos _
  unfold units
  by_cases subnormal : n + 1 < 2 ^ 52
  · rw [if_pos (Nat.lt_of_succ_lt subnormal), if_pos subnormal]
    exact Nat.lt_succ_self n
  rw [if_neg subnormal]
  by_cases least : n < 2 ^ 52
  · have next : n + 1 = 2 ^ 52 := by omega
    rw [if_pos least, next]
    exact least
  rw [if_neg least]
  by_cases same : (n + 1) / 2 ^ 52 = n / 2 ^ 52
  · rw [same]
    exact Nat.mul_lt_mul_of_pos_right (by omega) scale
  · -- The fraction is full, and the next number has a greater exponent.
    have above : (n + 1) / 2 ^ 52 - 1 = (n / 2 ^ 52 - 1) + 1 := by omega
    have doubled : 2 ^ (n / 2 ^ 52 - 1 + 1) = 2 * 2 ^ (n / 2 ^ 52 - 1) := Nat.pow_succ'
    rw [above, doubled, ← Nat.mul_assoc]
    exact Nat.mul_lt_mul_of_pos_right (by omega) scale

theorem magnitude_of_finite {x : Binary64} (finite : x.exponent ≠ 2047) :
    x.magnitude = ((units x.low * 2 ^ (-1074 : ℤ) : ℝ) : EReal) := by
  rw [magnitude, if_neg finite, EReal.coe_eq_coe_iff, significand, units]
  by_cases subnormal : x.low < 2 ^ 52
  · have least : x.exponent = 0 := Nat.div_eq_of_lt subnormal
    have whole : x.fraction = x.low := Nat.mod_eq_of_lt subnormal
    rw [if_pos subnormal, if_pos least, least, whole]
    norm_num
  · have positive : x.exponent ≠ 0 := by
      unfold exponent
      omega
    have place : ((max x.exponent 1 : ℕ) : ℤ) - 1075 = ((x.exponent - 1 : ℕ) : ℤ) + -1074 := by
      omega
    rw [if_neg subnormal, if_neg positive, place, zpow_add₀ two_ne_zero, zpow_natCast]
    push_cast
    exact (mul_assoc _ _ _).symm

theorem magnitude_lt {x y : Binary64} (proper : ¬ y.IsNaN) (less : x.low < y.low) :
    x.magnitude < y.magnitude := by
  have bound : y.low ≤ 2047 * 2 ^ 52 := Nat.not_lt.1 fun high => proper (isNaN_iff.2 high)
  have finite : x.exponent ≠ 2047 := by
    unfold exponent
    omega
  rw [magnitude_of_finite finite]
  by_cases infinite : y.exponent = 2047
  · rw [magnitude, if_pos infinite]
    exact EReal.coe_lt_top _
  · rw [magnitude_of_finite infinite, EReal.coe_lt_coe_iff]
    have more : (units x.low : ℝ) < units y.low := Nat.cast_lt.2 (units_strictMono less)
    exact mul_lt_mul_of_pos_right more (zpow_pos two_pos _)

theorem magnitude_zero {x : Binary64} (none : x.low = 0) : x.magnitude = 0 := by
  have finite : x.exponent ≠ 2047 := by
    rw [exponent, none]
    decide
  rw [magnitude_of_finite finite, none]
  norm_num [units]

theorem magnitude_pos {x : Binary64} (proper : ¬ x.IsNaN) (some : 0 < x.low) : 0 < x.magnitude := by
  rw [← magnitude_zero (x := zero) rfl]
  exact magnitude_lt proper some

theorem magnitude_nonneg {x : Binary64} (proper : ¬ x.IsNaN) : 0 ≤ x.magnitude := by
  rcases Nat.eq_zero_or_pos x.low with none | some
  · exact (magnitude_zero none).ge
  · exact (magnitude_pos proper some).le

theorem number_of_negative {x : Binary64} (negative : x.negative = true) :
    x.number = -x.magnitude := if_pos negative

theorem number_of_positive {x : Binary64} (positive : x.negative = false) :
    x.number = x.magnitude := if_neg (Bool.eq_false_iff.1 positive)

def negativeZero : Binary64 := ⟨0x8000000000000000⟩

/-- A pattern that comes first stands for less, but that the two zeros stand for the same. -/
theorem number_lt_or_zeros {x y : Binary64} (proper : ¬ x.IsNaN) (properToo : ¬ y.IsNaN)
    (before : x.rank < y.rank) : x.number < y.number ∨ x = negativeZero ∧ y = zero := by
  cases sign : x.negative <;> cases signToo : y.negative
  case false.false =>
    rw [rank_of_positive sign, rank_of_positive signToo] at before
    rw [number_of_positive sign, number_of_positive signToo]
    exact .inl (magnitude_lt properToo (Int.ofNat_lt.1 before))
  case false.true =>
    rw [rank_of_positive sign, rank_of_negative signToo] at before
    omega
  case true.true =>
    rw [rank_of_negative sign, rank_of_negative signToo] at before
    rw [number_of_negative sign, number_of_negative signToo, EReal.neg_lt_neg_iff]
    exact .inl (magnitude_lt proper (by omega))
  case true.false =>
    rw [number_of_negative sign, number_of_positive signToo]
    have below : -x.magnitude ≤ 0 := EReal.neg_le_zero.2 (magnitude_nonneg proper)
    rcases Nat.eq_zero_or_pos x.low with none | some
    · rcases Nat.eq_zero_or_pos y.low with noneToo | some
      · refine .inr ⟨rank_injective ?_, rank_injective ?_⟩
        · rw [rank_of_negative sign, none]
          rfl
        · rw [rank_of_positive signToo, noneToo]
          rfl
      · exact .inl (below.trans_lt (magnitude_pos properToo some))
    · have strictly : -x.magnitude < 0 := EReal.neg_lt_zero.2 (magnitude_pos proper some)
      exact .inl (strictly.trans_le (magnitude_nonneg properToo))

theorem number_zero : zero.number = 0 := by
  rw [number_of_positive rfl]
  exact magnitude_zero rfl

theorem number_negativeZero : negativeZero.number = 0 := by
  rw [number_of_negative rfl, magnitude_zero rfl, neg_zero]

theorem number_mono {x y : Binary64} (proper : ¬ x.IsNaN) (properToo : ¬ y.IsNaN)
    (before : x.rank ≤ y.rank) : x.number ≤ y.number := by
  rcases Int.lt_or_eq_of_le before with less | same
  · rcases number_lt_or_zeros proper properToo less with less | ⟨rfl, rfl⟩
    · exact less.le
    · rw [number_negativeZero, number_zero]
  · rw [rank_injective same]

theorem rank_lt_iff {x y : Binary64} (proper : ¬ x.IsNaN) (properToo : ¬ y.IsNaN) :
    x.rank < y.rank ↔ x.number < y.number ∨ x = negativeZero ∧ y = zero := by
  refine ⟨number_lt_or_zeros proper properToo, ?_⟩
  rintro (less | ⟨rfl, rfl⟩)
  · exact Int.not_le.1 fun after => less.not_ge (number_mono properToo proper after)
  · decide

theorem negative_nan_iff {x : Binary64} :
    x.IsNaN ∧ x.negative = true ↔ x.rank < -1 - 2047 * 2 ^ 52 := by
  rw [isNaN_iff]
  cases sign : x.negative with
  | false =>
    rw [rank_of_positive sign]
    exact iff_of_false (fun both => Bool.false_ne_true both.2) (by omega)
  | true =>
    rw [rank_of_negative sign, and_iff_left rfl]
    omega

theorem positive_nan_iff {x : Binary64} :
    x.IsNaN ∧ x.negative = false ↔ 2047 * 2 ^ 52 < x.rank := by
  rw [isNaN_iff]
  cases sign : x.negative with
  | false =>
    rw [rank_of_positive sign, and_iff_left rfl]
    omega
  | true =>
    rw [rank_of_negative sign]
    exact iff_of_false (fun both => Bool.false_ne_true both.2.symm) (by omega)

theorem rank_lt_of_negative_nan {x y : Binary64} (nan : x.IsNaN ∧ x.negative = true)
    (other : ¬ (y.IsNaN ∧ y.negative = true)) : x.rank < y.rank := by
  rw [negative_nan_iff] at nan other
  omega

theorem rank_lt_of_positive_nan {x y : Binary64} (nan : y.IsNaN ∧ y.negative = false)
    (other : ¬ (x.IsNaN ∧ x.negative = false)) : x.rank < y.rank := by
  rw [positive_nan_iff] at nan other
  omega

theorem totalCompare_lt_iff {x y : Binary64} : x.totalCompare y = .lt ↔ x.rank < y.rank :=
  Int.compare_eq_lt

theorem totalCompare_opposite (x y : Binary64) :
    x.opposite.totalCompare y.opposite = y.totalCompare x := by
  rw [totalCompare, totalCompare, rank_opposite, rank_opposite]
  rcases Int.lt_trichotomy x.rank y.rank with less | same | more
  · have reversed : -1 - y.rank < -1 - x.rank := by omega
    rw [Int.compare_eq_gt.2 less, Int.compare_eq_gt.2 reversed]
  · rw [same, Int.compare_eq_eq.2 rfl, Int.compare_eq_eq.2 rfl]
  · have reversed : -1 - x.rank < -1 - y.rank := by omega
    rw [Int.compare_eq_lt.2 more, Int.compare_eq_lt.2 reversed]

example : (⟨0x3ff0000000000000⟩ : Binary64).number = 1 := by
  have exponent : (⟨0x3ff0000000000000⟩ : Binary64).exponent = 1023 := rfl
  have fraction : (⟨0x3ff0000000000000⟩ : Binary64).fraction = 0 := rfl
  rw [number_of_positive rfl, magnitude, significand, exponent, fraction]
  norm_num

end Authorization.Binary64
