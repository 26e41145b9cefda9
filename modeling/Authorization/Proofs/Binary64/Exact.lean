import Authorization.Proofs.Binary64.TotalOrder
import Mathlib

namespace Authorization.Binary64

open Float.Model UnpackedFloat

/-- The number `m * 2 ^ e` needs no rounding and lies away from both ends of the range. -/
structure Fits (m : Nat) (e : Int) : Prop where
  size : m < 2 ^ 53
  least : -1022 ≤ e
  greatest : e ≤ 971

/-- The places that a number below `2 ^ 53` leaves free in a double. -/
def headroom (m : Nat) : Nat := 52 - m.log2

/-- The number `m * 2 ^ e` as a double holds it, with the first bit of `m` in the first place. -/
def dyadic (m : Nat) (e : Int) : UnpackedFloat :=
  if pos : 0 < m then
    .finite .positive (m * 2 ^ headroom m) (e - headroom m) (Nat.mul_pos pos (Nat.two_pow_pos _))
  else .zero .positive

def ofDyadic (m : Nat) (e : Int) : Float := .ofModel (.pack (dyadic m e))

theorem dyadic_of_pos {m : Nat} (pos : 0 < m) (e : Int) :
    dyadic m e = .finite .positive (m * 2 ^ headroom m) (e - headroom m)
      (Nat.mul_pos pos (Nat.two_pow_pos _)) := dif_pos pos

theorem log2_mul_two_pow {m : Nat} (pos : 0 < m) (j : Nat) :
    (m * 2 ^ j).log2 = m.log2 + j := by
  induction j with
  | zero => rw [Nat.pow_zero, Nat.mul_one, Nat.add_zero]
  | succ j ih =>
    have nonzero : m * 2 ^ j ≠ 0 := (Nat.mul_pos pos (Nat.two_pow_pos j)).ne'
    rw [Nat.pow_succ', Nat.mul_left_comm, Nat.log2_two_mul nonzero, ih, Nat.add_assoc]

theorem log2_mul_le {m n : Nat} (pos : 0 < m) (posToo : 0 < n) :
    m.log2 + n.log2 ≤ (m * n).log2 := by
  rw [Nat.le_log2 (Nat.mul_pos pos posToo).ne', Nat.pow_add]
  exact Nat.mul_le_mul (Nat.log2_self_le pos.ne') (Nat.log2_self_le posToo.ne')

theorem log2_mul_lt {m n : Nat} (pos : 0 < m) (posToo : 0 < n) :
    (m * n).log2 < m.log2 + n.log2 + 2 := by
  rw [Nat.log2_lt (Nat.mul_pos pos posToo).ne']
  have bound := Nat.mul_lt_mul'' (Nat.lt_log2_self (n := m)) (Nat.lt_log2_self (n := n))
  rw [← Nat.pow_add] at bound
  exact Nat.lt_of_lt_of_eq bound (congrArg _ (by omega))

theorem log2_le_of_size {m : Nat} (pos : 0 < m) (size : m < 2 ^ 53) : m.log2 ≤ 52 :=
  Nat.le_of_lt_succ ((Nat.log2_lt pos.ne').2 size)

theorem log2_shifted {m : Nat} (pos : 0 < m) (size : m < 2 ^ 53) :
    (m * 2 ^ headroom m).log2 = 52 := by
  have short := log2_le_of_size pos size
  rw [log2_mul_two_pow pos, headroom]
  omega

theorem minExponent_eq : Format.binary64.minExponent = -1074 := by decide

theorem mantissaBits_eq : (Format.binary64.mantissaBits : Int) = 53 := by decide

/-! ### Rounding a number that fits -/

theorem targetExponent_shifted {m j : Nat} {e : Int} (pos : 0 < m) (fits : Fits m e) :
    Format.binary64.targetExponent (totalExponent (m * 2 ^ j) (e - j)) = e - headroom m := by
  have short := log2_le_of_size pos fits.size
  have least := fits.least
  rw [Format.targetExponent, totalExponent, log2_mul_two_pow pos, minExponent_eq, mantissaBits_eq,
    headroom]
  omega

theorem decreaseExponent_exact {m i j : Nat} {e : Int} (long : i ≤ j) :
    decreaseExponent (m * 2 ^ i) (e - i) (e - j) = (m * 2 ^ j, e - j) := by
  have amount : (e - i - (e - j)).toNat = j - i := by omega
  have place : e - i - (j - i : Nat) = e - j := by omega
  rw [decreaseExponent, amount, place, Nat.shiftLeft_eq, Nat.mul_assoc, ← Nat.pow_add,
    Nat.add_sub_cancel' long]

/-- Places that hold no bit of the number are dropped without a rounding. -/
theorem shiftRight_exact (m i : Nat) :
    (⟨m * 2 ^ i, false, false⟩ : ExtendedMantissa) >>> i = ⟨m, false, false⟩ := by
  induction i generalizing m with
  | zero =>
    rw [Nat.pow_zero, Nat.mul_one]
    rfl
  | succ i ih =>
    have half : ExtendedMantissa.shiftRightOne ⟨m * 2, false, false⟩ = ⟨m, false, false⟩ := by
      simp [ExtendedMantissa.shiftRightOne]
    rw [Nat.pow_succ', ← Nat.mul_assoc, ← half, ← ih (m * 2)]
    rfl

theorem shiftToTargetExponent_exact {m j : Nat} {e : Int} (pos : 0 < m) (fits : Fits m e)
    (long : headroom m ≤ j) :
    shiftToTargetExponent Format.binary64 (m * 2 ^ j) (e - j) .exact =
      (⟨m * 2 ^ headroom m, false, false⟩, e - headroom m) := by
  have amount : (e - headroom m - (e - j)).toNat = j - headroom m := by omega
  have place : e - j + (j - headroom m : Nat) = e - headroom m := by omega
  have apart : m * 2 ^ j = m * 2 ^ headroom m * 2 ^ (j - headroom m) := by
    rw [Nat.mul_assoc, ← Nat.pow_add, Nat.add_sub_cancel' long]
  rw [shiftToTargetExponent, targetExponent_shifted pos fits, shiftToExponent, amount, place,
    apart, ExtendedMantissa.ofMantissaAndAccuracy, shiftRight_exact]

theorem roundWithAccuracy_exact {m j : Nat} {e : Int} (pos : 0 < m) (fits : Fits m e)
    (long : headroom m ≤ j) :
    roundWithAccuracy Format.binary64 .positive (m * 2 ^ j) (e - j) .exact = dyadic m e := by
  have full : m * 2 ^ headroom m ≠ 0 := (Nat.mul_pos pos (Nat.two_pow_pos _)).ne'
  have rounded : (⟨m * 2 ^ headroom m, false, false⟩ : ExtendedMantissa).roundedMantissa =
      m * 2 ^ headroom m := rfl
  rw [roundWithAccuracy, shiftToTargetExponent_exact pos fits long]
  dsimp only
  rw [rounded, shiftToTargetExponent_exact pos fits (Nat.le_refl _), dif_neg full,
    dyadic_of_pos pos]

theorem normalize_exact {m : Nat} {e : Int} (fits : Fits m e) (j : Nat) :
    UnpackedFloat.normalize Format.binary64 (m * 2 ^ j : Nat) (e - j) .positive = dyadic m e := by
  rcases Nat.eq_zero_or_pos m with rfl | pos
  · rw [Nat.zero_mul]
    rfl
  · have positive : compare ((m * 2 ^ j : Nat) : Int) 0 = .gt :=
      Int.compare_eq_gt.2 (Int.natCast_pos.2 (Nat.mul_pos pos (Nat.two_pow_pos j)))
    have amount : (e - j - (e - headroom m)).toNat = headroom m - j := by omega
    have place : e - j - (headroom m - j : Nat) = e - (j + (headroom m - j) : Nat) := by omega
    rw [UnpackedFloat.normalize, positive]
    dsimp only
    rw [UnpackedFloat.round, Int.toNat_natCast, targetExponent_shifted pos fits,
      decreaseExponent, amount, place, Nat.shiftLeft_eq, Nat.mul_assoc, ← Nat.pow_add]
    exact roundWithAccuracy_exact pos fits (by omega)

/-! ### The bits of a number that fits -/

theorem unpack_packComponents {spec : Format} {e m} (finite : e ≠ -1#_) (normal : e ≠ 0#_)
    (pos : 0 < (1#1 ++ m).toNat) :
    UnpackedFloat.unpack spec (packComponents spec .positive e m) =
      .finite .positive (1#1 ++ m).toNat
        (e.toNat - (spec.exponentBias + spec.mantissaBitsWithoutImplicit)) pos := by
  rw [UnpackedFloat.unpack]
  simp only [unpackExponent_packComponents, unpackMantissa_packComponents,
    unpackSign_packComponents, Sign.ofBitVec_toBitVec, if_neg finite, if_neg normal]

theorem toNat_exponent {b : Nat} (below : b < 2047) : (BitVec.ofNat 11 b).toNat = b := by
  rw [BitVec.toNat_ofNat]
  exact Nat.mod_eq_of_lt (by omega)

theorem toNat_packComponents {b : Nat} (below : b < 2047) (m : Nat) :
    (packComponents Format.binary64 .positive (BitVec.ofNat 11 b) (BitVec.ofNat 52 m)).toNat =
      b * 2 ^ 52 + m % 2 ^ 52 := by
  have signed : (0#1 ++ BitVec.ofNat 11 b).toNat = b := by
    rw [BitVec.toNat_append, toNat_exponent below]
    exact Nat.zero_or b
  change (0#1 ++ BitVec.ofNat 11 b ++ BitVec.ofNat 52 m).toNat = _
  rw [BitVec.toNat_append, signed, ← Nat.shiftLeft_add_eq_or_of_lt (BitVec.isLt _),
    Nat.shiftLeft_eq, BitVec.toNat_ofNat]

theorem pack_normal {m b : Nat} {e : Int} (pos : 0 < m) (full : m.log2 = 52)
    (place : e + 1075 = b) (below : b < 2047) :
    UnpackedFloat.pack Format.binary64 (.finite .positive m e pos) =
      packComponents Format.binary64 .positive (BitVec.ofNat 11 b) (BitVec.ofNat 52 m) := by
  have bias : (Format.binary64.exponentBias : Int) = 1023 := by decide
  have biased : (e + Format.binary64.exponentBias + (52 : Nat)).toNat = b := by omega
  have width : m.log2 + 1 = Format.binary64.mantissaBits := by
    rw [full]
    decide
  rw [UnpackedFloat.pack]
  dsimp only
  rw [biased, if_neg (by omega), if_pos width]

theorem unpack_normal {m b : Nat} {e : Int} (pos : 0 < m) (full : m.log2 = 52)
    (place : e + 1075 = b) (above : 0 < b) (below : b < 2047) :
    UnpackedFloat.unpack Format.binary64
      (packComponents Format.binary64 .positive (BitVec.ofNat 11 b) (BitVec.ofNat 52 m)) =
      .finite .positive m e pos := by
  have exponent := toNat_exponent below
  have normal : BitVec.ofNat 11 b ≠ 0#11 := fun none => by
    rw [none] at exponent
    change 0 = b at exponent
    omega
  have finite : BitVec.ofNat 11 b ≠ -1#11 := fun infinite => by
    rw [infinite] at exponent
    change 2047 = b at exponent
    omega
  have mantissa : (1#1 ++ BitVec.ofNat 52 m).toNat = m := by
    obtain ⟨low, high⟩ := (Nat.log2_eq_iff pos.ne').1 full
    rw [BitVec.toNat_append, ← Nat.shiftLeft_add_eq_or_of_lt (BitVec.isLt _)]
    change 1 * 2 ^ 52 + m % 2 ^ 52 = m
    omega
  rw [unpack_packComponents finite normal (pos.trans_eq mantissa.symm)]
  congr 1
  rw [exponent]
  change (b : Int) - 1075 = e
  omega

theorem exists_exponent {m : Nat} {e : Int} (pos : 0 < m) (fits : Fits m e) :
    ∃ b : Nat, e - headroom m + 1075 = b ∧ 0 < b ∧ b < 2047 := by
  obtain ⟨size, least, greatest⟩ := fits
  have short := log2_le_of_size pos size
  refine ⟨(e - headroom m + 1075).toNat, ?_, ?_, ?_⟩ <;> unfold headroom <;> omega

theorem unpack_ofDyadic {m : Nat} {e : Int} (fits : Fits m e) :
    (ofDyadic m e).toModel.unpack = dyadic m e := by
  rcases Nat.eq_zero_or_pos m with rfl | pos
  · change UnpackedFloat.unpack Format.binary64 (packedZero Format.binary64 .positive) = _
    rfl
  · have full := log2_shifted pos fits.size
    obtain ⟨b, place, above, below⟩ := exists_exponent pos fits
    rw [ofDyadic, dyadic_of_pos pos]
    change UnpackedFloat.unpack Format.binary64 (UnpackedFloat.pack Format.binary64 _) = _
    rw [pack_normal _ full place below, unpack_normal _ full place above below]

theorem number_ofDyadic {m : Nat} {e : Int} (fits : Fits m e) :
    (ofFloat (ofDyadic m e)).number = ((m * 2 ^ e : ℝ) : EReal) := by
  rcases Nat.eq_zero_or_pos m with rfl | pos
  · have nought : ofFloat (ofDyadic 0 e) = zero := rfl
    rw [nought, number_zero, Nat.cast_zero, zero_mul, EReal.coe_zero]
  · have full := log2_shifted pos fits.size
    obtain ⟨b, place, above, below⟩ := exists_exponent pos fits
    obtain ⟨least, greatest⟩ :=
      (Nat.log2_eq_iff (Nat.mul_pos pos (Nat.two_pow_pos _)).ne').1 full
    have bits : (ofFloat (ofDyadic m e)).bits.toNat = b * 2 ^ 52 + m * 2 ^ headroom m % 2 ^ 52 := by
      rw [ofDyadic, dyadic_of_pos pos]
      change (UnpackedFloat.pack Format.binary64 _).toNat = _
      rw [pack_normal _ full place below, toNat_packComponents below]
    generalize ofFloat (ofDyadic m e) = x at bits
    have positive : x.negative = false := Bool.eq_false_iff.2 fun negative => by
      have high := negative_iff.1 negative
      omega
    have exponent : x.exponent = b := by
      unfold exponent low
      omega
    have significand : x.significand = m * 2 ^ headroom m := by
      rw [significand, exponent, if_neg above.ne']
      unfold fraction low
      omega
    have stored : max b 1 = b := by omega
    have power : (b : Int) - 1075 = e - headroom m := by omega
    rw [number_of_positive positive, magnitude, exponent, significand, if_neg below.ne, stored,
      power, EReal.coe_eq_coe_iff]
    push_cast
    rw [mul_assoc, ← zpow_natCast, ← zpow_add₀ two_ne_zero, add_sub_cancel]

/-! ### Arithmetic that does not round -/

theorem ofNat_eq_ofDyadic {n : Nat} (size : n < 2 ^ 53) :
    Float.ofModel (.ofNat n) = ofDyadic n 0 := by
  have whole : Fits n 0 := ⟨size, by omega, by omega⟩
  have kept := normalize_exact whole 0
  rw [Nat.pow_zero, Nat.mul_one] at kept
  rw [ofDyadic, ← kept]
  rfl

theorem ofDyadic_rescale {m i : Nat} {e : Int} (size : m * 2 ^ i < 2 ^ 53) :
    ofDyadic (m * 2 ^ i) e = ofDyadic m (e + i) := by
  rcases Nat.eq_zero_or_pos m with rfl | pos
  · rw [Nat.zero_mul]
    rfl
  · have posAll := Nat.mul_pos pos (Nat.two_pow_pos i)
    have room : headroom m = i + headroom (m * 2 ^ i) := by
      have short := log2_le_of_size posAll size
      rw [log2_mul_two_pow pos] at short
      rw [headroom, headroom, log2_mul_two_pow pos]
      omega
    rw [ofDyadic, ofDyadic, dyadic_of_pos pos, dyadic_of_pos posAll]
    congr 3
    · rw [room, Nat.pow_add, Nat.mul_assoc]
    · omega

theorem ofDyadic_add {m n : Nat} {e : Int} (left : Fits m e) (right : Fits n e)
    (fits : Fits (m + n) e) : ofDyadic m e + ofDyadic n e = ofDyadic (m + n) e := by
  suffices UnpackedFloat.add Format.binary64 (dyadic m e) (dyadic n e) = dyadic (m + n) e by
    rw [ofDyadic.eq_1 (m + n), ← this, ← unpack_ofDyadic left, ← unpack_ofDyadic right]
    rfl
  rcases Nat.eq_zero_or_pos m with rfl | pos
  · rcases Nat.eq_zero_or_pos n with rfl | posToo
    · rfl
    · rw [Nat.zero_add, dyadic_of_pos posToo]
      rfl
  rcases Nat.eq_zero_or_pos n with rfl | posToo
  · rw [Nat.add_zero, dyadic_of_pos pos]
    rfl
  · obtain ⟨j, common, long, longToo⟩ : ∃ j : Nat,
        min (e - headroom m) (e - headroom n) = e - j ∧ headroom m ≤ j ∧ headroom n ≤ j :=
      ⟨max (headroom m) (headroom n), by omega, by omega, by omega⟩
    rw [dyadic_of_pos pos, dyadic_of_pos posToo, UnpackedFloat.add]
    dsimp only
    rw [common, decreaseExponent_exact long, decreaseExponent_exact longToo]
    dsimp only [Sign.apply]
    rw [← Int.natCast_add, ← Nat.add_mul, normalize_exact fits]

theorem ofDyadic_mul {m n : Nat} {e f : Int} (left : Fits m e) (right : Fits n f)
    (fits : Fits (m * n) (e + f)) : ofDyadic m e * ofDyadic n f = ofDyadic (m * n) (e + f) := by
  suffices UnpackedFloat.mul Format.binary64 (dyadic m e) (dyadic n f) = dyadic (m * n) (e + f) by
    rw [ofDyadic.eq_1 (m * n), ← this, ← unpack_ofDyadic left, ← unpack_ofDyadic right]
    rfl
  rcases Nat.eq_zero_or_pos m with rfl | pos
  · rcases Nat.eq_zero_or_pos n with rfl | posToo
    · rfl
    · rw [Nat.zero_mul, dyadic_of_pos posToo]
      rfl
  rcases Nat.eq_zero_or_pos n with rfl | posToo
  · rw [Nat.mul_zero, dyadic_of_pos pos]
    rfl
  · have more := log2_mul_le pos posToo
    have long : headroom (m * n) ≤ headroom m + headroom n := by
      unfold headroom
      omega
    rw [dyadic_of_pos pos, dyadic_of_pos posToo,
      ← roundWithAccuracy_exact (Nat.mul_pos pos posToo) fits long, UnpackedFloat.mul,
      Nat.pow_add, Nat.mul_mul_mul_comm]
    congr 1
    omega

/-- The places by which a division extends its dividend, 53 unless the quotient is very small. -/
theorem exists_extension {m n : Nat} {e f : Int} (pos : 0 < m) (posToo : 0 < n)
    (left : Fits (m * n) e) (right : Fits n f) (fits : Fits m (e - f)) :
    ∃ i : Nat, headroom m + headroom n ≤ headroom (m * n) + i ∧
      min (e - headroom (m * n) - (f - headroom n)) (Format.binary64.targetExponent
        (totalExponent (m * n * 2 ^ headroom (m * n)) (e - headroom (m * n)) -
          totalExponent (n * 2 ^ headroom n) (f - headroom n))) =
        e - headroom (m * n) - (f - headroom n) - i := by
  have posAll := Nat.mul_pos pos posToo
  have less := log2_mul_lt pos posToo
  have short := log2_le_of_size posAll left.size
  have shortToo := log2_le_of_size posToo right.size
  have least := fits.least
  rw [Format.targetExponent, totalExponent, totalExponent, log2_shifted posAll left.size,
    log2_shifted posToo right.size, minExponent_eq, mantissaBits_eq]
  refine ⟨(max 0 (min 53 (e - headroom (m * n) - (f - headroom n) + 1074))).toNat, ?_, ?_⟩
  · unfold headroom
    omega
  · omega

theorem divCore_exact {m n : Nat} {e f : Int} (pos : 0 < m) (posToo : 0 < n)
    (left : Fits (m * n) e) (right : Fits n f) (fits : Fits m (e - f)) :
    ∃ j : Nat, headroom m ≤ j ∧
      divCore Format.binary64 (m * n * 2 ^ headroom (m * n)) (e - headroom (m * n))
        (n * 2 ^ headroom n) (f - headroom n) = (m * 2 ^ j, e - f - j, .exact) := by
  obtain ⟨i, long, target⟩ := exists_extension pos posToo left right fits
  have amount : (e - headroom (m * n) - (f - headroom n) -
      (e - headroom (m * n) - (f - headroom n) - i)).toNat = i := by omega
  have apart : m * n * 2 ^ headroom (m * n) * 2 ^ i =
      m * 2 ^ (headroom (m * n) + i - headroom n) * (n * 2 ^ headroom n) := by
    rw [Nat.mul_mul_mul_comm, ← Nat.pow_add, Nat.mul_assoc, ← Nat.pow_add]
    congr 2
    omega
  have divisor : 0 < n * 2 ^ headroom n := Nat.mul_pos posToo (Nat.two_pow_pos _)
  refine ⟨headroom (m * n) + i - headroom n, by omega, ?_⟩
  rw [divCore, target, amount, Nat.shiftLeft_eq, apart, Nat.mul_div_cancel _ divisor,
    Nat.mul_mod_left, accuracyOfFraction, if_pos rfl]
  congr 2
  omega

/-- A quotient does not round when the divisor goes into the dividend. -/
theorem ofDyadic_div {m n : Nat} {e f : Int} (posToo : 0 < n) (left : Fits (m * n) e)
    (right : Fits n f) (fits : Fits m (e - f)) :
    ofDyadic (m * n) e / ofDyadic n f = ofDyadic m (e - f) := by
  suffices UnpackedFloat.div Format.binary64 (dyadic (m * n) e) (dyadic n f) = dyadic m (e - f) by
    rw [ofDyadic.eq_1 m, ← this, ← unpack_ofDyadic left, ← unpack_ofDyadic right]
    rfl
  rcases Nat.eq_zero_or_pos m with rfl | pos
  · rw [Nat.zero_mul, dyadic_of_pos posToo]
    rfl
  · obtain ⟨j, long, quotient⟩ := divCore_exact pos posToo left right fits
    rw [dyadic_of_pos (Nat.mul_pos pos posToo), dyadic_of_pos posToo, UnpackedFloat.div]
    dsimp only
    rw [quotient]
    exact roundWithAccuracy_exact pos fits long

end Authorization.Binary64
