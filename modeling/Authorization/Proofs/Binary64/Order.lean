import Authorization.Binary64
import Mathlib.Algebra.Order.Ring.Int

namespace Authorization.Binary64

theorem bits_inj {x y : Binary64} : x.bits = y.bits ↔ x = y := by
  constructor
  · intro same
    cases x
    cases y
    exact congrArg _ same
  · rintro rfl
    rfl

theorem rank_eq (x : Binary64) :
    x.rank = if x.bits.toNat < 2 ^ 63 then (x.bits.toNat : Int) else 2 ^ 63 - 1 - x.bits.toNat :=
  rfl

theorem rank_injective {x y : Binary64} (same : x.rank = y.rank) : x = y := by
  have bound := x.bits.toNat_lt
  have boundToo := y.bits.toNat_lt
  rw [rank_eq, rank_eq] at same
  have bits : x.bits.toNat = y.bits.toNat := by
    split at same <;> split at same <;> omega
  exact bits_inj.1 (UInt64.toNat_inj.1 bits)

theorem totalLE_iff {x y : Binary64} : x.totalLE y = true ↔ x.rank ≤ y.rank := decide_eq_true_iff

theorem totalLE_refl (x : Binary64) : x.totalLE x = true := totalLE_iff.2 (Int.le_refl _)

theorem totalLE_total (x y : Binary64) : x.totalLE y = true ∨ y.totalLE x = true := by
  rw [totalLE_iff, totalLE_iff]
  exact Int.le_total x.rank y.rank

theorem totalLE_trans {x y z : Binary64} (first : x.totalLE y = true)
    (second : y.totalLE z = true) : x.totalLE z = true := by
  rw [totalLE_iff] at first second ⊢
  exact Int.le_trans first second

theorem totalLE_antisymm {x y : Binary64} (first : x.totalLE y = true)
    (second : y.totalLE x = true) : x = y := by
  rw [totalLE_iff] at first second
  exact rank_injective (Int.le_antisymm first second)

end Authorization.Binary64
