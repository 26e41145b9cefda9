import Authorization.Proofs.Binary64.TotalOrder
import Authorization.Proofs.Queue.History

namespace Authorization

namespace PopOrder

theorem Precedes.antisymm {order : PopOrder} {x y : Binary64} (first : order.Precedes x y)
    (second : order.Precedes y x) : x = y := by
  cases order with
  | minFirst => exact Binary64.totalLE_antisymm first second
  | maxFirst => exact Binary64.totalLE_antisymm second first

theorem compare_swap (order : PopOrder) (x y : Binary64) :
    order.compare x y = (order.compare y x).swap := by
  cases order <;> exact (Int.compare_swap _ _).symm

theorem compare_minFirst (x y : Binary64) :
    minFirst.compare x y = (maxFirst.compare x y).swap := compare_swap maxFirst y x

/-- The greater of two costs does not come out later. -/
theorem isLE_compare_iff {order : PopOrder} {x y : Binary64} :
    (order.compare x y).isLE = true ↔ order.Precedes y x := by
  rw [compare_swap, Ordering.isLE_swap]
  exact first_iff

theorem compare_eq_iff {order : PopOrder} {x y : Binary64} :
    order.compare x y = .eq ↔ x = y := by
  constructor
  · intro same
    have notLess : order.Precedes y x := isLE_compare_iff.1 (same ▸ rfl)
    have notMore : order.Precedes x y := first_iff.1 (by rw [first, same]; rfl)
    exact notMore.antisymm notLess
  · rintro rfl
    cases order <;> exact Int.compare_eq_eq.2 rfl

theorem compare_opposite (order : PopOrder) (x y : Binary64) :
    order.compare x.opposite y.opposite = (order.compare x y).swap := by
  rw [← compare_swap]
  cases order <;> exact Binary64.totalCompare_opposite _ _

end PopOrder

namespace Slot

/-- The slots of a queue are in a linear order by the bits of their costs, which is reversed when the
costs change their signs. That order decides which entries may come out before which. -/
structure ComparesBits (order : PopOrder) (α : Type) : Prop where
  total (a b : α × Binary64) : (compare (order.slot a) (order.slot b)).isLE = true ∨
    (compare (order.slot b) (order.slot a)).isLE = true
  oriented (a b : α × Binary64) :
    compare (order.slot a) (order.slot b) = (compare (order.slot b) (order.slot a)).swap
  trans (a b c : α × Binary64) (first : (compare (order.slot a) (order.slot b)).isLE = true)
    (second : (compare (order.slot b) (order.slot c)).isLE = true) :
    (compare (order.slot a) (order.slot c)).isLE = true
  antisymm (a b : α × Binary64) (first : (compare (order.slot a) (order.slot b)).isLE = true)
    (second : (compare (order.slot b) (order.slot a)).isLE = true) : a.2.bits = b.2.bits
  equal (a b : α × Binary64) :
    compare (order.slot a) (order.slot b) = .eq ↔ a.2.bits = b.2.bits
  beq (a b : α × Binary64) :
    (order.slot a == order.slot b) = true ↔ compare (order.slot a) (order.slot b) = .eq
  partialCompare (a b : α × Binary64) :
    (order.slot a).partialCompare (order.slot b) = some (compare (order.slot a) (order.slot b))
  opposite (a b : α × Binary64) :
    compare (order.slot (a.1, a.2.opposite)) (order.slot (b.1, b.2.opposite)) =
      (compare (order.slot a) (order.slot b)).swap
  before (a b : α × Binary64) : PriorityQueue.before order a b = true ↔
    (compare (order.slot a) (order.slot b)).isGE = true

/-- Where the greatest cost comes first, slots compare as the numbers of their costs do, with the
NaNs beyond them on either side. Where the least comes first it is the other way round. -/
structure ComparesNumbers (α : Type) : Prop where
  reversed (a b : α × Binary64) : compare (PopOrder.minFirst.slot a) (PopOrder.minFirst.slot b) =
    (compare (PopOrder.maxFirst.slot a) (PopOrder.maxFirst.slot b)).swap
  numeric (a b : α × Binary64) (proper : ¬ a.2.IsNaN) (properToo : ¬ b.2.IsNaN) :
    compare (PopOrder.maxFirst.slot a) (PopOrder.maxFirst.slot b) = .lt ↔
      a.2.number < b.2.number ∨ a.2 = .negativeZero ∧ b.2 = .zero
  negativeNaN (a b : α × Binary64) (nan : a.2.IsNaN ∧ a.2.negative = true)
    (other : ¬ (b.2.IsNaN ∧ b.2.negative = true)) :
    compare (PopOrder.maxFirst.slot a) (PopOrder.maxFirst.slot b) = .lt
  positiveNaN (a b : α × Binary64) (nan : b.2.IsNaN ∧ b.2.negative = false)
    (other : ¬ (a.2.IsNaN ∧ a.2.negative = false)) :
    compare (PopOrder.maxFirst.slot a) (PopOrder.maxFirst.slot b) = .lt

variable {α : Type}

theorem isLE_iff {order : PopOrder} {a b : α × Binary64} :
    (compare (order.slot a) (order.slot b)).isLE = true ↔ order.Precedes b.2 a.2 :=
  PopOrder.isLE_compare_iff

theorem compare_eq_iff {order : PopOrder} {a b : α × Binary64} :
    compare (order.slot a) (order.slot b) = .eq ↔ a.2.bits = b.2.bits :=
  PopOrder.compare_eq_iff.trans Binary64.bits_inj.symm

theorem comparesBits (order : PopOrder) (α : Type) : ComparesBits order α where
  total a b := by
    rw [isLE_iff, isLE_iff]
    exact order.precedes_total b.2 a.2
  oriented a b := order.compare_swap a.2 b.2
  trans a b c first second := by
    rw [isLE_iff] at first second ⊢
    exact second.trans first
  antisymm a b first second := by
    rw [isLE_iff] at first second
    rw [second.antisymm first]
  equal _ _ := compare_eq_iff
  beq a b := by
    show (compare (order.slot a) (order.slot b) == .eq) = true ↔ _
    exact beq_iff_eq
  partialCompare _ _ := rfl
  opposite a b := order.compare_opposite a.2 b.2
  before _ _ := Iff.rfl

theorem comparesNumbers (α : Type) : ComparesNumbers α where
  reversed a b := PopOrder.compare_minFirst a.2 b.2
  numeric _ _ proper properToo :=
    Binary64.totalCompare_lt_iff.trans (Binary64.rank_lt_iff proper properToo)
  negativeNaN _ _ nan other :=
    Binary64.totalCompare_lt_iff.2 (Binary64.rank_lt_of_negative_nan nan other)
  positiveNaN _ _ nan other :=
    Binary64.totalCompare_lt_iff.2 (Binary64.rank_lt_of_positive_nan nan other)

/-- Slots of one queue compare by their costs alone, in IEEE totalOrder or the other way round. -/
theorem compare_linear (α : Type) :
    (∀ order, ComparesBits order α) ∧ ComparesNumbers α :=
  ⟨fun order => comparesBits order α, comparesNumbers α⟩

end Slot

end Authorization
