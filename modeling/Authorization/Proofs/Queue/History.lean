import Authorization.Collection.PriorityQueue
import Authorization.Proofs.Binary64.Order
import Authorization.Proofs.Queue.HeapOrder
import Mathlib.Data.Multiset.AddSub

namespace Authorization

namespace Binary64

theorem isGE_totalCompare {x y : Binary64} :
    (x.totalCompare y).isGE = true ↔ y.totalLE x = true := by
  rw [totalLE_iff, totalCompare, Std.isGE_compare]

end Binary64

namespace PopOrder

/-- One cost comes out no later than another: it is at most as great, or at least as great. -/
def Precedes : PopOrder → Binary64 → Binary64 → Prop
  | minFirst, x, y => x.totalLE y = true
  | maxFirst, x, y => y.totalLE x = true

theorem first_iff {order : PopOrder} {x y : Binary64} :
    order.first x y = true ↔ order.Precedes x y := by
  cases order <;> exact Binary64.isGE_totalCompare

theorem precedes_total (order : PopOrder) (x y : Binary64) :
    order.Precedes x y ∨ order.Precedes y x := by
  cases order with
  | minFirst => exact Binary64.totalLE_total x y
  | maxFirst => exact Binary64.totalLE_total y x

theorem Precedes.trans {order : PopOrder} {x y z : Binary64} (first : order.Precedes x y)
    (second : order.Precedes y z) : order.Precedes x z := by
  cases order with
  | minFirst => exact Binary64.totalLE_trans first second
  | maxFirst => exact Binary64.totalLE_trans second first

end PopOrder

namespace PriorityQueue

/-- What is asked of a queue. To take all entries out in order leaves nothing in it. -/
inductive Op (α : Type) where
  | push (item : α) (cost : Binary64)
  | extend (entries : List (α × Binary64))
  | pop
  | popItem
  | tryPop
  | peek
  | clear
  | sorted

variable {α : Type}

abbrev Op.Answer : Op α → Type
  | push _ _ | extend _ | clear => Unit
  | pop => Option (α × Binary64)
  | popItem => Option α
  | tryPop | peek => Except QueueError (α × Binary64)
  | sorted => List (α × Binary64)

def apply (q : PriorityQueue α) : (op : Op α) → op.Answer × PriorityQueue α
  | .push item cost => ((), q.push item cost)
  | .extend entries => ((), q.extend entries)
  | .pop => q.pop
  | .popItem => q.popItem
  | .tryPop => q.tryPop
  | .peek => (q.peek, q)
  | .clear => ((), q.clear)
  | .sorted => (q.toSortedList, q.clear)

def run (q : PriorityQueue α) (ops : List (Op α)) : PriorityQueue α :=
  ops.foldl (fun q op => (q.apply op).2) q

/-- The entries that were put in and those that were taken out since the queue was last emptied. -/
structure Ledger (α : Type) where
  pushed : Multiset (α × Binary64)
  popped : Multiset (α × Binary64)

namespace Ledger

def blank : Ledger α := ⟨0, 0⟩

def enter (l : Ledger α) (q : PriorityQueue α) : Op α → Ledger α
  | .push item cost => { l with pushed := (item, cost) ::ₘ l.pushed }
  | .extend entries => { l with pushed := ↑entries + l.pushed }
  | .pop | .popItem | .tryPop => { l with popped := ↑q.pop.1.toList + l.popped }
  | .peek => l
  | .clear | .sorted => blank

/-- The ledger after some operations on a queue. -/
def after (l : Ledger α) (q : PriorityQueue α) : List (Op α) → Ledger α
  | [] => l
  | op :: ops => (l.enter q op).after (q.apply op).2 ops

end Ledger

theorem before_totalPreorder (order : PopOrder) :
    Heap.TotalPreorder (before order : α × Binary64 → α × Binary64 → Bool) where
  total a b := by
    simp only [before, PopOrder.first_iff]
    exact order.precedes_total a.2 b.2
  trans first second := by
    simp only [before, PopOrder.first_iff] at first second ⊢
    exact first.trans second

/-- The heap is in the order of the queue. -/
def Ordered (q : PriorityQueue α) : Prop := q.heap.Ordered (before q.order)

/-- What a pop does: nothing to an empty queue, and otherwise it takes out an extreme entry. -/
inductive Popped (q : PriorityQueue α) : Option (α × Binary64) → PriorityQueue α → Prop where
  | empty (size : q.size = 0) : Popped q none q
  | entry {e : α × Binary64} {rest : PriorityQueue α} (size : q.size ≠ 0)
    (order : rest.order = q.order) (ordered : rest.Ordered)
    (parts : q.toList.Perm (e :: rest.toList))
    (extreme : ∀ other ∈ q.toList, q.order.Precedes e.2 other.2) : Popped q (some e) rest

theorem popped {q : PriorityQueue α} (ordered : q.Ordered) : Popped q q.pop.1 q.pop.2 := by
  unfold pop
  split
  · rename_i none
    exact .empty (Heap.pop?_eq_none_iff.1 none)
  · rename_i e rest taken
    obtain ⟨orderedRest, first⟩ := Heap.pop?_ordered (before_totalPreorder q.order) ordered taken
    have some : q.size ≠ 0 := fun size => by
      rw [Heap.pop?_eq_none_iff.2 size] at taken
      cases taken
    exact .entry some rfl orderedRest (Heap.toList_of_pop? taken)
      fun other member => PopOrder.first_iff.1 (first other member)

theorem peek_eq_pop (q : PriorityQueue α) : q.peek = orEmpty q.pop.1 := by
  rw [peek, Heap.root?_eq_pop? (before q.order), pop]
  cases q.heap.pop? (before q.order) <;> rfl

theorem toList_push (q : PriorityQueue α) (item : α) (cost : Binary64) :
    (q.push item cost).toList.Perm ((item, cost) :: q.toList) :=
  Heap.toList_push _ _ _

theorem push_ordered {q : PriorityQueue α} (ordered : q.Ordered) (item : α) (cost : Binary64) :
    (q.push item cost).Ordered :=
  Heap.push_ordered (before_totalPreorder q.order) ordered (item, cost)

theorem toList_extend (q : PriorityQueue α) (entries : List (α × Binary64)) :
    (q.extend entries).toList.Perm (entries ++ q.toList) := by
  induction entries generalizing q with
  | nil => exact .refl _
  | cons e entries ih =>
    have rest := ih (q.push e.1 e.2)
    have first := (q.toList_push e.1 e.2).append_left entries
    exact (rest.trans first).trans List.perm_middle

theorem order_extend (q : PriorityQueue α) (entries : List (α × Binary64)) :
    (q.extend entries).order = q.order := by
  induction entries generalizing q with
  | nil => rfl
  | cons e entries ih => exact ih (q.push e.1 e.2)

theorem extend_ordered {q : PriorityQueue α} (ordered : q.Ordered)
    (entries : List (α × Binary64)) : (q.extend entries).Ordered := by
  induction entries generalizing q with
  | nil => exact ordered
  | cons e entries ih => exact ih (push_ordered ordered e.1 e.2)

/-- The queue is in order, and with what was taken out it makes up what was put in. -/
structure Balanced (order : PopOrder) (l : Ledger α) (q : PriorityQueue α) : Prop where
  direction : q.order = order
  ordered : q.Ordered
  contents : (q.toList : Multiset (α × Binary64)) + l.popped = l.pushed

theorem empty_balanced (order : PopOrder) : Balanced order .blank (empty order : PriorityQueue α) :=
  ⟨rfl, trivial, rfl⟩

theorem Balanced.pop {order : PopOrder} {l : Ledger α} {q : PriorityQueue α}
    (balanced : Balanced order l q) :
    Balanced order { l with popped := ↑q.pop.1.toList + l.popped } q.pop.2 := by
  cases outcome : q.pop with
  | mk taken rest =>
    have effect := popped balanced.ordered
    rw [outcome] at effect
    cases effect with
    | empty _ =>
      have none : l = { l with popped := 0 + l.popped } := by rw [Multiset.zero_add]
      exact none ▸ balanced
    | @entry e _ _ same ordered parts _ =>
      refine ⟨same.trans balanced.direction, ordered, ?_⟩
      rw [← balanced.contents, Multiset.coe_eq_coe.2 parts]
      simp [← Multiset.cons_coe]

theorem Balanced.enter {order : PopOrder} {l : Ledger α} {q : PriorityQueue α}
    (balanced : Balanced order l q) (op : Op α) :
    Balanced order (l.enter q op) (q.apply op).2 := by
  cases op with
  | push item cost =>
    refine ⟨balanced.direction, push_ordered balanced.ordered item cost, ?_⟩
    simp only [apply, Ledger.enter]
    rw [Multiset.coe_eq_coe.2 (q.toList_push item cost), ← balanced.contents,
      ← Multiset.cons_coe, Multiset.cons_add]
  | extend entries =>
    refine ⟨(q.order_extend entries).trans balanced.direction,
      extend_ordered balanced.ordered entries, ?_⟩
    simp only [apply, Ledger.enter]
    rw [Multiset.coe_eq_coe.2 (q.toList_extend entries), ← balanced.contents,
      ← Multiset.coe_add, Multiset.add_assoc]
  | pop => exact balanced.pop
  | popItem => exact balanced.pop
  | tryPop => exact balanced.pop
  | peek => exact balanced
  | clear => exact balanced.direction ▸ empty_balanced q.order
  | sorted => exact balanced.direction ▸ empty_balanced q.order

theorem Balanced.run {order : PopOrder} {l : Ledger α} {q : PriorityQueue α}
    (balanced : Balanced order l q) (ops : List (Op α)) :
    Balanced order (l.after q ops) (q.run ops) := by
  induction ops generalizing l q with
  | nil => exact balanced
  | cons op ops ih => exact ih (balanced.enter op)

/-- What a queue holds after some operations, and what the next one gets. -/
structure Faithful (order : PopOrder) (l : Ledger α) (q : PriorityQueue α) : Prop where
  direction : q.order = order
  contents : (q.toList : Multiset (α × Binary64)) + l.popped = l.pushed
  extreme : ∀ e, q.pop.1 = some e →
    e ∈ q.toList ∧ ∀ other ∈ q.toList, order.Precedes e.2 other.2
  rest : ∀ e, q.pop.1 = some e → q.toList.Perm (e :: q.pop.2.toList)
  popItem : q.popItem = (q.pop.1.map (·.1), q.pop.2)
  tryPop : q.tryPop = (orEmpty q.pop.1, q.pop.2)
  peek : q.apply .peek = (orEmpty q.pop.1, q)
  size : q.size = q.toList.length
  pop_none : q.pop.1 = none ↔ q.size = 0
  popItem_none : q.popItem.1 = none ↔ q.size = 0
  tryPop_empty : q.tryPop.1 = .error .empty ↔ q.size = 0
  peek_empty : q.peek = .error .empty ↔ q.size = 0
  sorted_perm : q.toSortedList.Perm q.toList
  sorted : q.toSortedList.Pairwise fun a b => order.Precedes a.2 b.2

theorem orEmpty_error_iff {β : Type} {taken : Option β} :
    orEmpty taken = .error .empty ↔ taken = none := by
  cases taken <;> simp [orEmpty]

/-- Whatever a new queue has been through, it holds what was put in and not taken out, and gives it
back from the extreme end. -/
theorem run_faithful (order : PopOrder) (ops : List (Op α)) :
    Faithful order (Ledger.blank.after (empty order) ops) ((empty order).run ops) := by
  have balanced : Balanced order (Ledger.blank.after (empty order) ops)
      ((empty order : PriorityQueue α).run ops) := (empty_balanced order).run ops
  generalize (empty order).run ops = q at balanced ⊢
  have effect := popped balanced.ordered
  have direction := balanced.direction
  have none : q.pop.1 = none ↔ q.size = 0 := by
    cases outcome : q.pop with
    | mk taken rest =>
      rw [outcome] at effect
      cases effect with
      | empty size => exact iff_of_true rfl size
      | entry size _ _ _ _ => exact iff_of_false (by simp) size
  have some {e : α × Binary64} (taken : q.pop.1 = some e) :
      q.toList.Perm (e :: q.pop.2.toList) ∧ ∀ other ∈ q.toList, q.order.Precedes e.2 other.2 := by
    rw [taken] at effect
    cases effect with
    | entry _ _ _ parts extreme => exact ⟨parts, extreme⟩
  subst direction
  constructor
  · rfl
  · exact balanced.contents
  · exact fun e taken => ⟨(some taken).1.mem_iff.2 List.mem_cons_self, (some taken).2⟩
  · exact fun e taken => (some taken).1
  · rfl
  · rfl
  · exact Prod.ext q.peek_eq_pop rfl
  · exact q.heap.length_toList.symm
  · exact none
  · exact Option.map_eq_none_iff.trans none
  · exact orEmpty_error_iff.trans none
  · exact (q.peek_eq_pop ▸ orEmpty_error_iff).trans none
  · exact Heap.drain_perm _ q.heap
  · have ordered := Heap.drain_pairwise (before_totalPreorder q.order) balanced.ordered q.size
    exact ordered.imp PopOrder.first_iff.1

end PriorityQueue

end Authorization
