import Authorization.Binary64
import Authorization.Collection.Heap

namespace Authorization

/-- Which end of the cost range comes out first. -/
inductive PopOrder where
  | minFirst
  | maxFirst
  deriving DecidableEq

namespace PopOrder

def name : PopOrder → String
  | minFirst => "MinFirst"
  | maxFirst => "MaxFirst"

/-- Compares two costs; the greater one comes out first. -/
def compare : PopOrder → Binary64 → Binary64 → Ordering
  | maxFirst, x, y => x.totalCompare y
  | minFirst, x, y => y.totalCompare x

def first (order : PopOrder) (x y : Binary64) : Bool := (order.compare x y).isGE

end PopOrder

/-- An entry of a queue with the order of the queue, by which entries compare. -/
structure Slot (α : Type) where
  item : α
  cost : Binary64
  order : PopOrder

def PopOrder.slot {α : Type} (order : PopOrder) (entry : α × Binary64) : Slot α :=
  ⟨entry.1, entry.2, order⟩

namespace Slot

variable {α : Type}

instance : Ord (Slot α) := ⟨fun s t => s.order.compare s.cost t.cost⟩

instance : BEq (Slot α) := ⟨fun s t => compare s t == .eq⟩

def partialCompare (s t : Slot α) : Option Ordering := some (compare s t)

end Slot

inductive QueueError where
  | empty
  deriving DecidableEq

def QueueError.message : QueueError → String
  | empty => "priority queue is empty"

/-- Items with their costs, of which the one of extreme cost comes out first. -/
structure PriorityQueue (α : Type) where
  order : PopOrder
  heap : Heap (α × Binary64)

namespace PriorityQueue

variable {α : Type}

def empty (order : PopOrder) : PriorityQueue α := ⟨order, .leaf⟩

def before (order : PopOrder) (a b : α × Binary64) : Bool := order.first a.2 b.2

def size (q : PriorityQueue α) : Nat := q.heap.size

def isEmpty (q : PriorityQueue α) : Bool := q.heap.root?.isNone

def toList (q : PriorityQueue α) : List (α × Binary64) := q.heap.toList

def push (q : PriorityQueue α) (item : α) (cost : Binary64) : PriorityQueue α :=
  { q with heap := q.heap.push (before q.order) (item, cost) }

def extend (q : PriorityQueue α) (entries : List (α × Binary64)) : PriorityQueue α :=
  entries.foldl (fun q e => q.push e.1 e.2) q

def pop (q : PriorityQueue α) : Option (α × Binary64) × PriorityQueue α :=
  match q.heap.pop? (before q.order) with
  | none => (none, q)
  | some (entry, rest) => (some entry, { q with heap := rest })

def popItem (q : PriorityQueue α) : Option α × PriorityQueue α :=
  (q.pop.1.map (·.1), q.pop.2)

def orEmpty {β : Type} : Option β → Except QueueError β
  | none => .error .empty
  | some b => .ok b

def tryPop (q : PriorityQueue α) : Except QueueError (α × Binary64) × PriorityQueue α :=
  (orEmpty q.pop.1, q.pop.2)

def peek (q : PriorityQueue α) : Except QueueError (α × Binary64) := orEmpty q.heap.root?

def clear (q : PriorityQueue α) : PriorityQueue α := empty q.order

/-- All entries in the order in which they come out. -/
def toSortedList (q : PriorityQueue α) : List (α × Binary64) :=
  q.heap.drain (before q.order) q.size

def describe (q : PriorityQueue α) : String :=
  "PriorityQueue \x7b order: " ++ q.order.name ++ ", len: " ++ toString q.size ++ " \x7d"

end PriorityQueue

end Authorization
