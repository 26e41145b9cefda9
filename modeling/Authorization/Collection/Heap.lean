namespace Authorization

/-- A leftist heap: the right branch is the shorter way to a leaf, and its length is stored. -/
inductive Heap (α : Type) where
  | leaf
  | node (rank : Nat) (root : α) (left right : Heap α)

namespace Heap

variable {α : Type}

def rank : Heap α → Nat
  | leaf => 0
  | node rank _ _ _ => rank

def size : Heap α → Nat
  | leaf => 0
  | node _ _ left right => left.size + right.size + 1

def toList : Heap α → List α
  | leaf => []
  | node _ root left right => root :: (left.toList ++ right.toList)

theorem length_toList (h : Heap α) : h.toList.length = h.size := by
  induction h with
  | leaf => rfl
  | node _ _ _ _ left right => simp [toList, size, left, right]

def root? : Heap α → Option α
  | leaf => none
  | node _ root _ _ => some root

def branch (root : α) (left right : Heap α) : Heap α :=
  if right.rank ≤ left.rank then node (right.rank + 1) root left right
  else node (left.rank + 1) root right left

theorem toList_branch (root : α) (left right : Heap α) :
    (branch root left right).toList.Perm (root :: (left.toList ++ right.toList)) := by
  unfold branch
  split
  · exact .refl _
  · exact List.perm_append_comm.cons root

/-- Merges into a second heap the heap `whole`, given also by its root, its left branch and the way
its right branch merges. -/
def mergeWith (first : α → α → Bool) (whole : Heap α) (root : α) (left : Heap α)
    (mergeRight : Heap α → Heap α) : Heap α → Heap α
  | leaf => whole
  | node rank other otherLeft otherRight =>
    if first root other then branch root left (mergeRight (node rank other otherLeft otherRight))
    else branch other otherLeft (mergeWith first whole root left mergeRight otherRight)

/-- The union of two heaps; `first a b` says that `a` may come out before `b`. -/
def merge (first : α → α → Bool) : Heap α → Heap α → Heap α
  | leaf => id
  | node rank root left right =>
    mergeWith first (node rank root left right) root left (merge first right)

theorem toList_merge (first : α → α → Bool) (g h : Heap α) :
    (merge first g h).toList.Perm (g.toList ++ h.toList) := by
  induction g generalizing h with
  | leaf => exact .refl _
  | node rank root left right _ mergeRight =>
    unfold merge
    induction h with
    | leaf => simp [mergeWith, toList]
    | node otherRank other otherLeft otherRight _ mergeOther =>
      unfold mergeWith
      split
      · refine (toList_branch ..).trans ?_
        simp only [toList, List.cons_append, List.append_assoc]
        exact ((mergeRight _).append_left _).cons root
      · refine ((toList_branch ..).trans ((mergeOther.append_left _).cons other)).trans ?_
        simp only [toList]
        refine .trans (.cons other ?_) List.perm_middle.symm
        rw [← List.append_assoc, ← List.append_assoc]
        exact List.perm_append_comm.append_right _

def push (first : α → α → Bool) (a : α) (h : Heap α) : Heap α :=
  merge first (node 1 a leaf leaf) h

theorem toList_push (first : α → α → Bool) (a : α) (h : Heap α) :
    (h.push first a).toList.Perm (a :: h.toList) :=
  toList_merge first (node 1 a leaf leaf) h

def pop? (first : α → α → Bool) : Heap α → Option (α × Heap α)
  | leaf => none
  | node _ root left right => some (root, merge first left right)

theorem toList_of_pop? {first : α → α → Bool} {h rest : Heap α} {a : α}
    (popped : h.pop? first = some (a, rest)) : h.toList.Perm (a :: rest.toList) := by
  cases h with
  | leaf => cases popped
  | node rank root left right =>
    cases popped
    exact (toList_merge first left right).symm.cons a

/-- The first `n` entries in the order in which they come out. -/
def drain (first : α → α → Bool) : Nat → Heap α → List α
  | 0, _ => []
  | n + 1, h =>
    match h.pop? first with
    | none => []
    | some (a, rest) => a :: drain first n rest

end Heap

end Authorization
