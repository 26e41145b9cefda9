import Authorization.Collection.Heap

namespace Authorization

namespace Heap

variable {α : Type} {first : α → α → Bool}

structure TotalPreorder (first : α → α → Bool) : Prop where
  total : ∀ a b, first a b = true ∨ first b a = true
  trans : ∀ {a b c}, first a b = true → first b c = true → first a c = true

theorem TotalPreorder.refl (order : TotalPreorder first) (a : α) : first a a = true :=
  (order.total a a).elim id id

/-- Every root may come out before whatever is below it. -/
def Ordered (first : α → α → Bool) : Heap α → Prop
  | leaf => True
  | node _ root left right =>
    (∀ a ∈ left.toList, first root a = true) ∧ (∀ a ∈ right.toList, first root a = true) ∧
      left.Ordered first ∧ right.Ordered first

theorem Ordered.root_first {rank : Nat} {root : α} {left right : Heap α}
    (order : TotalPreorder first) (ordered : (node rank root left right).Ordered first) :
    ∀ a ∈ (node rank root left right).toList, first root a = true := by
  obtain ⟨before, beforeToo, _, _⟩ := ordered
  intro a member
  rcases List.mem_cons.1 member with rfl | below
  · exact order.refl a
  · rcases List.mem_append.1 below with below | below
    · exact before a below
    · exact beforeToo a below

theorem branch_ordered {root : α} {left right : Heap α}
    (before : ∀ a ∈ left.toList, first root a = true)
    (beforeToo : ∀ a ∈ right.toList, first root a = true)
    (ordered : left.Ordered first) (orderedToo : right.Ordered first) :
    (branch root left right).Ordered first := by
  unfold branch
  split
  · exact ⟨before, beforeToo, ordered, orderedToo⟩
  · exact ⟨beforeToo, before, orderedToo, ordered⟩

theorem first_merge {a : α} {g h : Heap α} (before : ∀ b ∈ g.toList, first a b = true)
    (beforeToo : ∀ b ∈ h.toList, first a b = true) :
    ∀ b ∈ (merge first g h).toList, first a b = true := by
  intro b member
  rcases List.mem_append.1 ((toList_merge first g h).mem_iff.1 member) with left | right
  · exact before b left
  · exact beforeToo b right

/-- The recursion goes down the right branches of both heaps, and so do the two inductions. -/
theorem merge_ordered (order : TotalPreorder first) {g h : Heap α} (left : g.Ordered first)
    (right : h.Ordered first) : (merge first g h).Ordered first := by
  induction g generalizing h with
  | leaf => exact right
  | node rank root below rest _ mergeRest =>
    have rootFirst := left.root_first order
    obtain ⟨before, beforeRest, orderedBelow, orderedRest⟩ := left
    induction h with
    | leaf => exact ⟨before, beforeRest, orderedBelow, orderedRest⟩
    | node otherRank other otherBelow otherRest _ mergeOther =>
      have otherFirst := right.root_first order
      unfold merge mergeWith
      split
      · rename_i sooner
        have beforeOther : ∀ a ∈ (node otherRank other otherBelow otherRest).toList,
            first root a = true := fun a member => order.trans sooner (otherFirst a member)
        exact branch_ordered before (first_merge beforeRest beforeOther) orderedBelow
          (mergeRest orderedRest right)
      · rename_i later
        have sooner : first other root = true :=
          (order.total root other).resolve_left later
        have beforeRoot : ∀ a ∈ (node rank root below rest).toList, first other a = true :=
          fun a member => order.trans sooner (rootFirst a member)
        obtain ⟨beforeBelow, beforeOther, orderedOther, orderedLast⟩ := right
        exact branch_ordered beforeBelow (first_merge beforeRoot beforeOther) orderedOther
          (mergeOther orderedLast)

theorem push_ordered (order : TotalPreorder first) {h : Heap α} (ordered : h.Ordered first)
    (a : α) : (h.push first a).Ordered first :=
  merge_ordered order ⟨List.forall_mem_nil _, List.forall_mem_nil _, trivial, trivial⟩ ordered

theorem pop?_ordered (order : TotalPreorder first) {h rest : Heap α} {a : α}
    (ordered : h.Ordered first) (popped : h.pop? first = some (a, rest)) :
    rest.Ordered first ∧ ∀ b ∈ h.toList, first a b = true := by
  cases h with
  | leaf => cases popped
  | node rank root left right =>
    have rootFirst := ordered.root_first order
    obtain ⟨_, _, orderedLeft, orderedRight⟩ := ordered
    cases popped
    exact ⟨merge_ordered order orderedLeft orderedRight, rootFirst⟩

theorem root?_eq_pop? (first : α → α → Bool) (h : Heap α) :
    h.root? = (h.pop? first).map (·.1) := by
  cases h <;> rfl

theorem pop?_eq_none_iff {h : Heap α} : h.pop? first = none ↔ h.size = 0 := by
  cases h with
  | leaf => exact iff_of_true rfl rfl
  | node rank root left right => exact iff_of_false (by simp [pop?]) (by simp [size])

theorem size_of_pop? {h rest : Heap α} {a : α} (popped : h.pop? first = some (a, rest)) :
    h.size = rest.size + 1 := by
  have length := (toList_of_pop? popped).length_eq
  rw [List.length_cons, length_toList, length_toList] at length
  exact length

theorem drain_perm (first : α → α → Bool) (h : Heap α) : (drain first h.size h).Perm h.toList := by
  generalize size : h.size = n
  induction n generalizing h with
  | zero =>
    have none : h.toList = [] := List.eq_nil_of_length_eq_zero (h.length_toList.trans size)
    rw [none]
    exact .refl _
  | succ n ih =>
    unfold drain
    cases popped : h.pop? first with
    | none =>
      have empty := pop?_eq_none_iff.1 popped
      omega
    | some pair =>
      obtain ⟨a, rest⟩ := pair
      have fewer := size_of_pop? popped
      exact ((ih rest (by omega)).cons a).trans (toList_of_pop? popped).symm

theorem mem_of_mem_drain {h : Heap α} {n : Nat} {a : α} (member : a ∈ drain first n h) :
    a ∈ h.toList := by
  induction n generalizing h with
  | zero => cases member
  | succ n ih =>
    unfold drain at member
    split at member
    · cases member
    · rename_i b rest popped
      apply (toList_of_pop? popped).mem_iff.2
      rcases List.mem_cons.1 member with rfl | later
      · exact List.mem_cons_self
      · exact List.mem_cons_of_mem _ (ih later)

theorem drain_pairwise (order : TotalPreorder first) {h : Heap α} (ordered : h.Ordered first)
    (n : Nat) : (drain first n h).Pairwise fun a b => first a b = true := by
  induction n generalizing h with
  | zero => exact .nil
  | succ n ih =>
    unfold drain
    split
    · exact .nil
    · rename_i a rest popped
      obtain ⟨orderedRest, before⟩ := pop?_ordered order ordered popped
      refine List.pairwise_cons.2 ⟨fun b later => before b ?_, ih orderedRest⟩
      exact (toList_of_pop? popped).mem_iff.2 (List.mem_cons_of_mem _ (mem_of_mem_drain later))

end Heap

end Authorization
