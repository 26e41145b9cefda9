namespace Authorization

/-- A finite set, listed in ascending order. -/
structure OrderedSet (α : Type) [LT α] where
  toList : List α
  sorted : toList.Pairwise (· < ·)

namespace OrderedSet

variable {α : Type} [LT α]

@[ext] theorem ext {s t : OrderedSet α} (same : s.toList = t.toList) : s = t := by
  cases s
  cases t
  cases same
  rfl

instance [DecidableEq α] : DecidableEq (OrderedSet α) := fun s t =>
  decidable_of_iff (s.toList = t.toList) ⟨ext, congrArg toList⟩

instance : Membership α (OrderedSet α) := ⟨fun s a => a ∈ s.toList⟩

theorem mem_toList {s : OrderedSet α} {a : α} : a ∈ s.toList ↔ a ∈ s := Iff.rfl

def empty : OrderedSet α := ⟨[], .nil⟩

theorem not_mem_empty (a : α) : a ∉ (empty : OrderedSet α) := List.not_mem_nil

def contains [DecidableEq α] (s : OrderedSet α) (a : α) : Bool := decide (a ∈ s.toList)

theorem contains_iff [DecidableEq α] {s : OrderedSet α} {a : α} : s.contains a = true ↔ a ∈ s :=
  decide_eq_true_iff

def erase [DecidableEq α] (s : OrderedSet α) (a : α) : OrderedSet α :=
  ⟨s.toList.filter (· ≠ a), s.sorted.filter _⟩

theorem mem_erase [DecidableEq α] {s : OrderedSet α} {a x : α} :
    x ∈ s.erase a ↔ x ∈ s ∧ x ≠ a :=
  List.mem_filter.trans (and_congr_right fun _ => decide_eq_true_iff)

variable [LE α] [Std.LawfulOrderLT α]

theorem nodup (s : OrderedSet α) : s.toList.Nodup :=
  s.sorted.imp fun {a b} (below : a < b) (same : a = b) => Std.lt_irrefl (a := b) (same ▸ below)

variable [Std.IsLinearOrder α]

/-- A set is determined by its members. -/
theorem ext_mem {s t : OrderedSet α} (same : ∀ x, x ∈ s ↔ x ∈ t) : s = t :=
  ext (((List.perm_ext_iff_of_nodup s.nodup t.nodup).2 same).eq_of_pairwise
    (fun _ _ _ _ below above => absurd (Std.lt_trans below above) Std.lt_irrefl) s.sorted t.sorted)

theorem erase_comm [DecidableEq α] (s : OrderedSet α) (a b : α) :
    (s.erase a).erase b = (s.erase b).erase a :=
  ext_mem fun x => by simp only [mem_erase, and_right_comm]

variable [DecidableLT α]

def insertSorted (a : α) : List α → List α
  | [] => [a]
  | b :: bs => if a < b then a :: b :: bs else if b < a then b :: insertSorted a bs else b :: bs

theorem mem_insertSorted {a x : α} {xs : List α} : x ∈ insertSorted a xs ↔ x = a ∨ x ∈ xs := by
  induction xs with
  | nil => exact List.mem_singleton.trans (or_iff_left List.not_mem_nil).symm
  | cons b bs ih =>
    unfold insertSorted
    split
    · exact List.mem_cons
    · split
      · rw [List.mem_cons, ih, List.mem_cons]
        exact or_left_comm
      · rename_i notBelow notAbove
        have same : b = a := Std.le_antisymm (Std.not_lt.1 notBelow) (Std.not_lt.1 notAbove)
        subst same
        exact ⟨.inr, fun member => member.elim (fun equal => equal ▸ List.mem_cons_self) id⟩

theorem insertSorted_pairwise (a : α) {xs : List α} (sorted : xs.Pairwise (· < ·)) :
    (insertSorted a xs).Pairwise (· < ·) := by
  induction xs with
  | nil => exact List.pairwise_singleton _ a
  | cons b bs ih =>
    have later := List.pairwise_cons.1 sorted
    unfold insertSorted
    split
    · rename_i before
      refine List.pairwise_cons.2 ⟨fun x member => ?_, sorted⟩
      rcases List.mem_cons.1 member with same | rest
      · exact same ▸ before
      · exact Std.lt_trans before (later.1 x rest)
    · split
      · rename_i after
        refine List.pairwise_cons.2 ⟨fun x member => ?_, ih later.2⟩
        rcases mem_insertSorted.1 member with same | rest
        · exact same ▸ after
        · exact later.1 x rest
      · exact sorted

def insert (s : OrderedSet α) (a : α) : OrderedSet α :=
  ⟨insertSorted a s.toList, insertSorted_pairwise a s.sorted⟩

theorem mem_insert {s : OrderedSet α} {a x : α} : x ∈ s.insert a ↔ x = a ∨ x ∈ s :=
  mem_insertSorted

theorem insert_comm (s : OrderedSet α) (a b : α) : (s.insert a).insert b = (s.insert b).insert a :=
  ext_mem fun x => by simp only [mem_insert, or_left_comm]

theorem insert_erase_comm [DecidableEq α] (s : OrderedSet α) {a b : α} (other : a ≠ b) :
    (s.insert a).erase b = (s.erase b).insert a := by
  apply ext_mem
  intro x
  simp only [mem_erase, mem_insert, or_and_right]
  refine or_congr_left (and_iff_left_of_imp ?_)
  rintro rfl
  exact other

def union (s t : OrderedSet α) : OrderedSet α := t.toList.foldl insert s

def ofList (xs : List α) : OrderedSet α := xs.foldl insert empty

theorem mem_foldl_insert {xs : List α} {s : OrderedSet α} {x : α} :
    x ∈ xs.foldl insert s ↔ x ∈ s ∨ x ∈ xs := by
  induction xs generalizing s with
  | nil => exact (or_iff_left List.not_mem_nil).symm
  | cons a xs ih =>
    rw [List.foldl_cons, ih, mem_insert, List.mem_cons]
    exact ⟨fun member => by rcases member with (same | held) | later <;> simp [*],
      fun member => by rcases member with held | same | later <;> simp [*]⟩

theorem mem_union {s t : OrderedSet α} {x : α} : x ∈ s.union t ↔ x ∈ s ∨ x ∈ t :=
  mem_foldl_insert

theorem mem_ofList {xs : List α} {x : α} : x ∈ ofList xs ↔ x ∈ xs :=
  mem_foldl_insert.trans (or_iff_right (not_mem_empty x))

theorem ofList_toList (s : OrderedSet α) : ofList s.toList = s := ext_mem fun _ => mem_ofList

end OrderedSet

end Authorization
