import Authorization.Collection.OrderedSet

namespace Authorization

/-- A finite map, listed in ascending order of its keys. -/
structure Table (κ ν : Type) [LT κ] where
  entries : List (κ × ν)
  sorted : entries.Pairwise fun a b => a.1 < b.1

namespace Table

variable {κ ν : Type} [LT κ]

@[ext] theorem ext {s t : Table κ ν} (same : s.entries = t.entries) : s = t := by
  cases s
  cases t
  cases same
  rfl

def empty : Table κ ν := ⟨[], .nil⟩

def keys (t : Table κ ν) : List κ := t.entries.map (·.1)

def size (t : Table κ ν) : Nat := t.entries.length

section Lookup

variable [DecidableEq κ]

def find? (t : Table κ ν) (k : κ) : Option ν := (t.entries.find? fun e => e.1 = k).map (·.2)

def contains (t : Table κ ν) (k : κ) : Bool := (t.find? k).isSome

/-- Changes the value of a key that is present and leaves the table as it is otherwise. -/
def modify (t : Table κ ν) (k : κ) (f : ν → ν) : Table κ ν :=
  ⟨t.entries.map fun e => (e.1, if e.1 = k then f e.2 else e.2), List.pairwise_map.2 t.sorted⟩

theorem find?_empty (k : κ) : (empty : Table κ ν).find? k = none := rfl

theorem contains_iff {t : Table κ ν} {k : κ} : t.contains k = true ↔ ∃ v, t.find? k = some v :=
  Option.isSome_iff_exists

theorem contains_iff_mem_keys {t : Table κ ν} {k : κ} : t.contains k = true ↔ k ∈ t.keys := by
  simp [contains, find?, keys]

theorem keys_modify (t : Table κ ν) (k : κ) (f : ν → ν) : (t.modify k f).keys = t.keys := by
  simp [keys, modify]

theorem find?_modify (t : Table κ ν) (k x : κ) (f : ν → ν) :
    (t.modify k f).find? x = if x = k then (t.find? x).map f else t.find? x := by
  have matching : ((fun e : κ × ν => decide (e.1 = x)) ∘
      fun e : κ × ν => (e.1, if e.1 = k then f e.2 else e.2)) = fun e => decide (e.1 = x) := rfl
  simp only [find?, modify, List.find?_map, matching]
  cases found : t.entries.find? fun e => e.1 = x with
  | none => simp
  | some e =>
    have key : e.1 = x := by simpa using List.find?_some found
    simp only [Option.map_some, key]
    split <;> rfl

theorem contains_modify (t : Table κ ν) (k x : κ) (f : ν → ν) :
    (t.modify k f).contains x = t.contains x := by
  rw [contains, contains, find?_modify]
  split <;> simp

theorem mem_of_find? {t : Table κ ν} {k : κ} {v : ν} (found : t.find? k = some v) :
    (k, v) ∈ t.entries := by
  obtain ⟨e, there, rfl⟩ := Option.map_eq_some_iff.1 found
  have key : e.1 = k := by simpa using List.find?_some there
  exact key ▸ List.mem_of_find?_eq_some there

theorem find?_of_mem [LE κ] [Std.LawfulOrderLT κ] {t : Table κ ν} {k : κ} {v : ν}
    (member : (k, v) ∈ t.entries) : t.find? k = some v := by
  obtain ⟨entries, sorted⟩ := t
  dsimp only at member
  simp only [find?]
  induction entries with
  | nil => cases member
  | cons e es ih =>
    obtain ⟨below, later⟩ := List.pairwise_cons.1 sorted
    rcases List.mem_cons.1 member with rfl | member
    · simp
    · have below : e.1 < k := below (k, v) member
      have other : e.1 ≠ k := fun same => Std.lt_irrefl (a := k) (same ▸ below)
      rw [List.find?_cons_of_neg (by simpa using other)]
      exact ih later member

/-- A table is determined by what it holds of each key. -/
theorem ext_find? [LE κ] [Std.LawfulOrderLT κ] [Std.IsLinearOrder κ] {s t : Table κ ν}
    (same : ∀ k, s.find? k = t.find? k) : s = t := by
  have distinct (t : Table κ ν) : t.entries.Nodup := by
    refine t.sorted.imp ?_
    rintro a b below rfl
    exact Std.lt_irrefl below
  have member (e : κ × ν) : e ∈ s.entries ↔ e ∈ t.entries := by
    constructor
    · intro there
      exact mem_of_find? ((same e.1).symm.trans (find?_of_mem there))
    · intro there
      exact mem_of_find? ((same e.1).trans (find?_of_mem there))
  have perm := (List.perm_ext_iff_of_nodup (distinct s) (distinct t)).2 member
  refine ext (perm.eq_of_pairwise (fun a b _ _ below above => ?_) s.sorted t.sorted)
  exact absurd (Std.lt_trans below above) Std.lt_irrefl

section Modify

variable [LE κ] [Std.LawfulOrderLT κ] [Std.IsLinearOrder κ] (t : Table κ ν)

theorem modify_id (k : κ) : t.modify k id = t := by
  apply ext_find?
  intro x
  simp [find?_modify]

theorem modify_comm {j k : κ} {f g : ν → ν} (commutes : j = k → ∀ v, g (f v) = f (g v)) :
    (t.modify j f).modify k g = (t.modify k g).modify j f := by
  apply ext_find?
  intro x
  simp only [find?_modify]
  by_cases first : x = j
  · by_cases second : x = k
    · have swapped : g ∘ f = f ∘ g := funext (commutes (first.symm.trans second))
      simp only [if_pos first, if_pos second, Option.map_map, swapped]
    · simp only [if_pos first, if_neg second]
  · simp only [if_neg first]

end Modify

end Lookup

variable [DecidableLT κ] [LE κ] [Std.LawfulOrderLT κ] [Std.IsLinearOrder κ]

def insertSorted (k : κ) (v : ν) : List (κ × ν) → List (κ × ν)
  | [] => [(k, v)]
  | e :: es =>
    if k < e.1 then (k, v) :: e :: es
    else if e.1 < k then e :: insertSorted k v es
    else (k, v) :: es

theorem keys_insertSorted (k : κ) (v : ν) (es : List (κ × ν)) :
    (insertSorted k v es).map (·.1) = OrderedSet.insertSorted k (es.map (·.1)) := by
  induction es with
  | nil => rfl
  | cons e es ih =>
    simp only [insertSorted, List.map_cons, OrderedSet.insertSorted]
    split
    · rfl
    · split
      · rw [List.map_cons, ih]
      · rename_i notBelow notAbove
        have same : k = e.1 := Std.le_antisymm (Std.not_lt.1 notAbove) (Std.not_lt.1 notBelow)
        rw [List.map_cons, same]

/-- Adds a key with its value, or replaces the value of a key that is present. -/
def insert (t : Table κ ν) (k : κ) (v : ν) : Table κ ν where
  entries := insertSorted k v t.entries
  sorted := by
    have sorted := OrderedSet.insertSorted_pairwise k (List.pairwise_map.2 t.sorted)
    rw [← keys_insertSorted k v] at sorted
    exact List.pairwise_map.1 sorted

theorem mem_keys_insert {t : Table κ ν} {k x : κ} {v : ν} :
    x ∈ (t.insert k v).keys ↔ x = k ∨ x ∈ t.keys := by
  unfold keys insert
  rw [keys_insertSorted]
  exact OrderedSet.mem_insertSorted

theorem length_insertSorted {k : κ} {es : List (κ × ν)} (absent : k ∉ es.map (·.1)) (v : ν) :
    (insertSorted k v es).length = es.length + 1 := by
  induction es with
  | nil => rfl
  | cons e es ih =>
    rw [List.map_cons, List.mem_cons, not_or] at absent
    unfold insertSorted
    split
    · rfl
    · split
      · rw [List.length_cons, ih absent.2, List.length_cons]
      · rename_i notBelow notAbove
        exact absurd (Std.le_antisymm (Std.not_lt.1 notAbove) (Std.not_lt.1 notBelow)) absent.1

theorem size_insert {t : Table κ ν} {k : κ} (absent : k ∉ t.keys) (v : ν) :
    (t.insert k v).size = t.size + 1 :=
  length_insertSorted absent v

theorem find?_insert [DecidableEq κ] (t : Table κ ν) (k x : κ) (v : ν) :
    (t.insert k v).find? x = if x = k then some v else t.find? x := by
  unfold find? insert
  dsimp only
  induction t.entries with
  | nil => by_cases same : x = k <;> simp [insertSorted, same, eq_comm]
  | cons e es ih =>
    unfold insertSorted
    split
    · by_cases same : x = k
      · simp [same]
      · simp [same, Ne.symm same]
    · split
      · rename_i after
        by_cases here : e.1 = x
        · have other : x ≠ k := fun same => Std.lt_irrefl (a := k) (by rwa [here, same] at after)
          simp [here, other]
        · simpa [here] using ih
      · rename_i notBelow notAbove
        have key : e.1 = k := Std.le_antisymm (Std.not_lt.1 notBelow) (Std.not_lt.1 notAbove)
        by_cases same : x = k
        · simp [same]
        · simp [same, key, Ne.symm same]

end Table

end Authorization
