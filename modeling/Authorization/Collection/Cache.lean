import Authorization.Binary64

namespace Authorization

/-- A bounded store of recent entries, most recently used first. -/
structure Cache (κ ν : Type) where
  capacity : Nat
  entries : List (κ × ν)
  hits : UInt64
  misses : UInt64
  evictions : UInt64
  capacity_pos : 0 < capacity
  nodup : (entries.map (·.1)).Nodup
  length_le : entries.length ≤ capacity

structure CacheStats where
  hits : UInt64
  misses : UInt64
  evictions : UInt64
  entries : Nat
  capacity : Nat

namespace CacheStats

/-- The share of lookups that hit, zero before the first lookup. -/
def hitRate (s : CacheStats) : Binary64 :=
  if s.hits + s.misses = 0 then .zero
  else .ofFloat (s.hits.toFloat / (s.hits + s.misses).toFloat)

end CacheStats

namespace Cache

variable {κ ν : Type}

/-- A cache without entries. A capacity of zero acts as one. -/
def new (capacity : Nat) : Cache κ ν where
  capacity := max capacity 1
  entries := []
  hits := 0
  misses := 0
  evictions := 0
  capacity_pos := Nat.lt_of_lt_of_le Nat.zero_lt_one (Nat.le_max_right capacity 1)
  nodup := .nil
  length_le := Nat.zero_le _

def keys (c : Cache κ ν) : List κ := c.entries.map (·.1)

def size (c : Cache κ ν) : Nat := c.entries.length

def isEmpty (c : Cache κ ν) : Bool := c.entries.isEmpty

def stats (c : Cache κ ν) : CacheStats :=
  ⟨c.hits, c.misses, c.evictions, c.size, c.capacity⟩

def describe (c : Cache κ ν) : String :=
  "BoundedCache \x7b len: " ++ toString c.size ++ ", capacity: " ++ toString c.capacity ++ " \x7d"

/-- Drops every entry and keeps the counters. -/
def clear (c : Cache κ ν) : Cache κ ν :=
  { c with entries := [], nodup := .nil, length_le := Nat.zero_le _ }

variable [DecidableEq κ]

/-- The value held for a key, without touching its recency. -/
def peek? (c : Cache κ ν) (k : κ) : Option ν := (c.entries.find? fun e => e.1 = k).map (·.2)

def contains (c : Cache κ ν) (k : κ) : Bool := (c.peek? k).isSome

theorem contains_iff_mem_keys {c : Cache κ ν} {k : κ} : c.contains k = true ↔ k ∈ c.keys := by
  simp [contains, peek?, keys]

theorem peek?_eq_none_iff {c : Cache κ ν} {k : κ} : c.peek? k = none ↔ k ∉ c.keys := by
  simp [← contains_iff_mem_keys, contains]

theorem peek?_clear (c : Cache κ ν) (k : κ) : c.clear.peek? k = none := rfl

def without (k : κ) (es : List (κ × ν)) : List (κ × ν) := es.filter (·.1 ≠ k)

theorem keys_without_nodup {k : κ} {es : List (κ × ν)} (nodup : (es.map (·.1)).Nodup) :
    ((without k es).map (·.1)).Nodup :=
  nodup.sublist (List.filter_sublist.map _)

theorem not_mem_keys_without (k : κ) (es : List (κ × ν)) : k ∉ (without k es).map (·.1) := by
  intro member
  obtain ⟨e, kept, same⟩ := List.mem_map.1 member
  exact (of_decide_eq_true (List.mem_filter.1 kept).2) same

def remember (capacity : Nat) (k : κ) (v : ν) (es : List (κ × ν)) : List (κ × ν) :=
  ((k, v) :: without k es).take capacity

theorem remember_nodup (capacity : Nat) (k : κ) (v : ν) {es : List (κ × ν)}
    (nodup : (es.map (·.1)).Nodup) : ((remember capacity k v es).map (·.1)).Nodup :=
  (List.nodup_cons.2 ⟨not_mem_keys_without k es, keys_without_nodup nodup⟩).sublist
    ((List.take_sublist capacity _).map _)

theorem keys_remember (capacity : Nat) (k : κ) (v : ν) (es : List (κ × ν)) :
    (remember capacity k v es).map (·.1) =
      (k :: (es.map (·.1)).filter (· ≠ k)).take capacity := by
  simp [remember, without, List.map_take, List.filter_map, Function.comp_def]

theorem find?_without (k x : κ) (es : List (κ × ν)) :
    ((without k es).find? fun e => e.1 = x).map (·.2) =
      if x = k then none else (es.find? fun e => e.1 = x).map (·.2) := by
  induction es with
  | nil => simp [without]
  | cons e es ih =>
    unfold without at *
    by_cases gone : e.1 = k
    · by_cases same : x = k
      · simp [same]
      · simpa [gone, same, Ne.symm same] using ih
    · by_cases here : e.1 = x
      · simp [here, here ▸ gone]
      · simpa [gone, here] using ih

theorem find?_take (n : Nat) (x : κ) (es : List (κ × ν)) :
    ((es.take n).find? fun e => e.1 = x).map (·.2) =
      if x ∈ (es.take n).map (·.1) then (es.find? fun e => e.1 = x).map (·.2) else none := by
  have parts : es.find? (fun e => e.1 = x) =
      ((es.take n).find? fun e => e.1 = x).or ((es.drop n).find? fun e => e.1 = x) := by
    rw [← List.find?_append, List.take_append_drop]
  cases found : (es.take n).find? fun e => e.1 = x with
  | none =>
    have absent : x ∉ (es.take n).map (·.1) := by
      intro member
      obtain ⟨e, held, same⟩ := List.mem_map.1 member
      exact absurd same (by simpa using List.find?_eq_none.1 found e held)
    rw [if_neg absent]
    rfl
  | some e =>
    have held : x ∈ (es.take n).map (·.1) :=
      List.mem_map.2 ⟨e, List.mem_of_find?_eq_some found, by simpa using List.find?_some found⟩
    rw [if_pos held, parts, found]
    rfl

theorem find?_remember (capacity : Nat) (k x : κ) (v : ν) (es : List (κ × ν)) :
    ((remember capacity k v es).find? fun e => e.1 = x).map (·.2) =
      if x ∈ (remember capacity k v es).map (·.1) then
        (if x = k then some v else (es.find? fun e => e.1 = x).map (·.2))
      else none := by
  unfold remember
  rw [find?_take]
  congr 1
  by_cases same : x = k
  · simp [same]
  · rw [List.find?_cons_of_neg (by simpa using Ne.symm same), find?_without, if_neg same,
      if_neg same]

/-- Looks a key up; a key that is found becomes the most recently used one. -/
def get (c : Cache κ ν) (k : κ) : Option ν × Cache κ ν :=
  match c.peek? k with
  | none => (none, { c with misses := c.misses + 1 })
  | some v =>
    (some v,
      { c with
        entries := remember c.capacity k v c.entries
        hits := c.hits + 1
        nodup := remember_nodup c.capacity k v c.nodup
        length_le := List.length_take_le _ _ })

/-- Holds a value as the most recently used one. The answer is the entry that it takes the place of:
the earlier one of its key, or the least recently used one if there is no room for another key. -/
def push (c : Cache κ ν) (k : κ) (v : ν) : Option (κ × ν) × Cache κ ν :=
  (match c.peek? k with
    | some old => some (k, old)
    | none => if c.size = c.capacity then c.entries.getLast? else none,
    { c with
      entries := remember c.capacity k v c.entries
      nodup := remember_nodup c.capacity k v c.nodup
      length_le := List.length_take_le _ _ })

/-- Holds a value as the most recently used one. The answer says whether that displaced another
key. -/
def put (c : Cache κ ν) (k : κ) (v : ν) : Bool × Cache κ ν :=
  let existed := c.contains k
  let pushed := c.push k v
  let displaced := !existed && pushed.1.isSome
  (displaced,
    { pushed.2 with evictions := if displaced then c.evictions + 1 else c.evictions })

/-- Forgets a key. The answer says whether it was held. -/
def remove (c : Cache κ ν) (k : κ) : Bool × Cache κ ν :=
  (c.contains k,
    { c with
      entries := without k c.entries
      nodup := keys_without_nodup c.nodup
      length_le := Nat.le_trans (List.length_filter_le _ _) c.length_le })

theorem fst_get (c : Cache κ ν) (k : κ) : (c.get k).1 = c.peek? k := by
  unfold get
  split <;> simp [*]

theorem keys_get (c : Cache κ ν) (k : κ) :
    (c.get k).2.keys = if k ∈ c.keys then k :: c.keys.filter (· ≠ k) else c.keys := by
  unfold get
  split
  · rename_i missing
    rw [if_neg (peek?_eq_none_iff.1 missing)]
    rfl
  · rename_i found
    have present : k ∈ c.keys := by simp [← contains_iff_mem_keys, contains, found]
    have shorter : (c.keys.filter (· ≠ k)).length < c.keys.length :=
      List.length_filter_lt_length_iff_exists.2 ⟨k, present, by simp⟩
    have bound : c.keys.length ≤ c.capacity := by simpa [keys] using c.length_le
    rw [if_pos present]
    exact (keys_remember c.capacity k _ c.entries).trans
      (List.take_of_length_le (Nat.le_trans shorter bound))

theorem fst_put (c : Cache κ ν) (k : κ) (v : ν) :
    (c.put k v).1 = true ↔ k ∉ c.keys ∧ c.keys.length = c.capacity := by
  have held : c.contains k = true ↔ k ∈ c.keys := contains_iff_mem_keys
  have size : c.keys.length = c.size := List.length_map _
  simp only [put, push, Bool.and_eq_true, Bool.not_eq_true', ← Bool.not_eq_true, held, size]
  apply and_congr_right
  intro absent
  rw [peek?_eq_none_iff.2 absent]
  have room := c.capacity_pos
  by_cases full : c.size = c.capacity
  · have held : c.entries ≠ [] := List.ne_nil_of_length_pos (Nat.lt_of_lt_of_eq room full.symm)
    simp [full, held]
  · simp [full]

theorem keys_put (c : Cache κ ν) (k : κ) (v : ν) :
    (c.put k v).2.keys = (k :: c.keys.filter (· ≠ k)).take c.capacity :=
  keys_remember c.capacity k v c.entries

theorem keys_remove (c : Cache κ ν) (k : κ) :
    (c.remove k).2.keys = c.keys.filter (· ≠ k) := by
  simp [remove, keys, without, List.filter_map, Function.comp_def]

theorem peek?_remove (c : Cache κ ν) (k x : κ) :
    (c.remove k).2.peek? x = if x = k then none else c.peek? x :=
  find?_without k x c.entries

theorem peek?_put (c : Cache κ ν) (k x : κ) (v : ν) :
    (c.put k v).2.peek? x =
      if x ∈ (c.put k v).2.keys then (if x = k then some v else c.peek? x) else none :=
  find?_remember c.capacity k x v c.entries

theorem peek?_put_self (c : Cache κ ν) (k : κ) (v : ν) : (c.put k v).2.peek? k = some v := by
  have front : k ∈ (c.put k v).2.keys := by
    rw [keys_put, ← Nat.sub_add_cancel c.capacity_pos, List.take_succ_cons]
    exact List.mem_cons_self
  rw [peek?_put, if_pos front, if_pos rfl]

theorem snd_get_of_absent {c : Cache κ ν} {k : κ} (absent : c.peek? k = none) :
    (c.get k).2 = { c with misses := c.misses + 1 } := by
  unfold get
  split
  · rfl
  · rename_i found
    rw [absent] at found
    cases found

theorem peek?_get (c : Cache κ ν) (k x : κ) : (c.get k).2.peek? x = c.peek? x := by
  have keys := keys_get c k
  unfold get at keys ⊢
  split at keys
  · rfl
  · rename_i v found
    have present : k ∈ c.keys := Decidable.not_not.1 fun absent => by
      rw [peek?_eq_none_iff.2 absent] at found
      cases found
    have member : x ∈ (remember c.capacity k v c.entries).map (·.1) ↔ x ∈ c.keys := by
      refine (iff_of_eq (congrArg (x ∈ ·) keys)).trans ?_
      by_cases same : x = k <;> simp [same, present]
    refine (find?_remember c.capacity k x v c.entries).trans ?_
    by_cases held : x ∈ c.keys
    · rw [if_pos (member.2 held)]
      split
      · rename_i same
        rw [same, found]
      · rfl
    · rw [if_neg fun inside => held (member.1 inside), peek?_eq_none_iff.2 held]

end Cache

end Authorization
