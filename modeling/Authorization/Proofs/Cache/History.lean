import Authorization.Collection.Cache
import Mathlib.Data.List.Induction

namespace Authorization

namespace Cache

/-- What is asked of a cache. -/
inductive Op (κ ν : Type) where
  | get (k : κ)
  | put (k : κ) (v : ν)
  | remove (k : κ)
  | clear
  | contains (k : κ)
  | size
  | isEmpty
  | capacity
  | keys
  | stats
  | describe

variable {κ ν : Type}

namespace Op

abbrev Answer : Op κ ν → Type
  | get _ => Option ν
  | put _ _ | remove _ | contains _ | isEmpty => Bool
  | clear => Unit
  | size | capacity => Nat
  | keys => List κ
  | stats => CacheStats
  | describe => String

def Forgets : Op κ ν → Prop
  | remove _ | clear => True
  | _ => False

/-- An operation that only looks. -/
def Reads : Op κ ν → Prop
  | get _ | put _ _ | remove _ | clear => False
  | _ => True

end Op

theorem size_eq_length_keys (c : Cache κ ν) : c.size = c.keys.length := (List.length_map _).symm

theorem isEmpty_iff_keys_eq_nil {c : Cache κ ν} : c.isEmpty = true ↔ c.keys = [] :=
  List.isEmpty_iff.trans List.map_eq_nil_iff.symm

theorem length_keys_le (c : Cache κ ν) : c.keys.length ≤ c.capacity := by
  rw [← size_eq_length_keys]
  exact c.length_le

variable [DecidableEq κ]

def apply (c : Cache κ ν) : (op : Op κ ν) → op.Answer × Cache κ ν
  | .get k => c.get k
  | .put k v => c.put k v
  | .remove k => c.remove k
  | .clear => ((), c.clear)
  | .contains k => (c.contains k, c)
  | .size => (c.size, c)
  | .isEmpty => (c.isEmpty, c)
  | .capacity => (c.capacity, c)
  | .keys => (c.keys, c)
  | .stats => (c.stats, c)
  | .describe => (c.describe, c)

def run (c : Cache κ ν) (ops : List (Op κ ν)) : Cache κ ν :=
  ops.foldl (fun c op => (c.apply op).2) c

theorem run_snoc (c : Cache κ ν) (ops : List (Op κ ν)) (op : Op κ ν) :
    c.run (ops ++ [op]) = ((c.run ops).apply op).2 := List.foldl_append

theorem apply_reads (c : Cache κ ν) {op : Op κ ν} (reads : op.Reads) : (c.apply op).2 = c := by
  cases op with
  | get _ => exact reads.elim
  | put _ _ => exact reads.elim
  | remove _ => exact reads.elim
  | clear => exact reads.elim
  | _ => rfl

theorem capacity_apply (c : Cache κ ν) (op : Op κ ν) : (c.apply op).2.capacity = c.capacity := by
  cases op with
  | get k =>
    simp only [apply, get]
    split <;> rfl
  | _ => rfl

theorem capacity_run (c : Cache κ ν) (ops : List (Op κ ν)) : (c.run ops).capacity = c.capacity := by
  induction ops using List.reverseRecOn with
  | nil => rfl
  | append_singleton ops op ih => rw [run_snoc, capacity_apply, ih]

/-- A put touches its key, and so does a get that hits. -/
def Op.Touches (op : Op κ ν) (c : Cache κ ν) (k : κ) : Prop :=
  (∃ v, op = .put k v) ∨ (op = .get k ∧ ∃ v, (c.get k).1 = some v)

theorem hit_iff {c : Cache κ ν} {k : κ} : (∃ v, (c.get k).1 = some v) ↔ k ∈ c.keys := by
  rw [fst_get, ← Option.isSome_iff_exists]
  exact contains_iff_mem_keys

theorem touches_put {c : Cache κ ν} {k x : κ} {v : ν} : (Op.put k v).Touches c x ↔ x = k := by
  simp [Op.Touches, eq_comm]

theorem touches_get {c : Cache κ ν} {k x : κ} :
    (Op.get k : Op κ ν).Touches c x ↔ x = k ∧ k ∈ c.keys := by
  unfold Op.Touches
  rw [hit_iff]
  constructor
  · rintro (⟨v, same⟩ | ⟨same, held⟩)
    · cases same
    · cases same
      exact ⟨rfl, held⟩
  · rintro ⟨rfl, held⟩
    exact .inr ⟨rfl, held⟩

theorem not_touches_of_forgets {c : Cache κ ν} {op : Op κ ν} (forgets : op.Forgets) (k : κ) :
    ¬ op.Touches c k := by
  rintro (⟨v, rfl⟩ | ⟨rfl, _⟩) <;> exact forgets

theorem not_touches_of_reads {c : Cache κ ν} {op : Op κ ν} (reads : op.Reads) (k : κ) :
    ¬ op.Touches c k := by
  rintro (⟨v, rfl⟩ | ⟨rfl, _⟩) <;> exact reads

theorem keys_put_of_room (c : Cache κ ν) (k : κ) (v : ν)
    (room : k ∈ c.keys ∨ c.keys.length ≠ c.capacity) :
    (c.put k v).2.keys = k :: c.keys.filter (· ≠ k) := by
  have bound := c.length_keys_le
  have fits : (k :: c.keys.filter (· ≠ k)).length ≤ c.capacity := by
    rw [List.length_cons]
    rcases room with held | roomy
    · have shorter : (c.keys.filter (· ≠ k)).length < c.keys.length :=
        List.length_filter_lt_length_iff_exists.2 ⟨k, held, by simp⟩
      omega
    · have shorter := List.length_filter_le (fun x => decide (x ≠ k)) c.keys
      omega
  rw [keys_put, List.take_of_length_le fits]

theorem keys_put_of_full (c : Cache κ ν) (k : κ) (v : ν) (absent : k ∉ c.keys)
    (full : c.keys.length = c.capacity) :
    ∃ others oldest, c.keys = others ++ [oldest] ∧ (c.put k v).2.keys = k :: others := by
  have room := c.capacity_pos
  have some : c.keys ≠ [] := List.ne_nil_of_length_pos (by omega)
  have split := List.dropLast_concat_getLast some
  have all : c.keys.filter (· ≠ k) = c.keys := by
    rw [List.filter_eq_self]
    intro x held
    exact decide_eq_true fun same => absent (same ▸ held)
  refine ⟨c.keys.dropLast, c.keys.getLast some, split.symm, ?_⟩
  rw [keys_put, all, ← full, List.dropLast_eq_take]
  obtain ⟨rest, length⟩ : ∃ rest, c.keys.length = rest + 1 := ⟨c.keys.length - 1, by omega⟩
  rw [length, List.take_succ_cons, Nat.add_sub_cancel]

/-- What an operation does to the keys: those it does not touch stay in their order, though some may
be dropped, and a key that it touches comes to the front. -/
inductive Stepped (c : Cache κ ν) (op : Op κ ν) (after : List κ) : Prop where
  | touched (k : κ) (rest : List κ) (touches : ∀ x, op.Touches c x ↔ x = k)
    (front : after = k :: rest) (kept : rest.Sublist c.keys) : Stepped c op after
  | untouched (quiet : ∀ x, ¬ op.Touches c x) (kept : after.Sublist c.keys) : Stepped c op after

theorem stepped (c : Cache κ ν) (op : Op κ ν) : Stepped c op (c.apply op).2.keys := by
  cases op with
  | get k =>
    have keys := c.keys_get k
    by_cases held : k ∈ c.keys
    · rw [if_pos held] at keys
      exact .touched k _ (fun x => touches_get.trans (and_iff_left held)) keys List.filter_sublist
    · rw [if_neg held] at keys
      exact .untouched (fun x touches => held (touches_get.1 touches).2) (keys ▸ .refl _)
  | put k v =>
    have keys := c.keys_put k v
    obtain ⟨rest, capacity⟩ : ∃ rest, c.capacity = rest + 1 :=
      ⟨c.capacity - 1, (Nat.sub_add_cancel c.capacity_pos).symm⟩
    rw [capacity, List.take_succ_cons] at keys
    exact .touched k _ (fun x => touches_put) keys
      ((List.take_sublist _ _).trans List.filter_sublist)
  | remove k =>
    have kept : (c.remove k).2.keys.Sublist c.keys := c.keys_remove k ▸ List.filter_sublist
    exact .untouched (not_touches_of_forgets trivial) kept
  | clear => exact .untouched (not_touches_of_forgets trivial) (List.nil_sublist _)
  | _ => exact .untouched (not_touches_of_reads trivial) (List.Sublist.refl _)

/-- A key is lost on demand, or because it is the last one and another key takes its place. -/
theorem lost_cases {c : Cache κ ν} {op : Op κ ν} {k : κ} (held : k ∈ c.keys)
    (lost : k ∉ (c.apply op).2.keys) :
    op = .remove k ∨ op = .clear ∨ ∃ x others, op.Touches c x ∧ c.keys = others ++ [k] ∧
      c.keys.length = c.capacity ∧ (c.apply op).2.keys = x :: others := by
  have filtered {y : κ} (missing : k ∉ c.keys.filter (· ≠ y)) : k = y := by
    simpa [held] using missing
  cases op with
  | get y =>
    have keys := c.keys_get y
    simp only [apply] at lost
    split at keys
    · rw [keys] at lost
      exact absurd (filtered fun rest => lost (List.mem_cons_of_mem _ rest))
        fun same => lost (same ▸ List.mem_cons_self)
    · exact absurd held (keys ▸ lost)
  | put y v =>
    simp only [apply] at lost ⊢
    by_cases room : y ∈ c.keys ∨ c.keys.length ≠ c.capacity
    · rw [keys_put_of_room c y v room] at lost
      exact absurd (filtered fun rest => lost (List.mem_cons_of_mem _ rest))
        fun same => lost (same ▸ List.mem_cons_self)
    · obtain ⟨absent, full⟩ := not_or.1 room
      obtain ⟨others, oldest, parts, keys⟩ := c.keys_put_of_full y v absent (not_not.1 full)
      have last : k = oldest := by
        rw [parts] at held
        rcases List.mem_append.1 held with early | last
        · exact absurd (List.mem_cons_of_mem _ early) (keys ▸ lost)
        · exact List.mem_singleton.1 last
      subst last
      exact .inr (.inr ⟨y, others, touches_put.2 rfl, parts, not_not.1 full, keys⟩)
  | remove y =>
    simp only [apply] at lost
    rw [keys_remove] at lost
    exact .inl (filtered lost ▸ rfl)
  | clear => exact .inr (.inl rfl)
  | _ => exact absurd held lost

end Cache

end Authorization
