import Authorization.Proofs.Cache.Recency
import Mathlib.Algebra.GroupWithZero.Nat

namespace Authorization

namespace Cache

/-- An operation and the cache that it meets. -/
structure Step (κ ν : Type) where
  before : Cache κ ν
  op : Op κ ν

variable {κ ν : Type} [DecidableEq κ]

namespace Step

def hits : Step κ ν → Bool
  | ⟨c, .get k⟩ => (c.get k).1.isSome
  | _ => false

def misses : Step κ ν → Bool
  | ⟨c, .get k⟩ => (c.get k).1.isNone
  | _ => false

def displaces : Step κ ν → Bool
  | ⟨c, .put k v⟩ => (c.put k v).1
  | _ => false

/-- A put of a key that is absent. -/
def enters : Step κ ν → Bool
  | ⟨c, .put k _⟩ => !c.contains k
  | _ => false

def removes : Step κ ν → Bool
  | ⟨c, .remove k⟩ => (c.remove k).1
  | _ => false

/-- How many entries a clear drops. -/
def cleared : Step κ ν → Nat
  | ⟨c, .clear⟩ => c.size
  | _ => 0

end Step

/-- Some operations, each with the cache that it meets. -/
def history (c : Cache κ ν) : List (Op κ ν) → List (Step κ ν)
  | [] => []
  | op :: ops => ⟨c, op⟩ :: (c.apply op).2.history ops

theorem length_history (c : Cache κ ν) (ops : List (Op κ ν)) :
    (c.history ops).length = ops.length := by
  induction ops generalizing c with
  | nil => rfl
  | cons op ops ih => exact congrArg (· + 1) (ih (c.apply op).2)

section Counters

variable (c : Cache κ ν) (op : Op κ ν)

theorem counters_get (k : κ) :
    (c.get k).2.hits = c.hits + (if (c.get k).1.isSome then 1 else 0) ∧
      (c.get k).2.misses = c.misses + (if (c.get k).1.isNone then 1 else 0) ∧
      (c.get k).2.evictions = c.evictions := by
  rw [fst_get]
  unfold get
  split <;> simp [*]

theorem hits_apply : (c.apply op).2.hits = c.hits + if Step.hits ⟨c, op⟩ then 1 else 0 := by
  cases op with
  | get k => exact (c.counters_get k).1
  | _ => exact (UInt64.add_zero _).symm

theorem misses_apply : (c.apply op).2.misses = c.misses + if Step.misses ⟨c, op⟩ then 1 else 0 := by
  cases op with
  | get k => exact (c.counters_get k).2.1
  | _ => exact (UInt64.add_zero _).symm

theorem evictions_apply :
    (c.apply op).2.evictions = c.evictions + if Step.displaces ⟨c, op⟩ then 1 else 0 := by
  cases op with
  | get k => exact (c.counters_get k).2.2.trans (UInt64.add_zero _).symm
  | put k v =>
    have counted : (c.put k v).2.evictions =
        if (c.put k v).1 then c.evictions + 1 else c.evictions := rfl
    refine counted.trans ?_
    by_cases displaced : (c.put k v).1 = true
    · rw [if_pos displaced, Step.displaces, if_pos displaced]
    · rw [if_neg displaced, Step.displaces, if_neg displaced, UInt64.add_zero]
  | _ => exact (UInt64.add_zero _).symm

/-- What is counted step by step is counted over a whole run, modulo 2^64. -/
theorem counter_run {counter : Cache κ ν → UInt64} {counted : Step κ ν → Bool}
    (counts : ∀ c op, counter (c.apply op).2 = counter c + if counted ⟨c, op⟩ then 1 else 0)
    (ops : List (Op κ ν)) :
    counter (c.run ops) = counter c + .ofNat ((c.history ops).countP counted) := by
  induction ops generalizing c with
  | nil => exact (UInt64.add_zero _).symm
  | cons op ops ih =>
    rw [run, List.foldl_cons, ← run, ih, counts, history, List.countP_cons, UInt64.ofNat_add,
      UInt64.add_assoc, UInt64.add_comm (.ofNat _)]
    split <;> rfl

theorem toNat_counter_run {counter : Cache κ ν → UInt64} {counted : Step κ ν → Bool}
    (counts : ∀ c op, counter (c.apply op).2 = counter c + if counted ⟨c, op⟩ then 1 else 0)
    (zero : counter c = 0) {ops : List (Op κ ν)} (few : ops.length < 2 ^ 64) :
    (counter (c.run ops)).toNat = (c.history ops).countP counted := by
  have bound : (c.history ops).countP counted < 2 ^ 64 :=
    Nat.lt_of_le_of_lt List.countP_le_length (c.length_history ops ▸ few)
  rw [c.counter_run counts, zero, UInt64.zero_add, UInt64.toNat_ofNat', Nat.mod_eq_of_lt bound]

end Counters

section Size

variable (c : Cache κ ν) (k : κ)

theorem length_filter_ne (held : k ∈ c.keys) :
    (c.keys.filter (· ≠ k)).length + 1 = c.keys.length := by
  have rest : c.keys.erase k = c.keys.filter (· ≠ k) :=
    (List.Nodup.erase_eq_filter c.nodup k).trans (List.filter_congr fun x _ => by
      by_cases same : x = k <;> simp [same])
  rw [← rest, List.length_erase_add_one held]

theorem filter_ne_of_absent (absent : k ∉ c.keys) : c.keys.filter (· ≠ k) = c.keys :=
  List.filter_eq_self.2 fun _ held => decide_eq_true fun same => absent (same ▸ held)

theorem size_get : (c.get k).2.size = c.size := by
  rw [size_eq_length_keys, size_eq_length_keys, keys_get]
  split
  · rename_i held
    exact c.length_filter_ne k held
  · rfl

theorem size_remove : (c.remove k).2.size + (if (c.remove k).1 then 1 else 0) = c.size := by
  have removed : (c.remove k).1 = true ↔ k ∈ c.keys := contains_iff_mem_keys
  rw [size_eq_length_keys, size_eq_length_keys, keys_remove]
  by_cases held : k ∈ c.keys
  · rw [if_pos (removed.2 held), c.length_filter_ne k held]
  · rw [if_neg (held ∘ removed.1), c.filter_ne_of_absent k held, Nat.add_zero]

theorem size_put (v : ν) : (c.put k v).2.size + (if (c.put k v).1 then 1 else 0) =
    c.size + if !c.contains k then 1 else 0 := by
  have displaces := c.fst_put k v
  have present : c.contains k = true ↔ k ∈ c.keys := contains_iff_mem_keys
  rw [size_eq_length_keys, size_eq_length_keys]
  by_cases held : k ∈ c.keys
  · have kept : ¬ (c.put k v).1 = true := fun displaced => (displaces.1 displaced).1 held
    rw [if_neg kept, present.2 held, c.keys_put_of_room k v (.inl held), List.length_cons,
      c.length_filter_ne k held]
    rfl
  · rw [Bool.eq_false_iff.2 (held ∘ present.1)]
    by_cases full : c.keys.length = c.capacity
    · obtain ⟨others, oldest, parts, keys⟩ := c.keys_put_of_full k v held full
      rw [if_pos (displaces.2 ⟨held, full⟩), keys, parts, List.length_cons, List.length_append]
      rfl
    · have kept : ¬ (c.put k v).1 = true := fun displaced => full (displaces.1 displaced).2
      rw [if_neg kept, c.keys_put_of_room k v (.inr full), c.filter_ne_of_absent k held]
      rfl

/-- Entries come in by puts of absent keys, and go by evictions, removals and clears. -/
theorem size_apply (op : Op κ ν) :
    (c.apply op).2.size + (if Step.displaces ⟨c, op⟩ then 1 else 0) +
        (if Step.removes ⟨c, op⟩ then 1 else 0) + Step.cleared ⟨c, op⟩ =
      c.size + if Step.enters ⟨c, op⟩ then 1 else 0 := by
  cases op with
  | get k => exact c.size_get k
  | put k v => exact c.size_put k v
  | remove k => exact c.size_remove k
  | clear => exact Nat.zero_add _
  | _ => rfl

theorem size_run (ops : List (Op κ ν)) :
    (c.run ops).size + (c.history ops).countP Step.displaces +
        (c.history ops).countP Step.removes + ((c.history ops).map Step.cleared).sum =
      c.size + (c.history ops).countP Step.enters := by
  induction ops generalizing c with
  | nil => rfl
  | cons op ops ih =>
    have first := c.size_apply op
    have rest := ih (c.apply op).2
    simp only [run, List.foldl_cons, history, List.countP_cons, List.map_cons,
      List.sum_cons] at rest ⊢
    omega

end Size

/-- An entry stays until its key is put again or removed, the cache is cleared, or the key is the
least recently used one and another key displaces it. -/
theorem peek?_apply_of_held {c : Cache κ ν} {k : κ} {v : ν} (held : c.peek? k = some v)
    (op : Op κ ν) : (c.apply op).2.peek? k = some v ∨ (∃ w, op = .put k w) ∨ op = .remove k ∨
      op = .clear ∨ ∃ x w, op = .put x w ∧ (c.put x w).1 = true ∧ c.keys.getLast? = some k := by
  have member : k ∈ c.keys := contains_iff_mem_keys.1 (by simp [contains, held])
  cases after : (c.apply op).2.peek? k with
  | some w =>
    rcases peek?_apply after with again | ⟨_, before⟩
    · exact .inr (.inl ⟨w, again⟩)
    · exact .inl (before.symm.trans held)
  | none =>
    rcases lost_cases member (peek?_eq_none_iff.1 after) with
      removed | cleared | ⟨x, others, touches, parts, full, _⟩
    · exact .inr (.inr (.inl removed))
    · exact .inr (.inr (.inr (.inl cleared)))
    · rcases touches with ⟨w, rfl⟩ | ⟨rfl, _⟩
      · have last : c.keys.getLast? = some k := by rw [parts, List.getLast?_concat]
        suffices absent : x ∉ c.keys from
          .inr (.inr (.inr (.inr ⟨x, w, rfl, (c.fst_put x w).2 ⟨absent, full⟩, last⟩)))
        -- a key that is held takes the place of no other
        intro present
        have gone : k ∉ (c.put x w).2.keys := peek?_eq_none_iff.1 after
        rw [keys_put_of_room c x w (.inl present)] at gone
        obtain ⟨other, rest⟩ := not_or.1 (mt List.mem_cons.2 gone)
        exact rest (List.mem_filter.2 ⟨member, decide_eq_true other⟩)
      · rw [apply, peek?_get, held] at after
        cases after

theorem evictions_of_room {c : Cache κ ν} (room : c.size < c.capacity) (op : Op κ ν) :
    (c.apply op).2.evictions = c.evictions := by
  have kept : ¬ Step.displaces ⟨c, op⟩ = true := by
    intro displaces
    cases op with
    | put k v =>
      have full := ((c.fst_put k v).1 displaces).2
      rw [← size_eq_length_keys] at full
      exact Nat.ne_of_lt room full
    | _ => cases displaces
  rw [evictions_apply, if_neg kept, UInt64.add_zero]

/-- What the statistics of a cache tell of some steps, and what the next one may do to its entries
and to the statistics. -/
structure Conserved (capacity : Nat) (steps : List (Step κ ν)) (c : Cache κ ν) : Prop where
  hits : c.stats.hits.toNat = steps.countP Step.hits
  misses : c.stats.misses.toNat = steps.countP Step.misses
  evictions : c.stats.evictions.toNat = steps.countP Step.displaces
  entries : c.stats.entries = c.size ∧ c.size = c.keys.length
  clamped : c.stats.capacity = max capacity 1
  entered : steps.countP Step.enters = c.stats.entries + c.stats.evictions.toNat +
    steps.countP Step.removes + (steps.map Step.cleared).sum
  nodup : c.keys.Nodup
  comes : ∀ op k v, (c.apply op).2.peek? k = some v → op = .put k v ∨ c.peek? k = some v
  stays : ∀ op k v, c.peek? k = some v → (c.apply op).2.peek? k = some v ∨ (∃ w, op = .put k w) ∨
    op = .remove k ∨ op = .clear ∨
      ∃ x w, op = .put x w ∧ (c.put x w).1 = true ∧ c.keys.getLast? = some k
  roomy : c.size < max capacity 1 → ∀ op, (c.apply op).2.stats.evictions = c.stats.evictions
  clear : c.clear.stats = { c.stats with entries := 0 }

/-- Whatever a new cache has been through, its statistics tell how its lookups ended, and the
entries that came in are those that it holds and those that it gave up. -/
theorem run_conserved (capacity : Nat) (ops : List (Op κ ν)) (few : ops.length < 2 ^ 64) :
    Conserved capacity ((new capacity).history ops) ((new capacity).run ops) := by
  have evicted : ((new capacity).run ops).stats.evictions.toNat =
      ((new capacity).history ops).countP Step.displaces :=
    (new capacity).toNat_counter_run evictions_apply rfl few
  constructor
  · exact (new capacity).toNat_counter_run hits_apply rfl few
  · exact (new capacity).toNat_counter_run misses_apply rfl few
  · exact evicted
  · exact ⟨rfl, size_eq_length_keys _⟩
  · exact capacity_run (new capacity) ops
  · rw [evicted]
    exact (Nat.zero_add _).symm.trans ((new capacity).size_run ops).symm
  · exact ((new capacity).run ops).nodup
  · intro op k v held
    exact (peek?_apply held).imp_right And.right
  · exact fun op k v held => peek?_apply_of_held held op
  · exact fun room => evictions_of_room (room.trans_eq (capacity_run (new capacity) ops).symm)
  · rfl

/-- In a cache without capacity, an entry is replaced, another one displaces it and is removed, and
a third one is cleared away. -/
def replaced : List (Op Nat Nat) :=
  [.put 1 1, .put 1 2, .get 1, .get 2, .put 2 3, .remove 1, .remove 2, .get 2, .put 3 4, .clear]

theorem run_conserved_replaced : replaced.length < 2 ^ 64 ∧
    ((new 0).run replaced).stats.hits.toNat = 1 ∧ ((new 0).run replaced).stats.misses.toNat = 2 ∧
    ((new 0).history replaced).countP Step.enters = 0 + 1 + 1 + 1 := by
  have few : replaced.length < 2 ^ 64 := by decide
  have conserved : Conserved 0 ((new 0).history replaced) ((new 0).run replaced) :=
    run_conserved 0 replaced few
  have removed : ((new 0).history replaced).countP Step.removes = 1 := by decide
  have cleared : (((new 0).history replaced).map Step.cleared).sum = 1 := by decide
  have displaced : ((new 0).history replaced).countP Step.displaces = 1 := by decide
  refine ⟨few, ?_, ?_, ?_⟩
  · rw [conserved.hits]
    decide
  · rw [conserved.misses]
    decide
  · rw [conserved.entered, conserved.evictions, displaced, removed, cleared]
    rfl

end Cache

end Authorization
