import Authorization.Proofs.Cache.History
import Mathlib.Data.List.Dedup
import Mathlib.Data.List.Perm.Subperm

namespace Authorization

namespace Cache

section Order

variable {κ : Type} [DecidableEq κ] (ks : List κ) (k : κ)

theorem dedup_snoc : (ks ++ [k]).dedup = ks.dedup.filter (· ≠ k) ++ [k] := by
  induction ks with
  | nil => rfl
  | cons x xs ih =>
    have member : x ∈ xs ++ [k] ↔ x ∈ xs ∨ x = k := by simp
    rw [List.cons_append]
    by_cases again : x ∈ xs
    · rw [List.dedup_cons_of_mem (member.2 (.inl again)), List.dedup_cons_of_mem again, ih]
    · rw [List.dedup_cons_of_notMem again]
      by_cases same : x = k
      · rw [List.dedup_cons_of_mem (member.2 (.inr same)), ih,
          List.filter_cons_of_neg (by simp [same])]
      · rw [List.dedup_cons_of_notMem fun there => (member.1 there).elim again same, ih,
          List.filter_cons_of_pos (by simp [same]), List.cons_append]

theorem take_filter_take {xs : List κ} (nodup : xs.Nodup) (n : Nat) :
    ((xs.take (n + 1)).filter (· ≠ k)).take n = (xs.filter (· ≠ k)).take n := by
  -- among the first `n + 1` keys there is at most one `k`, so that `n` others are left
  induction xs generalizing n with
  | nil => rfl
  | cons x xs ih =>
    obtain ⟨absent, nodup⟩ := List.nodup_cons.1 nodup
    rw [List.take_succ_cons]
    by_cases same : x = k
    · have others (ys : List κ) (sub : ys ⊆ xs) : ys.filter (· ≠ k) = ys :=
        List.filter_eq_self.2 fun y member => decide_eq_true fun again =>
          absent (same ▸ again ▸ sub member)
      rw [List.filter_cons_of_neg (by simp [same]), List.filter_cons_of_neg (by simp [same]),
        others _ (List.take_subset n xs), others _ (List.Subset.refl xs), List.take_take,
        Nat.min_self]
    · rw [List.filter_cons_of_pos (by simp [same]), List.filter_cons_of_pos (by simp [same])]
      cases n with
      | zero => rfl
      | succ n => rw [List.take_succ_cons, List.take_succ_cons, ih nodup]

/-- Some keys, each where it comes last among them and the latest first, and then the earlier
ones. -/
def ahead (ks earlier : List κ) : List κ := ks.dedup.reverse ++ earlier.filter (· ∉ ks)

theorem nodup_ahead {earlier : List κ} (nodup : earlier.Nodup) : (ahead ks earlier).Nodup := by
  refine List.nodup_append.2 ⟨List.nodup_reverse.2 (List.nodup_dedup ks), nodup.filter _, ?_⟩
  rintro x there y others rfl
  have apart : x ∉ ks := of_decide_eq_true (List.mem_filter.1 others).2
  exact apart (List.mem_dedup.1 (List.mem_reverse.1 there))

theorem ahead_nil (earlier : List κ) : ahead [] earlier = earlier := by simp [ahead]

theorem ahead_snoc (earlier : List κ) :
    ahead (ks ++ [k]) earlier = k :: (ahead ks earlier).filter (· ≠ k) := by
  have others : earlier.filter (· ∉ ks ++ [k]) = (earlier.filter (· ∉ ks)).filter (· ≠ k) := by
    rw [List.filter_filter]
    refine List.filter_congr fun x _ => ?_
    rw [Bool.eq_iff_iff]
    simp [and_comm]
  rw [ahead, dedup_snoc, others, List.reverse_append, ahead, List.filter_append,
    List.filter_reverse]
  rfl

theorem take_ahead_ahead (earlier : List κ) (n : Nat) :
    (ahead ks ((ahead ks earlier).take n)).take n = (ahead ks earlier).take n := by
  -- the earlier keys that were cut off are missing the second time, those that were kept still fit
  have none : (ks.dedup.reverse.take n).filter (· ∉ ks) = [] :=
    List.filter_eq_nil_iff.2 fun x there apart => of_decide_eq_true apart
      (List.mem_dedup.1 (List.mem_reverse.1 (List.mem_of_mem_take there)))
  have all (m : Nat) : ((earlier.filter (· ∉ ks)).take m).filter (· ∉ ks) =
      (earlier.filter (· ∉ ks)).take m :=
    List.filter_eq_self.2 fun x there => (List.mem_filter.1 (List.mem_of_mem_take there)).2
  have rest : ((ahead ks earlier).take n).filter (· ∉ ks) =
      (earlier.filter (· ∉ ks)).take (n - ks.dedup.reverse.length) := by
    rw [ahead, List.take_append, List.filter_append, none, all, List.nil_append]
  calc (ahead ks ((ahead ks earlier).take n)).take n
      = (ks.dedup.reverse ++
          (earlier.filter (· ∉ ks)).take (n - ks.dedup.reverse.length)).take n := by
        rw [← rest, ← ahead]
    _ = (ahead ks earlier).take n := by
        rw [List.take_append, List.take_take, Nat.min_self, ahead, List.take_append]

end Order

variable {κ ν : Type} [DecidableEq κ]

theorem peek?_of_mem {c : Cache κ ν} {e : κ × ν} (member : e ∈ c.entries) :
    c.peek? e.1 = some e.2 := by
  obtain ⟨front, back, parts⟩ := List.append_of_mem member
  have nodup := c.nodup
  rw [parts, List.map_append, List.map_cons] at nodup
  have first : ∀ x ∈ front, x.1 ≠ e.1 := fun x there same =>
    (List.nodup_append.1 nodup).2.2 x.1 (List.mem_map_of_mem there) e.1 (by simp) same
  have found : c.entries.find? (fun x => x.1 = e.1) = some e := by
    rw [parts]
    exact List.find?_eq_some_iff_append.2
      ⟨by simp, front, back, rfl, fun x there => by simp [first x there]⟩
  rw [peek?, found]
  rfl

theorem entries_eq {c d : Cache κ ν} (keys : c.keys = d.keys)
    (values : ∀ k ∈ c.keys, c.peek? k = d.peek? k) : c.entries = d.entries := by
  have told (c : Cache κ ν) : c.entries.map (fun e => (e.1, some e.2)) =
      c.keys.map fun k => (k, c.peek? k) := by
    rw [Cache.keys, List.map_map]
    exact List.map_congr_left fun e member => by simp [peek?_of_mem member]
  have same : c.keys.map (fun k => (k, c.peek? k)) = d.keys.map fun k => (k, d.peek? k) := by
    rw [← keys]
    exact List.map_congr_left fun k member => by rw [values k member]
  have injective : Function.Injective fun e : κ × ν => (e.1, some e.2) := by
    rintro ⟨k, v⟩ ⟨x, w⟩ both
    simpa using both
  exact List.map_injective_iff.2 injective ((told c).trans (same.trans (told d).symm))

section Room

variable {c : Cache κ ν} {known : List κ} {k : κ}

theorem length_keys_lt (among : c.keys ⊆ known) (member : k ∈ known) (absent : k ∉ c.keys)
    (room : known.dedup.length ≤ c.capacity) : c.keys.length < c.capacity := by
  have distinct : (k :: c.keys).Nodup := List.nodup_cons.2 ⟨absent, c.nodup⟩
  have within : k :: c.keys ⊆ known.dedup := by
    intro x there
    rcases List.mem_cons.1 there with rfl | held
    · exact List.mem_dedup.2 member
    · exact List.mem_dedup.2 (among held)
  exact Nat.lt_of_succ_le (Nat.le_trans (distinct.subperm within).length_le room)

/-- What is newly put takes the place of nothing as long as there is room. -/
theorem put_of_room (among : ∀ x, (c.peek? x).isSome = true → x ∈ known) (member : k ∈ known)
    (absent : c.peek? k = none) (room : known.dedup.length ≤ c.capacity) (v : ν) :
    (c.put k v).2.evictions = c.evictions ∧
      (∀ x w, c.peek? x = some w → (c.put k v).2.peek? x = some w) ∧
      ∀ x, ((c.put k v).2.peek? x).isSome = true ↔ x = k ∨ (c.peek? x).isSome = true := by
  have missing : k ∉ c.keys := peek?_eq_none_iff.1 absent
  have within : c.keys ⊆ known := fun x held => among x (contains_iff_mem_keys.2 held)
  have roomy : c.keys.length ≠ c.capacity :=
    Nat.ne_of_lt (length_keys_lt within member missing room)
  have displaced : (c.put k v).1 = false := by
    rw [← Bool.not_eq_true, fst_put]
    exact fun full => roomy full.2
  have keys : (c.put k v).2.keys = k :: c.keys := by
    rw [keys_put_of_room c k v (.inr roomy), List.filter_eq_self.2]
    exact fun x held => decide_eq_true fun same => missing (same ▸ held)
  refine ⟨if_neg (ne_true_of_eq_false displaced), fun x w held => ?_, fun x => ?_⟩
  · have present : x ∈ c.keys := contains_iff_mem_keys.1 (Option.isSome_of_eq_some held)
    have other : x ≠ k := fun same => missing (same ▸ present)
    rw [peek?_put, keys, if_pos (List.mem_cons_of_mem _ present), if_neg other, held]
  · have held (c : Cache κ ν) : (c.peek? x).isSome = true ↔ x ∈ c.keys := contains_iff_mem_keys
    rw [held, held, keys, List.mem_cons]

end Room

variable (c : Cache κ ν) (f : κ → Option ν) (ks : List κ) (k : κ)

/-- Puts whatever there is of some keys, one after the other. -/
def fill : Cache κ ν :=
  ks.foldl (fun c k => match f k with
    | some v => (c.put k v).2
    | none => c) c

def given : List κ := ks.filter fun k => (f k).isSome

theorem fill_cons : c.fill f (k :: ks) =
    (match f k with
      | some v => (c.put k v).2
      | none => c).fill f ks := rfl

theorem fill_snoc : c.fill f (ks ++ [k]) =
    match f k with
    | some v => ((c.fill f ks).put k v).2
    | none => c.fill f ks := List.foldl_append

theorem fill_counts : (c.fill f ks).capacity = c.capacity ∧ (c.fill f ks).hits = c.hits ∧
    (c.fill f ks).misses = c.misses := by
  induction ks using List.reverseRecOn with
  | nil => exact ⟨rfl, rfl, rfl⟩
  | append_singleton ks k ih =>
    rw [fill_snoc]
    cases f k <;> exact ih

section

variable {f : κ → Option ν} {k : κ}

omit [DecidableEq κ] in
theorem given_snoc_none (missing : f k = none) : given f (ks ++ [k]) = given f ks := by
  simp [given, missing]

omit [DecidableEq κ] in
theorem given_snoc_some {v : ν} (there : f k = some v) :
    given f (ks ++ [k]) = given f ks ++ [k] := by
  simp [given, there]

end

/-- What is put becomes the most recently used, as far as there is room. -/
theorem keys_fill : (c.fill f ks).keys = (ahead (given f ks) c.keys).take c.capacity := by
  induction ks using List.reverseRecOn with
  | nil =>
    rw [show given f [] = [] from rfl, ahead_nil]
    exact (List.take_of_length_le c.length_keys_le).symm
  | append_singleton ks k ih =>
    rw [fill_snoc]
    cases there : f k with
    | none =>
      rw [given_snoc_none ks there]
      exact ih
    | some v =>
      obtain ⟨room, capacity⟩ := Nat.exists_eq_succ_of_ne_zero (Nat.ne_of_gt c.capacity_pos)
      have nodup : (ahead (given f ks) c.keys).Nodup := nodup_ahead _ c.nodup
      rw [given_snoc_some ks there, keys_put, ih, (fill_counts c f ks).1, ahead_snoc, capacity,
        List.take_succ_cons, List.take_succ_cons, Nat.succ_eq_add_one, take_filter_take k nodup]

theorem peek?_fill {k : κ} (held : k ∈ (c.fill f ks).keys) :
    (c.fill f ks).peek? k = if k ∈ given f ks then f k else c.peek? k := by
  induction ks using List.reverseRecOn with
  | nil => rfl
  | append_singleton ks x ih =>
    rw [fill_snoc] at held ⊢
    cases there : f x with
    | none =>
      rw [there] at held
      rw [given_snoc_none ks there]
      exact ih held
    | some v =>
      rw [there] at held
      dsimp only at held ⊢
      rw [given_snoc_some ks there, peek?_put, if_pos held]
      by_cases same : k = x
      · simp [same, there]
      · have before : k ∈ (c.fill f ks).keys := by
          rw [keys_put] at held
          have later := List.mem_of_ne_of_mem same (List.mem_of_mem_take held)
          exact (List.mem_filter.1 later).1
        rw [if_neg same, ih before]
        simp [same]

/-- Filling a cache once more changes none of its entries and not their order, also when there is
not room for all of the keys. -/
theorem entries_fill_fill : ((c.fill f ks).fill f ks).entries = (c.fill f ks).entries := by
  have keys : ((c.fill f ks).fill f ks).keys = (c.fill f ks).keys := by
    rw [keys_fill, (fill_counts c f ks).1, keys_fill, take_ahead_ahead]
  refine entries_eq keys fun k held => ?_
  rw [peek?_fill (c.fill f ks) f ks held, peek?_fill c f ks (keys ▸ held)]
  split <;> rfl

end Cache

end Authorization
