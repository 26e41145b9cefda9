import Authorization.Proofs.Cache.History
import Mathlib.Data.Finset.Card

namespace Authorization

namespace Cache

variable {κ ν : Type} [DecidableEq κ] {c : Cache κ ν} {ops : List (Op κ ν)} {op : Op κ ν}
  {k : κ} {t : Nat}

/-- The operation at some place of a run touches a key. -/
def TouchedAt (c : Cache κ ν) (ops : List (Op κ ν)) (t : Nat) (k : κ) : Prop :=
  ∃ op, ops[t]? = some op ∧ op.Touches (c.run (ops.take t)) k

structure LastTouch (c : Cache κ ν) (ops : List (Op κ ν)) (k : κ) (t : Nat) : Prop where
  touched : c.TouchedAt ops t k
  latest : ∀ u, c.TouchedAt ops u k → u ≤ t

theorem getElem?_snoc {α : Type} {xs : List α} {x y : α} :
    (xs ++ [x])[t]? = some y ↔ xs[t]? = some y ∨ (t = xs.length ∧ x = y) := by
  rcases Nat.lt_trichotomy t xs.length with inside | rfl | beyond
  · have other : t ≠ xs.length := Nat.ne_of_lt inside
    rw [List.getElem?_append_left inside]
    simp [other]
  · simp
  · have other : t ≠ xs.length := Nat.ne_of_gt beyond
    have missing : (xs ++ [x])[t]? = none := by
      rw [List.getElem?_eq_none_iff, List.length_append, List.length_singleton]
      exact beyond
    rw [missing, List.getElem?_eq_none (Nat.le_of_lt beyond)]
    simp [other]

theorem TouchedAt.lt (touched : c.TouchedAt ops t k) : t < ops.length := by
  obtain ⟨op, there, _⟩ := touched
  exact (List.getElem?_eq_some_iff.1 there).1

theorem touchedAt_snoc :
    c.TouchedAt (ops ++ [op]) t k ↔
      c.TouchedAt ops t k ∨ (t = ops.length ∧ op.Touches (c.run ops) k) := by
  have before (inside : t ≤ ops.length) : (ops ++ [op]).take t = ops.take t :=
    List.take_append_of_le_length inside
  unfold TouchedAt
  constructor
  · rintro ⟨made, there, touches⟩
    rcases getElem?_snoc.1 there with early | ⟨rfl, rfl⟩
    · rw [before (Nat.le_of_lt (List.getElem?_eq_some_iff.1 early).1)] at touches
      exact .inl ⟨made, early, touches⟩
    · rw [before (Nat.le_refl _), List.take_length] at touches
      exact .inr ⟨rfl, touches⟩
  · rintro (⟨made, there, touches⟩ | ⟨rfl, touches⟩)
    · refine ⟨made, getElem?_snoc.2 (.inl there), ?_⟩
      rw [before (Nat.le_of_lt (List.getElem?_eq_some_iff.1 there).1)]
      exact touches
    · refine ⟨op, getElem?_snoc.2 (.inr ⟨rfl, rfl⟩), ?_⟩
      rw [before (Nat.le_refl _), List.take_length]
      exact touches

theorem lastTouch_of_touches (touches : op.Touches (c.run ops) k) :
    c.LastTouch (ops ++ [op]) k ops.length := by
  refine ⟨touchedAt_snoc.2 (.inr ⟨rfl, touches⟩), fun u touched => ?_⟩
  rcases touchedAt_snoc.1 touched with early | ⟨rfl, _⟩
  · exact Nat.le_of_lt early.lt
  · exact Nat.le_refl _

theorem lastTouch_snoc (quiet : ¬ op.Touches (c.run ops) k) :
    c.LastTouch (ops ++ [op]) k t ↔ c.LastTouch ops k t := by
  have same (u : Nat) : c.TouchedAt (ops ++ [op]) u k ↔ c.TouchedAt ops u k := by
    rw [touchedAt_snoc]
    exact or_iff_left fun last => quiet last.2
  constructor
  · intro last
    exact ⟨(same t).1 last.touched, fun u touched => last.latest u ((same u).2 touched)⟩
  · intro last
    exact ⟨(same t).2 last.touched, fun u touched => last.latest u ((same u).1 touched)⟩

theorem LastTouch.unique {s : Nat} (first : c.LastTouch ops k s) (second : c.LastTouch ops k t) :
    s = t :=
  Nat.le_antisymm (second.latest s first.touched) (first.latest t second.touched)

/-- Keys in the order of their last touch, the latest first. -/
structure ByRecency (c : Cache κ ν) (ops : List (Op κ ν)) (keys : List κ) : Prop where
  touched : ∀ k ∈ keys, ∃ t, c.LastTouch ops k t
  descending : keys.Pairwise fun a b =>
    ∀ s t, c.LastTouch ops a s → c.LastTouch ops b t → t < s

theorem ByRecency.sublist {keys kept : List κ} (recent : c.ByRecency ops keys)
    (sub : kept.Sublist keys) : c.ByRecency ops kept :=
  ⟨fun k member => recent.touched k (sub.subset member), recent.descending.sublist sub⟩

theorem ByRecency.snoc {keys : List κ} (recent : c.ByRecency ops keys)
    (quiet : ∀ k ∈ keys, ¬ op.Touches (c.run ops) k) : c.ByRecency (ops ++ [op]) keys := by
  constructor
  · intro k member
    obtain ⟨t, last⟩ := recent.touched k member
    exact ⟨t, (lastTouch_snoc (quiet k member)).2 last⟩
  · refine recent.descending.imp_of_mem fun left right earlier s t first second => ?_
    exact earlier s t ((lastTouch_snoc (quiet _ left)).1 first)
      ((lastTouch_snoc (quiet _ right)).1 second)

theorem keys_byRecency (empty : c.keys = []) (ops : List (Op κ ν)) :
    c.ByRecency ops (c.run ops).keys := by
  induction ops using List.reverseRecOn with
  | nil =>
    rw [show c.run [] = c from rfl, empty]
    exact ⟨List.forall_mem_nil _, .nil⟩
  | append_singleton ops op ih =>
    have nodup := (c.run (ops ++ [op])).nodup
    change (c.run (ops ++ [op])).keys.Nodup at nodup
    rw [run_snoc] at nodup ⊢
    cases stepped (c.run ops) op with
    | untouched quiet kept => exact (ih.sublist kept).snoc fun k _ => quiet k
    | touched k rest touches front kept =>
      rw [front] at nodup ⊢
      have absent := (List.nodup_cons.1 nodup).1
      have others : c.ByRecency (ops ++ [op]) rest := (ih.sublist kept).snoc fun x member touched =>
        absent ((touches x).1 touched ▸ member)
      have last : c.LastTouch (ops ++ [op]) k ops.length := lastTouch_of_touches ((touches k).2 rfl)
      constructor
      · intro x member
        rcases List.mem_cons.1 member with rfl | member
        · exact ⟨_, last⟩
        · exact others.touched x member
      · refine List.pairwise_cons.2 ⟨fun x member s t first second => ?_, others.descending⟩
        have quiet : ¬ op.Touches (c.run ops) x := fun touched =>
          absent ((touches x).1 touched ▸ member)
        rw [first.unique last]
        exact ((lastTouch_snoc quiet).1 second).touched.lt

/-- The value of the last put of a key. -/
def LastPut (ops : List (Op κ ν)) (k : κ) (v : ν) : Prop :=
  ∃ t : Nat, ops[t]? = some (.put k v) ∧ ∀ (u : Nat) w, t < u → ops[u]? ≠ some (.put k w)

omit [DecidableEq κ] in
theorem lastPut_snoc {v : ν} (other : ∀ w, op ≠ .put k w) (last : LastPut ops k v) :
    LastPut (ops ++ [op]) k v := by
  obtain ⟨t, there, latest⟩ := last
  refine ⟨t, getElem?_snoc.2 (.inl there), fun u w later again => ?_⟩
  rcases getElem?_snoc.1 again with early | ⟨_, same⟩
  · exact latest u w later early
  · exact other w same

omit [DecidableEq κ] in
theorem lastPut_put (v : ν) : LastPut (ops ++ [.put k v]) k v := by
  refine ⟨ops.length, getElem?_snoc.2 (.inr ⟨rfl, rfl⟩), fun u w later again => ?_⟩
  have inside := (List.getElem?_eq_some_iff.1 again).1
  rw [List.length_append, List.length_singleton] at inside
  omega

theorem peek?_apply {v : ν} (held : (c.apply op).2.peek? k = some v) :
    op = .put k v ∨ ((∀ w, op ≠ .put k w) ∧ c.peek? k = some v) := by
  cases op with
  | get x =>
    rw [apply, peek?_get] at held
    exact .inr ⟨by simp, held⟩
  | put x w =>
    rw [apply, peek?_put] at held
    split at held
    · split at held
      · rename_i same
        exact .inl (by rw [same, Option.some.inj held])
      · rename_i other
        exact .inr ⟨fun _ same => other (Op.put.inj same).1.symm, held⟩
    · cases held
  | remove x =>
    rw [apply, peek?_remove] at held
    split at held
    · cases held
    · exact .inr ⟨by simp, held⟩
  | clear => cases held
  | _ => exact .inr ⟨by simp, held⟩

theorem value_lastPut (empty : c.keys = []) {v : ν} (held : (c.run ops).peek? k = some v) :
    LastPut ops k v := by
  induction ops using List.reverseRecOn with
  | nil =>
    have absent : k ∉ c.keys := empty ▸ List.not_mem_nil
    rw [show c.run [] = c from rfl, peek?_eq_none_iff.2 absent] at held
    cases held
  | append_singleton ops op ih =>
    rw [run_snoc] at held
    rcases peek?_apply held with rfl | ⟨other, before⟩
    · exact lastPut_put v
    · exact lastPut_snoc other (ih before)

/-- A key was put and has neither been removed since nor been cleared away. -/
def Owed (ops : List (Op κ ν)) (k : κ) : Prop :=
  ∃ (t : Nat) (v : ν), ops[t]? = some (.put k v) ∧
    ∀ u : Nat, t < u → ops[u]? ≠ some (.remove k) ∧ ops[u]? ≠ some .clear

omit [DecidableEq κ] in
theorem owed_of_snoc (owed : Owed (ops ++ [op]) k) :
    (∃ v, op = .put k v) ∨ (Owed ops k ∧ op ≠ .remove k ∧ op ≠ .clear) := by
  obtain ⟨t, v, there, kept⟩ := owed
  rcases getElem?_snoc.1 there with early | ⟨_, same⟩
  · have inside := (List.getElem?_eq_some_iff.1 early).1
    obtain ⟨unremoved, uncleared⟩ := kept ops.length inside
    refine .inr ⟨⟨t, v, early, fun u later => ?_⟩, ?_, ?_⟩
    · exact ⟨fun removed => (kept u later).1 (getElem?_snoc.2 (.inl removed)),
        fun cleared => (kept u later).2 (getElem?_snoc.2 (.inl cleared))⟩
    · exact fun same => unremoved (getElem?_snoc.2 (.inr ⟨rfl, same⟩))
    · exact fun same => uncleared (getElem?_snoc.2 (.inr ⟨rfl, same⟩))
  · exact .inl ⟨v, same⟩

/-- As many other keys as there is room for have been touched since the last touch of a key. -/
def Overtaken (c : Cache κ ν) (ops : List (Op κ ν)) (k : κ) : Prop :=
  ∃ t, c.LastTouch ops k t ∧ ∃ others : Finset κ, c.capacity ≤ others.card ∧
    ∀ x ∈ others, x ≠ k ∧ ∃ u, t < u ∧ c.TouchedAt ops u x

theorem Overtaken.snoc (overtaken : c.Overtaken ops k) (quiet : ¬ op.Touches (c.run ops) k) :
    c.Overtaken (ops ++ [op]) k := by
  obtain ⟨t, last, others, many, later⟩ := overtaken
  refine ⟨t, (lastTouch_snoc quiet).2 last, others, many, fun x member => ?_⟩
  obtain ⟨other, u, since, touched⟩ := later x member
  exact ⟨other, u, since, touchedAt_snoc.2 (.inl touched)⟩

/-- A key that gives its place to another one has been overtaken: all the keys that are now held
were touched after it. -/
theorem overtaken_of_displaced (empty : c.keys = []) {x : κ} {others : List κ}
    (touches : op.Touches (c.run ops) x) (parts : (c.run ops).keys = others ++ [k])
    (full : (c.run ops).keys.length = c.capacity)
    (after : (c.run (ops ++ [op])).keys = x :: others) (quiet : ¬ op.Touches (c.run ops) k) :
    c.Overtaken (ops ++ [op]) k := by
  have recent := keys_byRecency empty ops
  have nodup := (c.run (ops ++ [op])).nodup
  change (c.run (ops ++ [op])).keys.Nodup at nodup
  have distinct := (c.run ops).nodup
  change (c.run ops).keys.Nodup at distinct
  rw [parts] at recent distinct
  rw [after] at nodup
  obtain ⟨t, last⟩ := recent.touched k (by simp)
  refine ⟨t, (lastTouch_snoc quiet).2 last, (x :: others).toFinset, ?_, fun y member => ?_⟩
  · rw [List.toFinset_card_of_nodup nodup, ← full, parts]
    simp
  · rcases List.mem_cons.1 (List.mem_toFinset.1 member) with rfl | member
    · exact ⟨fun same => quiet (same ▸ touches), ops.length, last.touched.lt,
        touchedAt_snoc.2 (.inr ⟨rfl, touches⟩)⟩
    · obtain ⟨u, touched⟩ := recent.touched y (List.mem_append_left _ member)
      have later : t < u :=
        (List.pairwise_append.1 recent.descending).2.2 y member k (by simp) u t touched last
      exact ⟨fun same => (List.nodup_append.1 distinct).2.2 y member k (by simp) same, u, later,
        touchedAt_snoc.2 (.inl touched.touched)⟩

theorem overtaken_of_absent (empty : c.keys = []) (owed : Owed ops k)
    (absent : k ∉ (c.run ops).keys) : c.Overtaken ops k := by
  induction ops using List.reverseRecOn with
  | nil =>
    obtain ⟨t, v, there, _⟩ := owed
    cases there
  | append_singleton ops op ih =>
    have quiet : ¬ op.Touches (c.run ops) k := by
      intro touches
      rw [run_snoc] at absent
      cases stepped (c.run ops) op with
      | untouched quiet _ => exact quiet k touches
      | touched x rest only front _ =>
        rw [front, (only k).1 touches] at absent
        exact absent List.mem_cons_self
    rcases owed_of_snoc owed with ⟨v, rfl⟩ | ⟨before, unremoved, uncleared⟩
    · exact absurd (touches_put.2 rfl) quiet
    · by_cases held : k ∈ (c.run ops).keys
      · have lost := absent
        rw [run_snoc] at lost
        rcases lost_cases held lost with
          removed | cleared | ⟨x, others, touches, parts, full, after⟩
        · exact absurd removed unremoved
        · exact absurd cleared uncleared
        · rw [← run_snoc] at after
          rw [capacity_run] at full
          exact overtaken_of_displaced empty touches parts full after quiet
      · exact (ih before held).snoc quiet

/-- As long as nothing is dropped on demand, whatever was touched after a key that is still held is
still held. -/
theorem held_of_touched (empty : c.keys = []) (keeps : ∀ op ∈ ops, ¬ op.Forgets)
    (held : k ∈ (c.run ops).keys) (last : c.LastTouch ops k t) {x : κ} {u : Nat} (later : t < u)
    (touched : c.TouchedAt ops u x) : x ∈ (c.run ops).keys := by
  induction ops using List.reverseRecOn generalizing k t x u with
  | nil => cases touched.lt
  | append_singleton ops op ih =>
    have keepsBefore : ∀ op ∈ ops, ¬ op.Forgets := fun op member =>
      keeps op (List.mem_append_left _ member)
    have unforgetting : ¬ op.Forgets := keeps op (by simp)
    rw [run_snoc] at held ⊢
    rcases touchedAt_snoc.1 touched with early | ⟨rfl, touches⟩
    · have quiet : ¬ op.Touches (c.run ops) k := by
        intro touches
        have same := last.unique (lastTouch_of_touches touches)
        have before := early.lt
        omega
      have lastBefore := (lastTouch_snoc quiet).1 last
      have heldBefore : k ∈ (c.run ops).keys := by
        cases stepped (c.run ops) op with
        | untouched _ kept => exact kept.subset held
        | touched y rest only front kept =>
          rw [front] at held
          rcases List.mem_cons.1 held with rfl | member
          · exact absurd ((only k).2 rfl) quiet
          · exact kept.subset member
      apply Decidable.by_contra
      intro lost
      rcases lost_cases (ih keepsBefore heldBefore lastBefore later early) lost with
        rfl | rfl | ⟨y, others, touches, parts, _, after⟩
      · exact unforgetting trivial
      · exact unforgetting trivial
      · have recent := keys_byRecency empty ops
        have other : k ≠ y := fun same => quiet (same ▸ touches)
        rw [after] at held
        rw [parts] at recent
        have ahead := List.mem_of_ne_of_mem other held
        obtain ⟨s, lastOther⟩ := recent.touched x (by simp)
        have order := (List.pairwise_append.1 recent.descending).2.2 k ahead x (by simp) t s
          lastBefore lastOther
        have latest := lastOther.latest u early
        omega
    · cases stepped (c.run ops) op with
      | untouched quiet _ => exact absurd touches (quiet x)
      | touched y rest only front _ =>
        rw [front, (only x).1 touches]
        exact List.mem_cons_self

theorem absent_of_overtaken (empty : c.keys = []) (keeps : ∀ op ∈ ops, ¬ op.Forgets)
    (overtaken : c.Overtaken ops k) : k ∉ (c.run ops).keys := by
  intro held
  obtain ⟨t, last, others, many, later⟩ := overtaken
  have inside : others ⊆ (c.run ops).keys.toFinset.erase k := by
    intro x member
    obtain ⟨other, u, since, touched⟩ := later x member
    exact Finset.mem_erase.2 ⟨other,
      List.mem_toFinset.2 (held_of_touched empty keeps held last since touched)⟩
  have few := Finset.card_le_card inside
  rw [Finset.card_erase_of_mem (List.mem_toFinset.2 held)] at few
  have bound := (c.run ops).length_keys_le
  have size := List.toFinset_card_le (c.run ops).keys
  have room := c.capacity_pos
  rw [capacity_run] at bound
  omega

/-- What a cache of some capacity holds after some operations, and what the next one does to it. -/
structure LeastRecentlyUsed (capacity : Nat) (ops : List (Op κ ν)) (c : Cache κ ν) : Prop where
  nodup : c.keys.Nodup
  bounded : c.keys.length ≤ max capacity 1
  ordered : (new capacity).ByRecency ops c.keys
  values : ∀ k ∈ c.keys, ∃ v, LastPut ops k v ∧ (c.get k).1 = some v
  missing : ∀ k, k ∉ c.keys → (c.get k).1 = none
  gets : ∀ k, (c.get k).2.keys = if k ∈ c.keys then k :: c.keys.filter (· ≠ k) else c.keys
  contains : ∀ k, c.contains k = true ↔ k ∈ c.keys
  size : c.size = c.keys.length
  isEmpty : c.isEmpty = true ↔ c.keys = []
  clamped : c.capacity = max capacity 1
  reads : ∀ op : Op κ ν, op.Reads → (c.apply op).2 = c
  displaces : ∀ k v, (c.put k v).1 = true ↔ k ∉ c.keys ∧ c.keys.length = max capacity 1
  displaced : ∀ k v, k ∉ c.keys → c.keys.length = max capacity 1 →
    ∃ others oldest, c.keys = others ++ [oldest] ∧ (c.put k v).2.keys = k :: others
  keeps : ∀ k v, k ∈ c.keys ∨ c.keys.length ≠ max capacity 1 →
    (c.put k v).2.keys = k :: c.keys.filter (· ≠ k)
  removes : ∀ k, (c.remove k).1 = true ↔ k ∈ c.keys
  removed : ∀ k, (c.remove k).2.keys = c.keys.filter (· ≠ k)
  others : ∀ k x, x ≠ k → ((c.remove k).2.get x).1 = (c.get x).1
  cleared : c.clear.keys = []
  absent : ∀ k, Owed ops k → k ∉ c.keys → (new capacity).Overtaken ops k
  overtaken : (∀ op ∈ ops, ¬ op.Forgets) → ∀ k, (new capacity).Overtaken ops k → k ∉ c.keys

/-- Whatever a new cache has been through, it holds the keys that were touched last, as many as it
has room for, the latest first. -/
theorem run_leastRecentlyUsed (capacity : Nat) (ops : List (Op κ ν)) :
    LeastRecentlyUsed capacity ops ((new capacity).run ops) := by
  have empty : (new capacity : Cache κ ν).keys = [] := rfl
  have room : ((new capacity : Cache κ ν).run ops).capacity = max capacity 1 :=
    capacity_run (new capacity) ops
  constructor
  · exact ((new capacity).run ops).nodup
  · exact room ▸ ((new capacity).run ops).length_keys_le
  · exact keys_byRecency empty ops
  · intro k held
    obtain ⟨v, hit⟩ := hit_iff.2 held
    exact ⟨v, value_lastPut empty ((fst_get _ k).symm.trans hit), hit⟩
  · exact fun k missing => (fst_get _ k).trans (peek?_eq_none_iff.2 missing)
  · exact keys_get _
  · exact fun k => contains_iff_mem_keys
  · exact size_eq_length_keys _
  · exact isEmpty_iff_keys_eq_nil
  · exact room
  · exact fun op => apply_reads _
  · exact fun k v => room ▸ fst_put _ k v
  · exact fun k v missing full => keys_put_of_full _ k v missing (full.trans room.symm)
  · exact fun k v => room ▸ keys_put_of_room _ k v
  · exact fun k => contains_iff_mem_keys
  · exact keys_remove _
  · intro k x other
    rw [fst_get, fst_get, peek?_remove, if_neg other]
  · rfl
  · exact fun k => overtaken_of_absent empty
  · exact fun keeping k => absent_of_overtaken empty keeping

-- A removal leaves a hole, so that a key can outlast more keys than there is room for.
example : ((new 2 : Cache Nat Unit).run
    [.put 1 (), .put 2 (), .remove 2, .put 3 ()]).keys = [3, 1] := by decide

end Cache

end Authorization
