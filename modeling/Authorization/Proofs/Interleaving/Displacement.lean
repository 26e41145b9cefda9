import Authorization.Proofs.Cache.History
import Authorization.Proofs.Interleaving.Steps

namespace Authorization

namespace Cache

variable {κ ν : Type} [DecidableEq κ]

theorem without_of_absent {k : κ} {es : List (κ × ν)} (absent : k ∉ es.map (·.1)) :
    without k es = es :=
  List.filter_eq_self.2 fun _ member =>
    decide_eq_true fun same => absent (same ▸ List.mem_map_of_mem member)

/-- What a cache has become by a write-back that was dropped again. Only a key that was missing
from a full cache leaves a trace: the least recently used entry gave its place to it. -/
structure Dropped (k : κ) (before after : Cache κ ν) : Prop where
  absent : after.peek? k = none
  kept : k ∈ before.keys ∨ before.size ≠ before.capacity →
    after.entries = without k before.entries ∧ after.evictions = before.evictions
  displaced : k ∉ before.keys → before.size = before.capacity →
    (∃ oldest, before.entries = after.entries ++ [oldest]) ∧
      after.evictions = before.evictions + 1
  lookups : after.hits = before.hits ∧ after.misses = before.misses
  capacity : after.capacity = before.capacity

section WriteBack

variable (c : Cache κ ν) (k : κ) (v : ν)

theorem entries_writeBack_raced : (Resolver.writeBack c k v true).entries =
    (without k c.entries).take (c.capacity - 1) := by
  obtain ⟨room, capacity⟩ := Nat.exists_eq_succ_of_ne_zero (Nat.ne_of_gt c.capacity_pos)
  have others : k ∉ ((without k c.entries).take room).map (·.1) := by
    rw [List.map_take]
    exact fun member => not_mem_keys_without k c.entries (List.mem_of_mem_take member)
  calc (Resolver.writeBack c k v true).entries
      = without k (((k, v) :: without k c.entries).take c.capacity) := rfl
    _ = without k ((without k c.entries).take room) := by
        rw [capacity, List.take_succ_cons]
        exact List.filter_cons_of_neg (by simp)
    _ = (without k c.entries).take (c.capacity - 1) := by
        rw [without_of_absent others, capacity, Nat.succ_sub_one]

theorem evictions_writeBack_raced : (Resolver.writeBack c k v true).evictions =
    if k ∉ c.keys ∧ c.size = c.capacity then c.evictions + 1 else c.evictions := by
  have displaced : (c.put k v).1 = true ↔ k ∉ c.keys ∧ c.size = c.capacity := by
    rw [fst_put, keys, List.length_map, size]
  exact if_congr displaced rfl rfl

theorem writeBack_dropped : Dropped k c (Resolver.writeBack c k v true) := by
  have room := c.capacity_pos
  have bound : c.size ≤ c.capacity := c.length_le
  refine ⟨Resolver.peek?_writeBack_raced c k v, fun roomy => ?_, fun absent full => ?_, ⟨rfl, rfl⟩,
    rfl⟩
  · have fits : (without k c.entries).length ≤ c.capacity - 1 := by
      rcases roomy with held | notFull
      · obtain ⟨e, member, same⟩ := List.mem_map.1 held
        have shorter : (without k c.entries).length < c.size :=
          List.length_filter_lt_length_iff_exists.2 ⟨e, member, by simp [same]⟩
        omega
      · have shorter : (without k c.entries).length ≤ c.size := List.length_filter_le _ c.entries
        omega
    have quiet : ¬ (k ∉ c.keys ∧ c.size = c.capacity) := fun both =>
      roomy.elim both.1 fun notFull => notFull both.2
    rw [entries_writeBack_raced, List.take_of_length_le fits, evictions_writeBack_raced,
      if_neg quiet]
    exact ⟨rfl, rfl⟩
  · have some : c.entries ≠ [] := List.ne_nil_of_length_pos (Nat.lt_of_lt_of_eq room full.symm)
    rw [entries_writeBack_raced, without_of_absent absent, ← full, size, ← List.dropLast_eq_take,
      evictions_writeBack_raced, if_pos ⟨absent, full⟩]
    exact ⟨⟨_, (List.dropLast_concat_getLast some).symm⟩, rfl⟩

end WriteBack

end Cache

namespace Resolver

/-- What a resolver has become by a load of a key whose write-back was dropped. -/
def Drops (r after : Resolver) : Key → Prop
  | .user user =>
    Cache.Dropped user r.memberships after.memberships ∧
      after = { r with memberships := after.memberships }
  | .role role =>
    Cache.Dropped role r.grants after.grants ∧ after = { r with grants := after.grants }

theorem absorb_drops {r : Resolver} {asked : Epochs} {request : Request}
    {answer : Except Error request.Answer} {k : Key} {v : k.Snapshot}
    (brought : request.snapshot? answer k = some v) (raced : r.epochs.of k ≠ asked.of k) :
    r.Drops (r.absorb asked request answer) k := by
  obtain rfl := Request.load_of_snapshot? brought
  cases answer with
  | error _ => cases k <;> cases brought
  | ok found =>
    cases k with
    | user user =>
      have late : (r.membershipEpoch != asked.memberships) = true := bne_iff_ne.2 raced
      simp only [Key.load, absorb, late]
      exact ⟨r.memberships.writeBack_dropped user (.ofUser found), rfl⟩
    | role role =>
      have late : (r.grantEpoch != asked.grants) = true := bne_iff_ne.2 raced
      simp only [Key.load, absorb, late]
      exact ⟨r.grants.writeBack_dropped role (.ofRole found), rfl⟩

theorem receive_drops {r : Resolver} {f : Flight} {k : Key} {v : k.Snapshot}
    (brought : f.snapshot? k = some v) (raced : r.epochs.of k ≠ f.asked.of k) :
    r.Drops (r.receive f) k := by
  obtain ⟨answer, served, follows⟩ := Option.bind_eq_some_iff.1 brought
  rw [receive, served]
  exact absorb_drops follows raced

end Resolver

namespace World

variable {ι : Type} [DecidableEq ι]

/-- A load that some invalidation has raced leaves its cache without its key. The other entries
and the count of evictions stay as they were, unless the cache is full and the key is missing: then
the load costs the least recently used entry its place. -/
theorem raced_load_drops (w : World ι) (moves : Nat → Move ι) {n position index : Nat}
    {task : Task ι} {f : Flight} {k : Key} {v : k.Snapshot}
    (found : (w.after moves n).tasks[position]? = some task)
    (flying : task.phase.flights[index]? = some f) (brought : f.snapshot? k = some v)
    (raced : ((w.after moves n).resolvers task.home).epochs.of k ≠ f.asked.of k) :
    ((w.after moves n).resolvers task.home).Drops
        (((w.after moves n).resolvers task.home).receive f) k ∧
      (((w.after moves n).step n (.turn position (.resume index))).resolvers task.home).Agrees
        (((w.after moves n).resolvers task.home).receive f) :=
  ⟨Resolver.receive_drops brought raced,
    resumed_agrees found flying (Flight.served_of_snapshot? brought)⟩

/-- A world in which a resolver with room for one membership reads the roles of two users. -/
def pair : World Unit :=
  { sample with directory := Directory.sample.insertUser ⟨⟨2⟩, []⟩ }

/-- One user is cached, and an invalidation of a third one races the load of the other. -/
def crowded : List (Move Unit) :=
  [.call () (.userRoles ⟨1⟩), .turn 0 (.serve 0), .turn 0 (.resume 0),
    .call () (.userRoles ⟨2⟩), .turn 1 (.serve 0), .invalidate () (.one (.user ⟨3⟩))]

def late : Flight := ⟨.loadUser ⟨2⟩, ⟨0, 0⟩, 4, some (.ok ⟨⟨2⟩, []⟩)⟩

theorem late_flying : ∃ task : Task Unit,
    (pair.after (schedule crowded) 6).tasks[1]? = some task ∧ task.phase.flights[0]? = some late :=
  ⟨_, rfl, rfl⟩

theorem late_raced : ((pair.after (schedule crowded) 6).resolvers ()).epochs.of (.user ⟨2⟩) ≠
    late.asked.of (.user ⟨2⟩) := by decide

theorem raced_load_drops_crowded : ∃ oldest,
    ((pair.after (schedule crowded) 6).resolvers ()).memberships.entries =
      (((pair.after (schedule crowded) 6).resolvers ()).receive late).memberships.entries ++
        [oldest] := by
  obtain ⟨task, found, flying⟩ := late_flying
  have brought : late.snapshot? (.user ⟨2⟩) = some ⟨⟨2⟩, []⟩ := rfl
  have dropped : Cache.Dropped ⟨2⟩ ((pair.after (schedule crowded) 6).resolvers ()).memberships _ :=
    (raced_load_drops pair (schedule crowded) found flying brought late_raced).1.1
  exact (dropped.displaced (by decide) (by decide)).1

theorem not_undisturbed_of_raced : ¬ ∀ (moves : List (Move Unit)) (n position index : Nat)
    (task : Task Unit) (f : Flight) (k : Key) (v : k.Snapshot),
    (pair.after (schedule moves) n).tasks[position]? = some task →
    task.phase.flights[index]? = some f → f.snapshot? k = some v →
    ((pair.after (schedule moves) n).resolvers task.home).epochs.of k ≠ f.asked.of k →
    ∀ x ≠ k, (((pair.after (schedule moves) n).resolvers task.home).receive f).cached? x =
      ((pair.after (schedule moves) n).resolvers task.home).cached? x := by
  intro undisturbed
  obtain ⟨task, found, flying⟩ := late_flying
  have same := undisturbed crowded 6 1 0 task late (.user ⟨2⟩) ⟨⟨2⟩, []⟩ found flying rfl late_raced
    (.user ⟨1⟩) (by decide)
  have before : ((pair.after (schedule crowded) 6).resolvers ()).cached? (.user ⟨1⟩) =
    some ⟨⟨1⟩, [⟨7⟩]⟩ := rfl
  have after : (((pair.after (schedule crowded) 6).resolvers ()).receive late).cached?
    (.user ⟨1⟩) = none := rfl
  rw [before, after] at same
  cases same

end World

end Authorization
