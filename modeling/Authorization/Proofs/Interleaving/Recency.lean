import Authorization.Proofs.Interleaving.Steps
import Authorization.Proofs.Snapshots.Directory

namespace Authorization

namespace World

variable {ι : Type} [DecidableEq ι] {w : World ι} {moves : Nat → Move ι}

/-- What holds of every task is what its beginning establishes and its turns preserve. -/
theorem task_invariant {P : Nat → Task ι → Prop} (fresh : w.Fresh)
    (step : ∀ n, (∀ old ∈ (w.after moves n).tasks, P n old) →
      ∀ task, TaskStep (w.after moves n) n (moves n) task → P (n + 1) task)
    {n : Nat} {task : Task ι} (member : task ∈ (w.after moves n).tasks) : P n task := by
  induction n generalizing task with
  | zero =>
    rw [after, fresh.tasks] at member
    cases member
  | succ n ih => exact step n (fun _ old => ih old) task (task_step member)

/-- What holds of the task at a position from its beginning on. -/
theorem task_at_invariant {P : Nat → Task ι → Prop} {position : Nat} (fresh : w.Fresh)
    (begins : ∀ n home call, (w.after moves n).tasks[position]? = none → moves n = .call home call →
      P (n + 1) ⟨home, call, n, ((call.program ((w.after moves n).resolvers home)).advance (n + 1)
        ((w.after moves n).resolvers home)).1⟩)
    (stays : ∀ n task, (w.after moves n).tasks[position]? = some task → P n task →
      (∀ turn, moves n ≠ .turn position turn) → P (n + 1) task)
    (turns : ∀ n task turn, (w.after moves n).tasks[position]? = some task → P n task →
      moves n = .turn position turn → P (n + 1) { task with
        phase := (task.phase.turn (n + 1)
          ⟨(w.after moves n).resolvers task.home, (w.after moves n).directory⟩ turn).1 })
    {n : Nat} {task : Task ι} (found : (w.after moves n).tasks[position]? = some task) :
    P n task := by
  induction n generalizing task with
  | zero =>
    rw [after, fresh.tasks] at found
    cases found
  | succ n ih =>
    cases before : (w.after moves n).tasks[position]? with
    | none =>
      obtain ⟨home, call, made, rfl⟩ := task_begun before found
      exact begins n home call before made
    | some old =>
      rcases task_at n (moves n) before with ⟨other, still⟩ | ⟨turn, made, turned⟩
      · obtain rfl := Option.some.inj (still.symm.trans found)
        exact stays n old before (ih before) other
      · obtain rfl := Option.some.inj (turned.symm.trans found)
        exact turns n old turn before (ih before) made

theorem began_lt (fresh : w.Fresh) {n : Nat} {task : Task ι}
    (member : task ∈ (w.after moves n).tasks) : task.began < n := by
  apply task_invariant (P := fun n task => task.began < n) fresh ?_ member
  intro n before task made
  cases made with
  | kept old => exact Nat.lt_succ_of_lt (before task old)
  | begun _ => exact Nat.lt_succ_self n
  | @turned _ _ old _ found =>
    have earlier := before old (List.mem_of_getElem? found)
    exact Nat.lt_succ_of_lt earlier

/-- When a request was made and when it was served. -/
structure Dated (w : World ι) (moves : Nat → Move ι) (n : Nat) (task : Task ι) (f : Flight) :
    Prop where
  began_lt : task.began < f.since
  since_le : f.since ≤ n
  asked : f.asked = ((w.after moves f.since).resolvers task.home).epochs
  served : f.answer ≠ none → ∃ m, f.since ≤ m ∧ m < n ∧
    f.answer = some ((w.after moves m).directory.serve f.request).1 ∧
    (w.after moves (m + 1)).directory = ((w.after moves m).directory.serve f.request).2

theorem dated (fresh : w.Fresh) {n : Nat} {task : Task ι} {f : Flight}
    (member : task ∈ (w.after moves n).tasks) (flying : f ∈ task.phase.flights) :
    w.Dated moves n task f := by
  induction n generalizing task f with
  | zero =>
    rw [after, fresh.tasks] at member
    cases member
  | succ n ih =>
    cases flight_step member flying with
    | kept old home began flying =>
      have before := ih old flying
      constructor
      · exact began ▸ before.began_lt
      · exact Nat.le_succ_of_le before.since_le
      · exact home ▸ before.asked
      · intro answered
        obtain ⟨m, later, earlier, served⟩ := before.served answered
        exact ⟨m, later, Nat.lt_succ_of_lt earlier, served⟩
    | started starts =>
      constructor
      · exact starts.since ▸ World.began_lt fresh member
      · exact Nat.le_of_eq starts.since
      · rw [starts.since]
        exact starts.asked
      · intro answered
        exact absurd starts.answer answered
    | answered old home began asked served changed =>
      subst served
      have before := ih old asked
      constructor
      · exact began ▸ before.began_lt
      · exact Nat.le_succ_of_le before.since_le
      · exact home ▸ before.asked
      · intro _
        exact ⟨n, before.since_le, Nat.lt_succ_self n, rfl, changed⟩

theorem Dated.snapshot? {n : Nat} {task : Task ι} {f : Flight} (when : w.Dated moves n task f)
    {k : Key} {v : k.Snapshot} (brought : f.snapshot? k = some v) :
    ∃ m, f.since ≤ m ∧ m < n ∧ (w.after moves m).directory.snapshot? k = some v := by
  obtain ⟨answer, answered, brings⟩ := Option.bind_eq_some_iff.1 brought
  obtain ⟨m, later, earlier, served, _⟩ := when.served (by simp [answered])
  rw [Option.some.inj (answered.symm.trans served)] at brings
  exact ⟨m, later, earlier, Directory.snapshot?_of_serve brings⟩

def raises (w : World ι) (moves : Nat → Move ι) (i : ι) (k : Key) (n : Nat) : Bool :=
  ((w.after moves n).invalidation? (moves n)).any fun made => made.1 = i ∧ made.2.raises k

theorem raises_of_invalidates {i : ι} {k : Key} {n : Nat} (hit : w.Invalidates moves i k n) :
    w.raises moves i k n = true := by
  obtain ⟨what, made, hits⟩ := hit
  simp [raises, made, Invalidation.raises_of_hits hits]

theorem any_of_raises {i : ι} {k : Key} {m : Nat} (raised : w.raises moves i k m = true) :
    ((w.after moves m).invalidation? (moves m)).any (·.1 = i) = true := by
  simp only [raises, Option.any_eq_true, decide_eq_true_eq] at raised ⊢
  obtain ⟨made, there, here, _⟩ := raised
  exact ⟨made, there, here⟩

theorem epochs_succ (i : ι) (k : Key) (n : Nat) :
    ((w.after moves (n + 1)).resolvers i).epochs.of k =
      ((w.after moves n).resolvers i).epochs.of k + if w.raises moves i k n then 1 else 0 := by
  cases resolver_step (w.after moves n) n (moves n) i with
  | kept calm same =>
    have quiet : w.raises moves i k n = false := by
      unfold raises
      cases made : (w.after moves n).invalidation? (moves n) with
      | none => rfl
      | some pair =>
        obtain ⟨j, what⟩ := pair
        have other : j ≠ i := by
          rintro rfl
          exact calm what made
        simp [other]
    rw [after, same.epochs, quiet]
    simp
  | invalidated what made same =>
    rw [after, same.epochs, Resolver.epochs_invalidate]
    simp [raises, made]
  | received made found _ flying calm same =>
    have quiet : w.raises moves i k n = false := by
      unfold raises
      rw [made, invalidation?_resume found, flying, Option.bind_some, calm]
      rfl
    rw [after, same.epochs, Resolver.epochs_receive _ calm, quiet]
    simp

theorem epochs_after (i : ι) (k : Key) (m l : Nat) :
    ((w.after moves (m + l)).resolvers i).epochs.of k =
      ((w.after moves m).resolvers i).epochs.of k +
        UInt64.ofNat (Nat.count (fun t => w.raises moves i k (m + t)) l) := by
  induction l with
  | zero => simp
  | succ l ih =>
    rw [← Nat.add_assoc, epochs_succ, ih, Nat.count_succ, UInt64.ofNat_add, UInt64.add_assoc]
    split <;> rfl

/-- The epoch of a key's cache is what it was when a load began if and only if it was not raised
since, as it cannot have gone all the way round. -/
theorem epochs_eq_iff (calm : w.Calm moves) {n : Nat} {task : Task ι} {f : Flight} {k : Key}
    (when : w.Dated moves n task f) (member : task ∈ (w.after moves n).tasks)
    (flying : f ∈ task.phase.flights) (load : f.request = k.load) :
    ((w.after moves n).resolvers task.home).epochs.of k = f.asked.of k ↔
      ∀ t, f.since ≤ t → t < n → w.raises moves task.home k t = false := by
  obtain ⟨l, rfl⟩ := Nat.exists_eq_add_of_le when.since_le
  have few : Nat.count (fun t => w.raises moves task.home k (f.since + t)) l < 2 ^ 64 := by
    have bound := calm _ task member f flying k load
    rw [invalidations, Nat.add_sub_cancel_left] at bound
    exact Nat.lt_of_le_of_lt (Nat.count_mono_left fun t _ raised => any_of_raises raised) bound
  have none : UInt64.ofNat (Nat.count (fun t => w.raises moves task.home k (f.since + t)) l) = 0 ↔
      Nat.count (fun t => w.raises moves task.home k (f.since + t)) l = 0 := by
    rw [← UInt64.toNat_inj, UInt64.toNat_ofNat', Nat.mod_eq_of_lt few]
    rfl
  rw [epochs_after, ← when.asked, UInt64.add_eq_left, none, Nat.count_iff_forall_not]
  constructor
  · intro quiet t later earlier
    have calmThen := quiet (t - f.since) (by omega)
    rw [Nat.add_sub_cancel' later] at calmThen
    simpa using calmThen
  · intro quiet t earlier raised
    have calmThen := quiet (f.since + t) (by omega) (by omega)
    rw [calmThen] at raised
    cases raised

theorem calm_schedule (w : World ι) (run : List (Move ι)) (short : run.length < 2 ^ 64) :
    w.Calm (schedule run) := by
  intro n task _ f _ _ _
  unfold invalidations
  rcases Nat.le_total (n - f.since) run.length with few | many
  · exact Nat.lt_of_le_of_lt (Nat.le_trans (Nat.count_le _) few) short
  · obtain ⟨rest, split⟩ := Nat.exists_eq_add_of_le many
    have still (t : Nat) : schedule run (f.since + (run.length + t)) = .pause := by
      rw [schedule, List.getElem?_eq_none (by omega)]
      rfl
    rw [split, Nat.count_add, Nat.add_eq_left.2 (Nat.count_iff_forall_not.2 fun t _ => by
      rw [still t]
      exact Bool.false_ne_true)]
    exact Nat.lt_of_le_of_lt (Nat.count_le _) short

/-- A snapshot was on record at some moment after the latest invalidation of its key. -/
def Recent (w : World ι) (moves : Nat → Move ι) (i : ι) (k : Key) (v : k.Snapshot) (n : Nat) :
    Prop :=
  ∃ m ≤ n, w.Follows moves i k n m ∧ (w.after moves m).directory.snapshot? k = some v

theorem Recent.succ {i : ι} {k : Key} {v : k.Snapshot} {n : Nat} (recent : w.Recent moves i k v n)
    (calm : ¬ w.Invalidates moves i k n) : w.Recent moves i k v (n + 1) := by
  obtain ⟨m, earlier, latest, there⟩ := recent
  have follows : w.Follows moves i k (n + 1) m := by
    intro t before hit
    rcases Nat.lt_succ_iff_lt_or_eq.1 before with before | rfl
    · exact latest t before hit
    · exact absurd hit calm
  exact ⟨m, Nat.le_succ_of_le earlier, follows, there⟩

theorem cached_recent (fresh : w.Fresh) (calm : w.Calm moves) {i : ι} {k : Key} {v : k.Snapshot}
    {n : Nat} (held : ((w.after moves n).resolvers i).cached? k = some v) :
    w.Recent moves i k v n := by
  induction n with
  | zero =>
    obtain ⟨config, projection, built⟩ := fresh.built i
    rw [after, Resolver.cached?_build built] at held
    cases held
  | succ n ih =>
    cases resolver_step (w.after moves n) n (moves n) i with
    | kept quiet same =>
      rw [after, same.cached] at held
      have none : ¬ w.Invalidates moves i k n := by
        rintro ⟨what, made, _⟩
        exact quiet what made
      exact (ih held).succ none
    | invalidated what made same =>
      rw [after, same.cached, Resolver.cached?_invalidate] at held
      split at held
      · cases held
      · rename_i missed
        have none : ¬ w.Invalidates moves i k n := by
          rintro ⟨other, madeToo, hits⟩
          have equal := Option.some.inj (made.symm.trans madeToo)
          rw [(Prod.mk.inj equal).2] at missed
          exact missed hits
        exact (ih held).succ none
    | @received position index task f made found home flying quiet same =>
      subst home
      have none : ¬ w.Invalidates moves task.home k n := by
        rintro ⟨what, hit, _⟩
        rw [made, invalidation?_resume found, flying, Option.bind_some, quiet] at hit
        cases hit
      rw [after, same.cached] at held
      rcases Resolver.cached?_receive quiet held with before | ⟨brought, timely⟩
      · exact (ih before).succ none
      · have member := List.mem_of_getElem? found
        have there := List.mem_of_getElem? flying
        have when := dated fresh member there
        have unraised := (epochs_eq_iff calm when member there
          (Flight.load_of_snapshot? brought)).1 timely
        obtain ⟨m, later, earlier, recorded⟩ := when.snapshot? brought
        have follows : w.Follows moves task.home k (n + 1) m := by
          intro t before hit
          apply Nat.not_le.1
          intro late
          have raised := raises_of_invalidates hit
          rcases Nat.lt_succ_iff_lt_or_eq.1 before with before | rfl
          · rw [unraised t (by omega) before] at raised
            cases raised
          · exact none hit
        exact ⟨m, by omega, follows, recorded⟩

/-- Whatever a resolver caches of a key was on record after the latest invalidation of the key, and
a load that an invalidation of its key has raced leaves no entry when it ends. -/
theorem cached_since_invalidation (fresh : w.Fresh) (calm : w.Calm moves) (i : ι) (k : Key)
    (n : Nat) :
    (∀ v, ((w.after moves n).resolvers i).cached? k = some v →
      ∃ m ≤ n, w.Follows moves i k n m ∧ (w.after moves m).directory.snapshot? k = some v) ∧
    ∀ position index task f v t, moves n = .turn position (.resume index) →
      (w.after moves n).tasks[position]? = some task → task.home = i →
      task.phase.flights[index]? = some f → f.snapshot? k = some v →
      f.since ≤ t → t < n → w.Invalidates moves i k t →
      ((w.after moves (n + 1)).resolvers i).cached? k = none := by
  constructor
  · intro v held
    exact cached_recent fresh calm held
  · intro position index task f v t made found home flying brought later earlier hit
    subst home
    have member := List.mem_of_getElem? found
    have there := List.mem_of_getElem? flying
    have load := Flight.load_of_snapshot? brought
    have raced : ((w.after moves n).resolvers task.home).epochs.of k ≠ f.asked.of k := by
      intro timely
      have unraised := (epochs_eq_iff calm (dated fresh member there) member there load).1 timely
      have still := unraised t later earlier
      rw [raises_of_invalidates hit] at still
      cases still
    rw [after, made, (resumed_agrees found flying (Flight.served_of_snapshot? brought)).cached]
    exact Resolver.cached?_receive_raced brought raced

def overtaken : List (Move Unit) :=
  [.call () (.userRoles ⟨1⟩), .turn 0 (.serve 0),
    .upkeep (.request (.write (.edit (.removeMember ⟨1⟩ ⟨7⟩)))),
    .invalidate () (.one (.user ⟨1⟩)), .turn 0 (.resume 0),
    .call () (.userRoles ⟨1⟩), .turn 1 (.serve 0), .turn 1 (.resume 0)]

theorem cached_since_overtaken :
    (∃ m ≤ 8, sample.Follows (schedule overtaken) () (.user ⟨1⟩) 8 m ∧
      (sample.after (schedule overtaken) m).directory.snapshot? (.user ⟨1⟩) = some ⟨⟨1⟩, []⟩) ∧
    ((sample.after (schedule overtaken) 5).resolvers ()).cached? (.user ⟨1⟩) = none := by
  have calm : sample.Calm (schedule overtaken) := calm_schedule sample overtaken (by decide)
  constructor
  · exact (cached_since_invalidation fresh_sample calm () (.user ⟨1⟩) 8).1 ⟨⟨1⟩, []⟩ rfl
  · exact (cached_since_invalidation fresh_sample calm () (.user ⟨1⟩) 4).2 0 0 _ _ _ 3 rfl rfl rfl
      rfl rfl (by decide) (by decide) ⟨.one (.user ⟨1⟩), rfl, .inl rfl⟩

end World

end Authorization
