import Authorization.Metrics.Collector
import Mathlib.Algebra.GroupWithZero.Nat
import Mathlib.Data.List.DropRight
import Mathlib.Data.List.Induction

namespace Authorization

inductive Activity.Counter where
  | totalChecks
  | allowedChecks
  | loadErrors
  | invalidations
  | warmups
  | skippedRoles

def Activity.count (a : Activity) : Counter → UInt64
  | .totalChecks => a.totalChecks
  | .allowedChecks => a.allowedChecks
  | .loadErrors => a.loadErrors
  | .invalidations => a.invalidations
  | .warmups => a.warmups
  | .skippedRoles => a.skippedRoles

namespace MetricsCollector

/-- What is asked of a collector. -/
inductive Op where
  | recordCheck (allowed : Bool) (latency : Duration)
  | recordLoadError
  | recordInvalidation
  | recordWarmup (skipped : Nat)
  | reset
  | snapshot

namespace Op

abbrev Answer : Op → Type
  | snapshot => MetricsSnapshot
  | _ => Unit

def isReset : Op → Bool
  | reset => true
  | _ => false

def latency? : Op → Option Binary64
  | recordCheck _ latency => some latency.milliseconds
  | _ => none

/-- By how much an operation raises a counter. -/
def raises (op : Op) (counter : Activity.Counter) : Nat :=
  match op, counter with
  | recordCheck _ _, .totalChecks => 1
  | recordCheck true _, .allowedChecks => 1
  | recordLoadError, .loadErrors => 1
  | recordInvalidation, .invalidations => 1
  | recordWarmup _, .warmups => 1
  | recordWarmup skipped, .skippedRoles => skipped
  | _, _ => 0

def raised (ops : List Op) (counter : Activity.Counter) : Nat :=
  (ops.map fun op => op.raises counter).sum

def latencies (ops : List Op) : List Binary64 := ops.filterMap latency?

/-- The operations after the last reset. -/
def sinceReset (ops : List Op) : List Op := ops.rtakeWhile fun op => !op.isReset

theorem sinceReset_reset (ops : List Op) : sinceReset (ops ++ [reset]) = [] :=
  List.rtakeWhile_concat_neg _ _ _ Bool.false_ne_true

theorem sinceReset_snoc (ops : List Op) {op : Op} (goesOn : op.isReset = false) :
    sinceReset (ops ++ [op]) = sinceReset ops ++ [op] :=
  List.rtakeWhile_concat_pos _ _ _ (congrArg Bool.not goesOn)

theorem goesOn_of_mem_sinceReset {ops : List Op} {op : Op} (member : op ∈ sinceReset ops) :
    op.isReset = false :=
  (Bool.not_eq_true' _).mp (List.mem_rtakeWhile_imp (p := fun op : Op => !op.isReset) member)

theorem raised_snoc (ops : List Op) (op : Op) (counter : Activity.Counter) :
    raised (ops ++ [op]) counter = raised ops counter + op.raises counter := by
  simp [raised]

theorem length_latencies (ops : List Op) : (latencies ops).length = raised ops .totalChecks := by
  induction ops using List.reverseRecOn with
  | nil => rfl
  | append_singleton ops op ih =>
    rw [raised_snoc, ← ih, latencies, List.filterMap_append, List.length_append]
    cases op <;> rfl

theorem raised_allowed_le (ops : List Op) : raised ops .allowedChecks ≤ raised ops .totalChecks := by
  induction ops using List.reverseRecOn with
  | nil => exact Nat.le_refl 0
  | append_singleton ops op ih =>
    rw [raised_snoc, raised_snoc]
    refine Nat.add_le_add ih ?_
    cases op with
    | recordCheck allowed _ => cases allowed <;> exact Nat.le_of_ble_eq_true rfl
    | _ => exact Nat.le_refl 0

end Op

def apply (c : MetricsCollector) : (op : Op) → op.Answer × MetricsCollector
  | .recordCheck allowed latency => ((), c.recordCheck allowed latency)
  | .recordLoadError => ((), c.recordLoadError)
  | .recordInvalidation => ((), c.recordInvalidation)
  | .recordWarmup skipped => ((), c.recordWarmup skipped)
  | .reset => ((), c.reset)
  | .snapshot => (c.snapshot, c)

def run (c : MetricsCollector) (ops : List Op) : MetricsCollector :=
  ops.foldl (fun c op => (c.apply op).2) c

/-- The snapshots that are taken in the course of some operations. -/
def snapshots (c : MetricsCollector) : List Op → List MetricsSnapshot
  | [] => []
  | .snapshot :: ops => c.snapshot :: c.snapshots ops
  | op :: ops => (c.apply op).2.snapshots ops

theorem run_snoc (c : MetricsCollector) (ops : List Op) (op : Op) :
    c.run (ops ++ [op]) = ((c.run ops).apply op).2 := List.foldl_append

theorem limit_run (c : MetricsCollector) (ops : List Op) : (c.run ops).limit = c.limit := by
  induction ops using List.reverseRecOn with
  | nil => rfl
  | append_singleton ops op ih =>
    rw [run_snoc, ← ih]
    cases op <;> rfl

/-- Whatever a collector has been through, a reset makes it a new one. -/
theorem reset_run (limit : Nat) (ops : List Op) :
    ((withLimit limit).run ops).reset = withLimit limit := by
  have same : ((withLimit limit).run ops).limit = max limit 1 := limit_run _ _
  unfold reset withLimit
  congr

/-- What came before the latest reset has left no trace. -/
theorem run_sinceReset (limit : Nat) (ops : List Op) :
    (withLimit limit).run (Op.sinceReset ops) = (withLimit limit).run ops := by
  induction ops using List.reverseRecOn with
  | nil => rfl
  | append_singleton ops op ih =>
    cases resets : op.isReset with
    | false => rw [Op.sinceReset_snoc ops resets, run_snoc, run_snoc, ih]
    | true =>
      -- Nothing follows a reset, and a reset collector is a new one.
      cases op with
      | reset =>
        rw [Op.sinceReset_reset, run_snoc]
        exact (reset_run limit ops).symm
      | _ => cases resets

theorem count_apply (c : MetricsCollector) {op : Op} (goesOn : op.isReset = false)
    (counter : Activity.Counter) :
    (c.apply op).2.activity.count counter =
      c.activity.count counter + .ofNat (op.raises counter) := by
  cases op with
  | reset => cases goesOn
  | recordCheck allowed latency =>
    cases allowed <;> cases counter <;> first | rfl | exact (UInt64.add_zero _).symm
  | _ => cases counter <;> first | rfl | exact (UInt64.add_zero _).symm

theorem rtake_snoc {α : Type} (samples : List α) (sample : α) (limit : Nat) :
    (samples.rtake limit ++ [sample]).drop ((samples.rtake limit).length + 1 - limit) =
      (samples ++ [sample]).rtake limit := by
  have shorter : samples.length - limit ≤ samples.length := Nat.sub_le _ _
  -- What both cuts drop together is what the one cut of the longer list drops.
  have skipped : samples.length - limit + ((samples.rtake limit).length + 1 - limit) =
      (samples ++ [sample]).length - limit := by
    rw [List.rtake, List.length_drop, List.length_append, List.length_singleton]
    omega
  rw [List.rtake, ← List.drop_append_of_le_length shorter, List.drop_drop, ← List.rtake, skipped,
    List.rtake]

theorem window_apply (c : MetricsCollector) {op : Op} (goesOn : op.isReset = false) :
    (c.apply op).2.window =
      match op.latency? with
      | some sample => (c.window ++ [sample]).drop (c.window.length + 1 - c.limit)
      | none => c.window := by
  cases op with
  | reset => cases goesOn
  | recordCheck allowed latency => exact c.window_recordCheck allowed latency
  | _ => rfl

/-- What a collector holds after some operations without a reset. -/
structure Holds (limit : Nat) (ops : List Op) (c : MetricsCollector) : Prop where
  window : c.window = (Op.latencies ops).rtake (max limit 1)
  length : c.window.length = min (Op.raised ops .totalChecks) (max limit 1)
  counts : ∀ counter, (c.snapshot.activity.count counter).toNat = Op.raised ops counter % 2 ^ 64
  checks : Op.raised ops .totalChecks < 2 ^ 64 →
    c.snapshot.activity.allowedChecks.toNat + c.snapshot.activity.deniedChecks.toNat =
      c.snapshot.activity.totalChecks.toNat

section

variable (limit : Nat) {ops : List Op} (goesOn : ∀ op ∈ ops, op.isReset = false)

include goesOn

theorem window_run : ((withLimit limit).run ops).window =
    (Op.latencies ops).rtake (max limit 1) := by
  induction ops using List.reverseRecOn with
  | nil => exact (List.rtake_nil _).symm
  | append_singleton ops op ih =>
    have same : ((withLimit limit).run ops).limit = max limit 1 := limit_run _ _
    have before := ih fun op member => goesOn op (List.mem_append_left _ member)
    have last : op.isReset = false := goesOn op List.mem_concat_self
    rw [run_snoc, window_apply _ last, Op.latencies, List.filterMap_append, ← Op.latencies, same,
      before]
    cases sampled : op.latency? with
    | none => simp [sampled]
    | some sample => simpa [sampled] using rtake_snoc _ sample _

theorem count_run (counter : Activity.Counter) :
    ((withLimit limit).run ops).activity.count counter = .ofNat (Op.raised ops counter) := by
  induction ops using List.reverseRecOn with
  | nil => cases counter <;> rfl
  | append_singleton ops op ih =>
    have before := ih fun op member => goesOn op (List.mem_append_left _ member)
    rw [run_snoc, count_apply _ (goesOn op List.mem_concat_self), before, Op.raised_snoc,
      UInt64.ofNat_add]

theorem holds_run : Holds limit ops ((withLimit limit).run ops) := by
  have window := window_run limit goesOn
  have counts (counter : Activity.Counter) :
      (((withLimit limit).run ops).activity.count counter).toNat =
        Op.raised ops counter % 2 ^ 64 := by
    rw [count_run limit goesOn, UInt64.toNat_ofNat']
  constructor
  · exact window
  · rw [window, List.rtake, List.length_drop, Op.length_latencies]
    omega
  · exact counts
  · intro few
    have fewer := Op.raised_allowed_le ops
    have total := (counts .totalChecks).trans (Nat.mod_eq_of_lt few)
    have allowed := (counts .allowedChecks).trans (Nat.mod_eq_of_lt (fewer.trans_lt few))
    exact Activity.allowed_add_denied (allowed.trans_le (fewer.trans_eq total.symm))

end

/-- Whatever was asked of a collector, it holds the latest samples and the counts since its last
reset. Leaving snapshots out changes nothing, and after a reset no later snapshot tells it from a
new collector. -/
theorem run_latest (limit : Nat) (ops : List Op) :
    Holds limit (Op.sinceReset ops) ((withLimit limit).run ops) ∧
      (∀ more, (withLimit limit).run (ops ++ .snapshot :: more) =
        (withLimit limit).run (ops ++ more)) ∧
      ∀ more, ((withLimit limit).run (ops ++ [.reset])).snapshots more =
        (withLimit limit).snapshots more := by
  refine ⟨?_, fun more => ?_, fun more => ?_⟩
  · rw [← run_sinceReset]
    exact holds_run limit fun op member => Op.goesOn_of_mem_sinceReset member
  · simp [run, apply]
  · rw [run_snoc]
    exact congrArg (fun c => snapshots c more) (reset_run limit ops)

end MetricsCollector

end Authorization
