import Authorization.Metrics.Activity

namespace Authorization

/-- The time a check took. -/
structure Duration where
  seconds : UInt64
  nanos : UInt32

def Duration.milliseconds (d : Duration) : Binary64 :=
  .ofFloat ((d.seconds.toFloat + d.nanos.toFloat / 1e9) * 1000.0)

/-- The position of the share `p` of `n` ascending samples. -/
def percentileIndex (p : Float) (n : Nat) : Nat := min (n.toFloat * p).toUInt64.toNat (n - 1)

def percentile (p : Float) (ascending : List Binary64) : Binary64 :=
  (ascending[percentileIndex p ascending.length]?).getD .zero

/-- The mean of samples added from first to last, zero when there are none. -/
def mean (samples : List Binary64) : Binary64 :=
  .ofFloat (samples.foldl (fun sum x => sum + x.toFloat) 0.0 / (max samples.length 1).toFloat)

structure MetricsSnapshot where
  activity : Activity
  p50 : Binary64
  p99 : Binary64
  average : Binary64

/-- Counters with the latencies of the latest checks in milliseconds, oldest first. -/
structure MetricsCollector where
  limit : Nat
  activity : Activity
  window : List Binary64
  limit_pos : 0 < limit
  window_le : window.length ≤ limit

namespace MetricsCollector

theorem withLimit_pos (limit : Nat) : 0 < max limit 1 :=
  Nat.lt_of_lt_of_le Nat.zero_lt_one (Nat.le_max_right limit 1)

theorem withLimit_window_le (limit : Nat) : ([] : List Binary64).length ≤ max limit 1 :=
  Nat.zero_le _

/-- A collector that keeps `limit` latencies. A limit of zero acts as one. -/
def withLimit (limit : Nat) : MetricsCollector where
  limit := max limit 1
  activity := .none
  window := []
  limit_pos := withLimit_pos limit
  window_le := withLimit_window_le limit

def new : MetricsCollector := withLimit 10000

def makeRoom (limit : Nat) (window : List Binary64) : List Binary64 :=
  if window.length = limit then window.tail else window

theorem makeRoom_length_lt {limit : Nat} {window : List Binary64} (pos : 0 < limit)
    (bound : window.length ≤ limit) : (makeRoom limit window).length < limit := by
  unfold makeRoom
  split
  · rw [List.length_tail]
    omega
  · omega

def recordCheck (c : MetricsCollector) (allowed : Bool) (latency : Duration) :
    MetricsCollector :=
  { c with
    activity := c.activity.recordCheck allowed
    window := makeRoom c.limit c.window ++ [latency.milliseconds]
    window_le := by
      rw [List.length_append]
      exact makeRoom_length_lt c.limit_pos c.window_le }

/-- The window holds the latest samples. -/
theorem window_recordCheck (c : MetricsCollector) (allowed : Bool) (latency : Duration) :
    (c.recordCheck allowed latency).window =
      (c.window ++ [latency.milliseconds]).drop (c.window.length + 1 - c.limit) := by
  have bound := c.window_le
  have pos := c.limit_pos
  by_cases full : c.window.length = c.limit
  · rw [show c.window.length + 1 - c.limit = 1 by omega]
    have held : c.window ≠ [] := by
      rintro empty
      rw [empty] at full
      exact absurd pos (Nat.not_lt.2 (Nat.le_of_eq full.symm))
    simp [recordCheck, makeRoom, full, List.tail_append_of_ne_nil held]
  · rw [show c.window.length + 1 - c.limit = 0 by omega]
    simp [recordCheck, makeRoom, full]

def recordLoadError (c : MetricsCollector) : MetricsCollector :=
  { c with activity := c.activity.recordLoadError }

def recordInvalidation (c : MetricsCollector) : MetricsCollector :=
  { c with activity := c.activity.recordInvalidation }

def recordWarmup (c : MetricsCollector) (skipped : Nat) : MetricsCollector :=
  { c with activity := c.activity.recordWarmup skipped }

def reset (c : MetricsCollector) : MetricsCollector :=
  { c with activity := .none, window := [], window_le := Nat.zero_le _ }

def snapshot (c : MetricsCollector) : MetricsSnapshot :=
  let ascending := c.window.mergeSort Binary64.totalLE
  ⟨c.activity, percentile 0.50 ascending, percentile 0.99 ascending, mean c.window⟩

end MetricsCollector

end Authorization
