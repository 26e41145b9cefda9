import Authorization.Metrics.Collector
import Authorization.Proofs.Binary64.Order
import Mathlib.Data.List.Basic

namespace Authorization

/-- The share `p` of `n`, rounded to a double and then cut off to a whole number. -/
def truncated (p : Float) (n : Nat) : Nat := (n.toFloat * p).toUInt64.toNat

theorem percentileIndex_eq (p : Float) (n : Nat) :
    percentileIndex p n = min (truncated p n) (n - 1) := rfl

theorem percentileIndex_lt (p : Float) {n : Nat} (pos : 0 < n) : percentileIndex p n < n := by
  rw [percentileIndex_eq]
  omega

theorem percentileIndex_mono {p q : Float} {n : Nat} (ordered : truncated p n ≤ truncated q n) :
    percentileIndex p n ≤ percentileIndex q n := by
  rw [percentileIndex_eq, percentileIndex_eq]
  omega

/-- A sample at the place `r` of all samples in ascending order, where the first place is 0. -/
structure OrderStatistic (samples : List Binary64) (r : Nat) (x : Binary64) : Prop where
  sampled : x ∈ samples
  atMost : r + 1 ≤ samples.countP fun s => s.totalLE x
  atLeast : samples.length - r ≤ samples.countP fun s => x.totalLE s

namespace OrderStatistic

theorem of_perm {samples other : List Binary64} {r : Nat} {x : Binary64}
    (perm : samples.Perm other) (statistic : OrderStatistic samples r x) :
    OrderStatistic other r x where
  sampled := perm.mem_iff.1 statistic.sampled
  atMost := perm.countP_eq _ ▸ statistic.atMost
  atLeast := perm.length_eq ▸ perm.countP_eq _ ▸ statistic.atLeast

end OrderStatistic

/-- The samples that the percentiles are read from. -/
def ascending (samples : List Binary64) : List Binary64 := samples.mergeSort Binary64.totalLE

theorem ascending_perm (samples : List Binary64) : (ascending samples).Perm samples :=
  List.mergeSort_perm samples Binary64.totalLE

theorem length_ascending (samples : List Binary64) : (ascending samples).length = samples.length :=
  (ascending_perm samples).length_eq

theorem ascending_pairwise (samples : List Binary64) :
    (ascending samples).Pairwise fun x y => x.totalLE y = true := by
  refine List.pairwise_mergeSort (fun x y z => ?_) (fun x y => ?_) samples
  · exact Binary64.totalLE_trans
  · exact Bool.or_eq_true_iff.2 (x.totalLE_total y)

/-- Samples with equal places are equal, so that sorting leaves no trace of their order. -/
theorem ascending_eq_of_perm {samples other : List Binary64} (perm : samples.Perm other) :
    ascending samples = ascending other :=
  List.Perm.eq_of_pairwise (fun _ _ _ _ => Binary64.totalLE_antisymm) (ascending_pairwise samples)
    (ascending_pairwise other)
    (((ascending_perm samples).trans perm).trans (ascending_perm other).symm)

theorem getElem_ascending_le {samples : List Binary64} {i j : Nat}
    (before : i < (ascending samples).length) (bound : j < (ascending samples).length)
    (le : i ≤ j) : (ascending samples)[i].totalLE (ascending samples)[j] = true := by
  rcases Nat.lt_or_eq_of_le le with less | rfl
  · exact List.pairwise_iff_getElem.1 (ascending_pairwise samples) i j before bound less
  · exact Binary64.totalLE_refl _

/-- The samples up to a place are at most the one there, those from it on at least. -/
theorem orderStatistic_getElem {samples : List Binary64} {r : Nat}
    (bound : r < (ascending samples).length) :
    OrderStatistic samples r (ascending samples)[r] := by
  refine .of_perm (ascending_perm samples) ⟨List.getElem_mem bound, ?_, ?_⟩
  · have upTo : ∀ s ∈ (ascending samples).take (r + 1),
        s.totalLE (ascending samples)[r] = true := by
      intro s member
      obtain ⟨i, place, rfl⟩ := List.mem_take_iff_getElem.1 member
      exact getElem_ascending_le _ bound (by omega)
    have all := (List.countP_eq_length.2 upTo).trans (List.length_take_of_le bound)
    exact Nat.le_trans (Nat.le_of_eq all.symm) (List.take_sublist _ _).countP_le
  · have onward : ∀ s ∈ (ascending samples).drop r,
        (ascending samples)[r].totalLE s = true := by
      intro s member
      obtain ⟨i, place, rfl⟩ := List.mem_drop_iff_getElem.1 member
      exact getElem_ascending_le bound _ (by omega)
    have all := (List.countP_eq_length.2 onward).trans List.length_drop
    exact Nat.le_trans (Nat.le_of_eq all.symm) (List.drop_sublist _ _).countP_le

theorem ascending_nil : ascending [] = [] := List.mergeSort_nil

section

variable {p q : Float} {samples : List Binary64}

theorem percentileIndex_ascending (p : Float) (some : samples ≠ []) :
    percentileIndex p (ascending samples).length < (ascending samples).length := by
  rw [length_ascending]
  exact percentileIndex_lt p (List.length_pos_iff.2 some)

theorem percentile_nil (p : Float) : percentile p (ascending []) = .zero := by
  rw [ascending_nil]
  rfl

theorem percentile_eq (p : Float) (some : samples ≠ []) :
    percentile p (ascending samples) = (ascending samples).get
      ⟨percentileIndex p (ascending samples).length, percentileIndex_ascending p some⟩ := by
  rw [percentile, List.getElem?_eq_getElem (percentileIndex_ascending p some)]
  rfl

theorem percentile_orderStatistic (p : Float) (some : samples ≠ []) :
    OrderStatistic samples (min (truncated p samples.length) (samples.length - 1))
      (percentile p (ascending samples)) := by
  have place : percentileIndex p (ascending samples).length =
      min (truncated p samples.length) (samples.length - 1) := by
    rw [length_ascending, percentileIndex_eq]
  rw [← place, percentile_eq p some]
  exact orderStatistic_getElem (percentileIndex_ascending p some)

theorem percentile_mono (ordered : truncated p samples.length ≤ truncated q samples.length) :
    (percentile p (ascending samples)).totalLE (percentile q (ascending samples)) = true := by
  by_cases none : samples = []
  · rw [none, percentile_nil, percentile_nil]
    exact Binary64.totalLE_refl _
  · rw [percentile_eq p none, percentile_eq q none]
    refine getElem_ascending_le _ _ (percentileIndex_mono ?_)
    rwa [length_ascending]

end

namespace MetricsCollector

theorem p50_snapshot (c : MetricsCollector) :
    c.snapshot.p50 = percentile 0.50 (ascending c.window) := rfl

theorem p99_snapshot (c : MetricsCollector) :
    c.snapshot.p99 = percentile 0.99 (ascending c.window) := rfl

/-- What the percentiles of a snapshot are among the samples, `i` and `j` being the shares of their
number. -/
structure Ranked (c : MetricsCollector) (i j : Nat) : Prop where
  inBounds : c.window ≠ [] → ∀ p, percentileIndex p (ascending c.window).length <
    (ascending c.window).length
  none : c.window = [] → c.snapshot.p50 = .zero ∧ c.snapshot.p99 = .zero
  p50 : c.window ≠ [] → OrderStatistic c.window (min i (c.window.length - 1)) c.snapshot.p50
  p99 : c.window ≠ [] → OrderStatistic c.window (min j (c.window.length - 1)) c.snapshot.p99
  ordered : c.snapshot.p50.totalLE c.snapshot.p99 = true
  unordered : ∀ d : MetricsCollector, d.window.Perm c.window →
    d.snapshot.p50 = c.snapshot.p50 ∧ d.snapshot.p99 = c.snapshot.p99

/-- The percentiles are order statistics of the window. -/
theorem snapshot_ranked (c : MetricsCollector)
    (ordered : truncated 0.50 c.window.length ≤ truncated 0.99 c.window.length) :
    c.Ranked (truncated 0.50 c.window.length) (truncated 0.99 c.window.length) := by
  constructor
  · exact fun some p => percentileIndex_ascending p some
  · intro none
    rw [p50_snapshot, p99_snapshot, none]
    exact ⟨percentile_nil _, percentile_nil _⟩
  · exact fun some => percentile_orderStatistic 0.50 some
  · exact fun some => percentile_orderStatistic 0.99 some
  · exact percentile_mono ordered
  · intro d perm
    simp only [p50_snapshot, p99_snapshot, ascending_eq_of_perm perm, and_self]

/-- Both zeros, an infinity and a NaN. -/
def assorted : MetricsCollector where
  limit := 5
  activity := .none
  window := [⟨0x7ff8000000000001⟩, .zero, ⟨0x8000000000000000⟩, .zero, ⟨0xfff0000000000000⟩]
  limit_pos := by decide
  window_le := by decide

theorem snapshot_ranked_assorted :
    truncated 0.50 5 ≤ truncated 0.99 5 ∧ assorted.Ranked 2 4 := by
  have half : truncated 0.50 5 = 2 := by decide
  have most : truncated 0.99 5 = 4 := by decide
  have ordered : truncated 0.50 5 ≤ truncated 0.99 5 := by decide
  have ranked : assorted.Ranked (truncated 0.50 5) (truncated 0.99 5) :=
    snapshot_ranked assorted ordered
  rw [half, most] at ranked
  exact ⟨ordered, ranked⟩

end MetricsCollector

end Authorization
