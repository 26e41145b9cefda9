import Authorization.Metrics.Collector
import Authorization.Proofs.Binary64.Exact

namespace Authorization

open Binary64

/-- A latency is recorded in milliseconds, without rounding when it is a whole number `j` of 512th
parts of a second beside its seconds. -/
theorem Duration.milliseconds_exact {seconds : UInt64} {nanos : UInt32} {j : Nat}
    (parts : nanos.toNat = j * 1953125) (fits : 512 * seconds.toNat + j < 2 ^ 43) :
    (⟨seconds, nanos⟩ : Duration).milliseconds.number =
      ((1000 * (seconds.toNat + j / 512) : ℝ) : EReal) := by
  have bound := nanos.toNat_lt
  have scaled {m : Nat} (size : m < 2 ^ 53) : Fits m (-9) := ⟨size, by omega, by omega⟩
  have seconds_eq : seconds.toFloat = ofDyadic (seconds.toNat * 2 ^ 9) (-9) := by
    have size : seconds.toNat * 2 ^ 9 < 2 ^ 53 := by omega
    rw [ofDyadic_rescale size]
    exact ofNat_eq_ofDyadic (by omega)
  have nanos_eq : nanos.toFloat / 1e9 = ofDyadic j (-9) := by
    have whole : nanos.toFloat = ofDyadic (j * 1953125) 0 := by
      rw [← parts]
      exact ofNat_eq_ofDyadic (by omega)
    have billion : (1e9 : Float) = ofDyadic 1953125 9 := rfl
    rw [whole, billion]
    exact ofDyadic_div (by omega) ⟨by omega, by omega, by omega⟩ ⟨by omega, by omega, by omega⟩
      (scaled (by omega))
  have sum : seconds.toFloat + nanos.toFloat / 1e9 =
      ofDyadic (seconds.toNat * 2 ^ 9 + j) (-9) := by
    rw [seconds_eq, nanos_eq]
    exact ofDyadic_add (scaled (by omega)) (scaled (by omega)) (scaled (by omega))
  have product : (seconds.toFloat + nanos.toFloat / 1e9) * 1000.0 =
      ofDyadic ((seconds.toNat * 2 ^ 9 + j) * 1000) (-9) := by
    have thousand : (1000.0 : Float) = ofDyadic 1000 0 := rfl
    rw [sum, thousand]
    exact ofDyadic_mul (scaled (by omega)) ⟨by omega, by omega, by omega⟩ (scaled (by omega))
  rw [milliseconds, product, number_ofDyadic (scaled (by omega)), EReal.coe_eq_coe_iff]
  push_cast
  norm_num
  ring

-- A millisecond and a half has to be rounded to be held in seconds.
example : (⟨0, 1500000⟩ : Duration).milliseconds = .ofFloat 1.5 := by decide

end Authorization
