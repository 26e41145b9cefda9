import Authorization.Binary64

namespace Authorization

/-- Counts of what a resolver did, each modulo 2^64. -/
structure Activity where
  totalChecks : UInt64
  allowedChecks : UInt64
  loadErrors : UInt64
  invalidations : UInt64
  warmups : UInt64
  skippedRoles : UInt64
  deriving DecidableEq

namespace Activity

def none : Activity := ⟨0, 0, 0, 0, 0, 0⟩

def deniedChecks (a : Activity) : UInt64 :=
  if a.allowedChecks ≤ a.totalChecks then a.totalChecks - a.allowedChecks else 0

theorem allowed_add_denied {a : Activity} (fewer : a.allowedChecks.toNat ≤ a.totalChecks.toNat) :
    a.allowedChecks.toNat + a.deniedChecks.toNat = a.totalChecks.toNat := by
  have consistent : a.allowedChecks ≤ a.totalChecks := UInt64.le_iff_toNat_le.2 fewer
  rw [deniedChecks, if_pos consistent, UInt64.toNat_sub_of_le _ _ consistent]
  omega

/-- The share of checks that were allowed, zero before the first check. -/
def allowRate (a : Activity) : Binary64 :=
  if a.totalChecks = 0 then .zero
  else .ofFloat (a.allowedChecks.toFloat / a.totalChecks.toFloat)

def recordCheck (a : Activity) (allowed : Bool) : Activity :=
  { a with
    totalChecks := a.totalChecks + 1
    allowedChecks := if allowed then a.allowedChecks + 1 else a.allowedChecks }

def recordLoadError (a : Activity) : Activity := { a with loadErrors := a.loadErrors + 1 }

def recordInvalidation (a : Activity) : Activity :=
  { a with invalidations := a.invalidations + 1 }

def recordWarmup (a : Activity) (skipped : Nat) : Activity :=
  { a with
    warmups := a.warmups + 1
    skippedRoles := a.skippedRoles + UInt64.ofNat skipped }

end Activity

end Authorization
