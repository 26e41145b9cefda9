namespace Authorization

/-- A double, given by its bits: both zeros and every NaN are values of their own. -/
structure Binary64 where
  bits : UInt64
  deriving DecidableEq

namespace Binary64

def ofFloat (x : Float) : Binary64 := ⟨x.toBits⟩

def toFloat (x : Binary64) : Float := Float.ofBits x.bits

def zero : Binary64 := ⟨0⟩

/-- The place in IEEE totalOrder: patterns with the sign bit set come below the others, reversed. -/
def rank (x : Binary64) : Int :=
  if x.bits < 0x8000000000000000 then x.bits.toNat else 0x7fffffffffffffff - x.bits.toNat

def totalLE (x y : Binary64) : Bool := decide (x.rank ≤ y.rank)

def totalCompare (x y : Binary64) : Ordering := compare x.rank y.rank

end Binary64

end Authorization
