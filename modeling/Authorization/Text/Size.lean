namespace Authorization

/-- Why a text is not a size. -/
inductive SizeFault where
  | empty
  | invalidDigit
  | tooLarge
  deriving DecidableEq

def SizeFault.message : SizeFault → String
  | empty => "cannot parse integer from empty string"
  | invalidDigit => "invalid digit found in string"
  | tooLarge => "number too large to fit in target type"

namespace Size

def pushDigit (value : Nat) (c : Char) : Nat := 10 * value + (c.toNat - '0'.toNat)

/-- Reads digits onto a value. Overflow shows at the first digit that causes it, before any later
character is looked at. -/
def readDigits (value : Nat) : List Char → Except SizeFault Nat
  | [] => .ok value
  | c :: cs =>
    if c.isDigit then
      if pushDigit value c < 2 ^ 64 then readDigits (pushDigit value c) cs
      else .error .tooLarge
    else .error .invalidDigit

/-- Reads a size: an optional plus sign, then digits with a value below 2^64. -/
def read : List Char → Except SizeFault UInt64
  | [] => .error .empty
  | ['+'] => .error .invalidDigit
  | '+' :: cs => (readDigits 0 cs).map UInt64.ofNat
  | cs => (readDigits 0 cs).map UInt64.ofNat

end Size

end Authorization
