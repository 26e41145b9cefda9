import Authorization.Text.Hex
import Authorization.Toml.Reader

namespace Authorization.Toml

open Reader

/-- Digits behind a first one; an underscore may stand between two digits. -/
def moreDigits (accept : Char → Bool) : List Char → List Char × List Char
  | '_' :: d :: rest =>
    if accept d then
      let (digits, rest) := moreDigits accept rest
      (d :: digits, rest)
    else ([], '_' :: d :: rest)
  | d :: rest =>
    if accept d then
      let (digits, rest) := moreDigits accept rest
      (d :: digits, rest)
    else ([], d :: rest)
  | [] => ([], [])

def digitRun (accept : Char → Bool) : Reader (List Char) := do
  let first ← one accept
  return first :: (← fun cs => some (moreDigits accept cs))

/-- The digits of a decimal integer: zero alone, or digits that do not start with zero. -/
def wholeDigits : Reader (List Char) := do
  if ← skipIf (· == '0') then return ['0'] else digitRun Char.isDigit

/-- Takes a sign and tells whether it is a minus. -/
def sign : Reader Bool := do
  match ← optional (one fun c => c == '+' || c == '-') with
  | some c => return c == '-'
  | none => return false

def int64 (n : Int) : Reader Int64 :=
  if Int64.minValue.toInt ≤ n ∧ n ≤ Int64.maxValue.toInt then return Int64.ofInt n else failure

def isHexDigit (c : Char) : Bool := (hexValue? c).isSome

def radixInteger (base : Nat) (accept : Char → Bool) : Reader Int64 := do
  let digits ← digitRun accept
  int64 (digits.foldl (fun n c => n * base + (hexValue? c).getD 0) 0 : Nat)

def integer : Reader Int64 := do
  if ← startsWith ['0', 'x'] then
    text ['0', 'x']
    radixInteger 16 isHexDigit
  else if ← startsWith ['0', 'o'] then
    text ['0', 'o']
    radixInteger 8 fun c => decide ('0' ≤ c ∧ c ≤ '7')
  else if ← startsWith ['0', 'b'] then
    text ['0', 'b']
    radixInteger 2 fun c => c == '0' || c == '1'
  else
    let negative ← sign
    let digits ← wholeDigits
    let magnitude := Nat.ofDigitChars 10 digits 0
    int64 (if negative then -magnitude else magnitude)

/-- The least value that rounds to infinity, half a unit above the greatest finite double. -/
def doubleOverflow : Nat := Nat.pow 2 1024 - Nat.pow 2 970

/-- Whether `digits` times the given power of ten rounds to a finite double. -/
def isFiniteDecimal (digits : List Char) (exponent : Int) : Bool :=
  let significant := digits.dropWhile (· == '0')
  let magnitude := significant.length + exponent
  if significant.isEmpty || magnitude < 300 then true
  else if 320 < magnitude then false
  else if 0 ≤ exponent then
    decide (Nat.ofDigitChars 10 significant 0 * Nat.pow 10 exponent.toNat < doubleOverflow)
  else decide (Nat.ofDigitChars 10 significant 0 < doubleOverflow * Nat.pow 10 (-exponent).toNat)

def fraction : Reader (List Char) := do
  char '.'
  digitRun Char.isDigit

def exponent : Reader Int := do
  let _ ← one fun c => c == 'e' || c == 'E'
  let negative ← sign
  let digits ← digitRun Char.isDigit
  let magnitude := Nat.ofDigitChars 10 digits 0
  return if negative then -magnitude else magnitude

/-- A number with a fraction or an exponent. A positive one must not round to infinity. -/
def decimalFloat : Reader Unit := do
  let negative ← sign
  let whole ← wholeDigits
  let part ← optional fraction
  let scale ← match part with
    | some _ => optional exponent
    | none => some <$> exponent
  let fractional := part.getD []
  if negative || isFiniteDecimal (whole ++ fractional) (scale.getD 0 - fractional.length) then
    return ()
  else failure

def specialFloat : Reader Unit := do
  let _ ← sign
  text ['i', 'n', 'f'] <|> text ['n', 'a', 'n']

def float : Reader String := taken (decimalFloat <|> specialFloat)

end Authorization.Toml
