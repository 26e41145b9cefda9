namespace Authorization.Toml

/-- Takes something off the front of a text, or fails. -/
abbrev Reader := StateT (List Char) Option

namespace Reader

variable {α : Type}

def peek : Reader (Option Char) := fun cs => some (cs.head?, cs)

def startsWith (text : List Char) : Reader Bool := fun cs => some (text.isPrefixOf cs, cs)

def one (accept : Char → Bool) : Reader Char
  | c :: cs => if accept c then some (c, cs) else none
  | [] => none

def char (c : Char) : Reader Unit := do
  let _ ← one (· == c)

def text : List Char → Reader Unit
  | [] => pure ()
  | c :: cs => do
    char c
    text cs

def skipIf (accept : Char → Bool) : Reader Bool
  | c :: cs => if accept c then some (true, cs) else some (false, c :: cs)
  | [] => some (false, [])

def takeWhile (accept : Char → Bool) : Reader (List Char) := fun cs =>
  some (cs.takeWhile accept, cs.dropWhile accept)

def takeWhile1 (accept : Char → Bool) : Reader (List Char) := fun cs =>
  if (cs.takeWhile accept).isEmpty then none
  else some (cs.takeWhile accept, cs.dropWhile accept)

/-- Takes exactly `n` characters. -/
def exactly (n : Nat) (accept : Char → Bool) : Reader (List Char) := fun cs =>
  if (cs.take n).length = n ∧ (cs.take n).all accept then some (cs.take n, cs.drop n) else none

/-- The text that a reader takes. -/
def taken (reader : Reader α) : Reader String := fun cs =>
  match reader cs with
  | some (_, rest) => some (String.ofList (cs.take (cs.length - rest.length)), rest)
  | none => none

def repeatSteps (step : Reader (α × Bool)) : Nat → Reader (List α)
  | 0 => failure
  | n + 1 => do
    let (a, more) ← step
    if more then return a :: (← repeatSteps step n) else return [a]

/-- Repeats a step until it says that it was the last one. A step that goes on takes a character. -/
def repeating (step : Reader (α × Bool)) : Reader (List α) := fun cs =>
  repeatSteps step (cs.length + 1) cs

end Reader

end Authorization.Toml
