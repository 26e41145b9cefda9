import Authorization.Toml.Reader

namespace Authorization.Toml

open Reader

/-- A field of a fixed number of digits with a value between two bounds. -/
def field (width least greatest : Nat) : Reader Nat := do
  let value := Nat.ofDigitChars 10 (← exactly width Char.isDigit) 0
  if least ≤ value ∧ value ≤ greatest then return value else failure

def isLeapYear (year : Nat) : Bool :=
  decide (year % 4 = 0 ∧ (year % 100 ≠ 0 ∨ year % 400 = 0))

def daysInMonth (year month : Nat) : Nat :=
  if month = 2 then if isLeapYear year then 29 else 28
  else if month = 4 ∨ month = 6 ∨ month = 9 ∨ month = 11 then 30
  else 31

def date : Reader Unit := do
  let year ← field 4 0 9999
  char '-'
  let month ← field 2 1 12
  char '-'
  let _ ← field 2 1 (daysInMonth year month)

/-- A time of day. The second may be a leap second. -/
def time : Reader Unit := do
  let _ ← field 2 0 23
  char ':'
  let _ ← field 2 0 59
  char ':'
  let _ ← field 2 0 60
  let _ ← optional do
    char '.'
    takeWhile1 Char.isDigit

def offset : Reader Unit := do
  let c ← one fun c => c == 'Z' || c == 'z' || c == '+' || c == '-'
  if c == '+' || c == '-' then
    let _ ← field 2 0 23
    char ':'
    let _ ← field 2 0 59

def isTimeDelimiter (c : Char) : Bool := c == 'T' || c == 't' || c == ' '

def dateAndTime : Reader Unit := do
  date
  let _ ← optional do
    let _ ← one isTimeDelimiter
    time
    optional offset

def datetime : Reader String := taken (dateAndTime <|> time)

end Authorization.Toml
