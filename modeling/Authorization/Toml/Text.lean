import Authorization.Text.Hex
import Authorization.Toml.Reader

namespace Authorization.Toml

open Reader

def isSpace (c : Char) : Bool := c == ' ' || c == '\t'

def isForeign (c : Char) : Bool := decide (0x80 ≤ c.toNat)

def isPrintable (c : Char) : Bool := decide (0x20 ≤ c.toNat ∧ c.toNat < 0x7f)

/-- A character that may stand in a comment. -/
def isPlain (c : Char) : Bool := c == '\t' || isPrintable c || isForeign c

def isBasic (c : Char) : Bool := isPlain c && c != '"' && c != '\\'

def isLiteral (c : Char) : Bool := isPlain c && c != '\''

def isBare (c : Char) : Bool :=
  decide (('a' ≤ c ∧ c ≤ 'z') ∨ ('A' ≤ c ∧ c ≤ 'Z') ∨ ('0' ≤ c ∧ c ≤ '9')) || c == '-' || c == '_'

def spaces : Reader Unit := do
  let _ ← takeWhile isSpace

def newline : Reader Unit := do
  let _ ← skipIf (· == '\r')
  char '\n'

def isNewlineStart (c : Char) : Bool := c == '\n' || c == '\r'

def comment : Reader Unit := do
  char '#'
  let _ ← takeWhile isPlain

def lineEnd : Reader Unit := do
  match ← peek with
  | none => return ()
  | some _ => newline

/-- What may follow a value or a header on its line. -/
def restOfLine : Reader Unit := do
  spaces
  if (← peek) == some '#' then comment
  lineEnd

/-- Spaces, newlines and comments, as they may stand between the items of an array. -/
def gap : Reader Unit := do
  let _ ← repeating do
    spaces
    match ← peek with
    | some '#' =>
      comment
      newline
      return ((), true)
    | some c =>
      if isNewlineStart c then
        newline
        return ((), true)
      else return ((), false)
    | none => return ((), false)

def scalarValue (n : Nat) : Reader Char :=
  if n.isValidChar then return Char.ofNat n else failure

def hexEscape (length : Nat) : Reader Char := do
  let digits ← exactly length fun c => (hexValue? c).isSome
  scalarValue (digits.foldl (fun n c => n * 16 + (hexValue? c).getD 0) 0)

/-- The character of an escape, from behind its backslash. -/
def escapeBody : Reader Char := do
  match ← one fun _ => true with
  | 'b' => return '\x08'
  | 't' => return '\t'
  | 'n' => return '\n'
  | 'f' => return '\x0c'
  | 'r' => return '\r'
  | '"' => return '"'
  | '\\' => return '\\'
  | 'u' => hexEscape 4
  | 'U' => hexEscape 8
  | _ => failure

def basicStep : Reader (List Char × Bool) := do
  match ← one fun _ => true with
  | '"' => return ([], false)
  | '\\' => return ([← escapeBody], true)
  | c => if isBasic c then return ([c], true) else failure

def basicString : Reader String := do
  char '"'
  return String.ofList (← repeating basicStep).flatten

def literalStep : Reader (List Char × Bool) := do
  match ← one fun _ => true with
  | '\'' => return ([], false)
  | c => if isLiteral c then return ([c], true) else failure

def literalString : Reader String := do
  char '\''
  return String.ofList (← repeating literalStep).flatten

/-- One or two quotes are content. Three end the text, and up to two before them are content. -/
def quotes (quote : Char) : Reader (List Char × Bool) := do
  let run ← takeWhile (· == quote)
  if run.length ≤ 2 then return (run, true)
  else if run.length ≤ 5 then return (run.drop 3, false)
  else failure

/-- A backslash before the end of a line, with all white space up to the next character. -/
def lineContinuation : Reader Unit := do
  char '\\'
  spaces
  newline
  let _ ← repeating do
    spaces
    match ← peek with
    | some '\n' =>
      newline
      return ((), true)
    | some '\r' =>
      newline
      return ((), true)
    | _ => return ((), false)

def multilineBasicStep : Reader (List Char × Bool) := do
  match ← peek with
  | some '"' => quotes '"'
  | some '\\' =>
    match ← optional lineContinuation with
    | some _ => return ([], true)
    | none =>
      char '\\'
      return ([← escapeBody], true)
  | some c =>
    if isNewlineStart c then
      newline
      return (['\n'], true)
    else return ([← one isBasic], true)
  | none => failure

def multilineLiteralStep : Reader (List Char × Bool) := do
  match ← peek with
  | some '\'' => quotes '\''
  | some c =>
    if isNewlineStart c then
      newline
      return (['\n'], true)
    else return ([← one isLiteral], true)
  | none => failure

/-- A text between triple quotes. A newline right behind the opening ones is not part of it. -/
def multiline (quote : Char) (step : Reader (List Char × Bool)) : Reader String := do
  text [quote, quote, quote]
  let _ ← optional newline
  return String.ofList (← repeating step).flatten

def string : Reader String := do
  if ← startsWith ['"', '"', '"'] then multiline '"' multilineBasicStep
  else if ← startsWith ['"'] then basicString
  else if ← startsWith ['\'', '\'', '\''] then multiline '\'' multilineLiteralStep
  else literalString

def simpleKey : Reader String := do
  match ← peek with
  | some '"' => basicString
  | some '\'' => literalString
  | _ => return String.ofList (← takeWhile1 isBare)

/-- The greatest depth of nesting, of values in arrays and tables and of names in a key. -/
def nestingLimit : Nat := 79

/-- The names of a dotted key, the last one apart. -/
def key : Reader (List String × String) := do
  let names ← repeating do
    spaces
    let name ← simpleKey
    spaces
    return (name, ← skipIf (· == '.'))
  match names.getLast? with
  | some last => if names.length ≤ nestingLimit then return (names.dropLast, last) else failure
  | none => failure

end Authorization.Toml
