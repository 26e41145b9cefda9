import Authorization.Toml.Datetime
import Authorization.Toml.Number
import Authorization.Toml.Table
import Authorization.Toml.Text

namespace Authorization.Toml

open Reader

def scalar : Reader Value := do
  match ← peek with
  | some '"' => .string <$> string
  | some '\'' => .string <$> string
  | some 't' =>
    text ['t', 'r', 'u', 'e']
    return .boolean true
  | some 'f' =>
    text ['f', 'a', 'l', 's', 'e']
    return .boolean false
  | some _ => (.datetime <$> datetime) <|> (.float <$> float) <|> (.integer <$> integer)
  | none => failure

def arrayStep (item : Reader Value) : Reader (List Value × Bool) := do
  gap
  if ← skipIf (· == ']') then return ([], false)
  let value ← item
  gap
  if ← skipIf (· == ',') then return ([value], true)
  char ']'
  return ([value], false)

def array (item : Reader Value) : Reader Value := do
  char '['
  return .array (← repeating (arrayStep item)).flatten

def pair (item : Reader Value) : Reader Pair := do
  let (path, name) ← key
  char '='
  spaces
  return ⟨path, name, ← item⟩

def inlineStep (item : Reader Value) : Reader (Pair × Bool) := do
  let p ← pair item
  spaces
  if ← skipIf (· == ',') then return (p, true)
  char '}'
  return (p, false)

def closeInline (pairs : List Pair) : Reader Value := do
  return .table .inline (← (Members.insertPairs pairs [] : Option Members))

def inlineTable (item : Reader Value) : Reader Value := do
  char '{'
  spaces
  if ← skipIf (· == '}') then closeInline []
  else closeInline (← repeating (inlineStep item))

/-- A value that nests at most `depth` arrays and inline tables. -/
def value : (depth : Nat) → Reader Value
  | 0 => scalar
  | depth + 1 => do
    match ← peek with
    | some '[' => array (value depth)
    | some '{' => inlineTable (value depth)
    | _ => scalar

inductive Line where
  | pair (pair : Pair)
  | header (isArray : Bool) (path : List String) (name : String)

def header : Reader Line := do
  if ← startsWith ['[', '['] then
    text ['[', '[']
    let (path, name) ← key
    text [']', ']']
    return .header true path name
  else
    char '['
    let (path, name) ← key
    char ']'
    return .header false path name

def lineStep : Reader (List Line × Bool) := do
  spaces
  match ← peek with
  | none => return ([], false)
  | some '#' =>
    restOfLine
    return ([], true)
  | some '[' =>
    let line ← header
    restOfLine
    return ([line], true)
  | some c =>
    if isNewlineStart c then
      newline
      return ([], true)
    else
      let p ← pair (value nestingLimit)
      restOfLine
      return ([.pair p], true)

/-- A header with the pairs below it. -/
structure Section where
  isArray : Bool
  path : List String
  name : String
  pairs : List Pair

/-- The pairs before the first header, and the sections. -/
def sections (lines : List Line) : List Pair × List Section :=
  lines.foldr (fun line (pairs, rest) =>
    match line with
    | .pair p => (p :: pairs, rest)
    | .header isArray path name => ([], ⟨isArray, path, name, pairs⟩ :: rest)) ([], [])

def assemble (lines : List Line) : Option Members := do
  let (pairs, rest) := sections lines
  let root ← Members.insertPairs pairs []
  rest.foldlM (fun members s =>
    members.openTable s.isArray s.name (Members.insertPairs s.pairs) s.path) root

def withoutMark : List Char → List Char
  | '\ufeff' :: cs => cs
  | cs => cs

/-- The root table of a document, which may start with a byte order mark. -/
def read? (cs : List Char) : Option Members :=
  match repeating lineStep (withoutMark cs) with
  | some (lines, []) => assemble lines.flatten
  | _ => none

end Authorization.Toml
