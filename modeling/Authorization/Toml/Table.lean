namespace Authorization.Toml

/-- How a table came about: by its own header, as a parent in another header, by a dotted key, or
between braces. -/
inductive Origin where
  | header
  | implied
  | dotted
  | inline
  deriving DecidableEq

/-- A TOML value. Floats and times are kept as their texts. -/
inductive Value where
  | string (text : String)
  | integer (n : Int64)
  | float (text : String)
  | boolean (b : Bool)
  | datetime (text : String)
  | array (items : List Value)
  | table (origin : Origin) (members : List (String × Value))
  | tables (elements : List (List (String × Value)))

abbrev Members := List (String × Value)

namespace Members

def find? (members : Members) (name : String) : Option Value :=
  (List.find? (·.1 = name) members).map (·.2)

def replace (members : Members) (name : String) (value : Value) : Members :=
  members.map fun m => if m.1 = name then (name, value) else m

/-- Gives a new name below dotted names its value. Dotted names lead through tables that dotted keys
or headers of others made, but the table they end in must be the dotted keys' own. -/
def insertKey (name : String) (value : Value) :
    (own : Bool) → List String → Members → Option Members
  | own, [], members =>
    if own && (members.find? name).isNone then some (members ++ [(name, value)]) else none
  | _, step :: path, members =>
    match members.find? step with
    | none =>
      (insertKey name value true path []).map fun inner =>
        members ++ [(step, .table .dotted inner)]
    | some (.table .dotted inner) =>
      (insertKey name value true path inner).map fun inner =>
        members.replace step (.table .dotted inner)
    | some (.table .implied inner) =>
      (insertKey name value false path inner).map fun inner =>
        members.replace step (.table .implied inner)
    | some (.tables elements) =>
      match elements.getLast? with
      | some last =>
        (insertKey name value false path last).map fun last =>
          members.replace step (.tables (elements.dropLast ++ [last]))
      | none => none
    | some _ => none

/-- Opens the table of a header and fills it. A table may be opened once, and an array of tables
gets one more element. -/
def openLast (isArray : Bool) (name : String) (fill : Members → Option Members)
    (members : Members) : Option Members :=
  match isArray, members.find? name with
  | false, none => (fill []).map fun inner => members ++ [(name, .table .header inner)]
  | false, some (.table .implied inner) =>
    (fill inner).map fun inner => members.replace name (.table .header inner)
  | true, none => (fill []).map fun inner => members ++ [(name, .tables [inner])]
  | true, some (.tables elements) =>
    (fill []).map fun inner => members.replace name (.tables (elements ++ [inner]))
  | _, _ => none

/-- Opens the table of a header below its parents, which are made if they are missing. -/
def openTable (isArray : Bool) (name : String) (fill : Members → Option Members) :
    List String → Members → Option Members
  | [], members => openLast isArray name fill members
  | step :: path, members =>
    match members.find? step with
    | none =>
      (openTable isArray name fill path []).map fun inner =>
        members ++ [(step, .table .implied inner)]
    | some (.table .inline _) => none
    | some (.table origin inner) =>
      (openTable isArray name fill path inner).map fun inner =>
        members.replace step (.table origin inner)
    | some (.tables elements) =>
      match elements.getLast? with
      | some last =>
        (openTable isArray name fill path last).map fun last =>
          members.replace step (.tables (elements.dropLast ++ [last]))
      | none => none
    | some _ => none

end Members

/-- A key with its value, as written. -/
structure Pair where
  path : List String
  name : String
  value : Value

def Members.insertPairs (pairs : List Pair) (members : Members) : Option Members :=
  pairs.foldlM (fun members p => members.insertKey p.name p.value true p.path) members

end Authorization.Toml
