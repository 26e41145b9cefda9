namespace Authorization

/-- A JSON value. `real` is a number written with a fraction, an exponent or as minus zero, kept as
its text. `illFormed` is a string with an unpaired surrogate, or an object with such a name: it
obeys the grammar but stands for no text. -/
inductive Json where
  | null
  | bool (b : Bool)
  | integer (n : Int)
  | real (text : List Char)
  | string (text : String)
  | illFormed
  | array (items : List Json)
  | object (members : List (String × Json))

end Authorization
