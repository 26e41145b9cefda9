import Authorization.Json.Reader
import Authorization.Json.Writer

namespace Authorization.Json

variable {α : Type}

/-- The text of a record. -/
def encode (toJson : α → Json) (a : α) : String := .ofList (toJson a).write

/-- The record that a text stands for. -/
def decode? (ofJson? : Json → Option α) (text : String) : Option α :=
  (read? text.toList).bind ofJson?

end Authorization.Json
