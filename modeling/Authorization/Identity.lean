namespace Authorization

inductive Kind where
  | user
  | role
  | organization
  | permission
  deriving DecidableEq

def Kind.label : Kind → String
  | .user => "user"
  | .role => "role"
  | .organization => "org"
  | .permission => "permission"

/-- A 64-bit identifier; identifiers of different kinds are never mixed. -/
structure Id (kind : Kind) where
  value : Int64
  deriving DecidableEq

abbrev UserId := Id .user
abbrev RoleId := Id .role
abbrev OrganizationId := Id .organization
abbrev PermissionId := Id .permission

namespace Id

variable {kind : Kind}

def display (id : Id kind) : String := kind.label ++ ":" ++ toString id.value.toInt

instance : LE (Id kind) := ⟨fun a b => a.value ≤ b.value⟩

instance : LT (Id kind) := ⟨fun a b => a.value < b.value⟩

instance : DecidableLE (Id kind) := fun a b => inferInstanceAs (Decidable (a.value ≤ b.value))

instance : DecidableLT (Id kind) := fun a b => inferInstanceAs (Decidable (a.value < b.value))

instance : Std.IsLinearOrder (Id kind) where
  le_refl a := Std.le_refl a.value
  le_trans _ _ _ ab bc := Std.le_trans (α := Int64) ab bc
  le_antisymm a b ab ba := by
    cases a
    cases b
    exact congrArg Id.mk (Std.le_antisymm (α := Int64) ab ba)
  le_total a b := Std.le_total (a := a.value) (b := b.value)

instance : Std.LawfulOrderLT (Id kind) where
  lt_iff a b := Std.lt_iff_le_and_not_ge (a := a.value) (b := b.value)

theorem lt_next {id : Id kind} (before : id.value ≠ Int64.maxValue) : id < ⟨id.value + 1⟩ := by
  show id.value < id.value + 1
  grind

end Id

namespace OrganizationId

/-- The scope of every organization. Zero is an ordinary organization. -/
def any : OrganizationId := ⟨Int64.minValue⟩

def isAny (scope : OrganizationId) : Bool := scope == any

/-- Whether what `owner` owns is visible in a scope. -/
def admits (scope owner : OrganizationId) : Bool := scope.isAny || scope == owner

end OrganizationId

end Authorization
