import Authorization.Config.Basic

namespace Authorization

/-- The value of each variable that is set. -/
abbrev Environment := String → Option String

/-- The value of a variable, which counts as unset if its bytes are not UTF-8. -/
def Environment.value? (bytes : ByteArray) : Option String := String.fromUTF8? bytes

namespace Config

def membershipVariable : String := "KEYWARD_MEMBERSHIP_CACHE_SIZE"

def permissionVariable : String := "KEYWARD_PERMISSION_CACHE_SIZE"

def warmupVariable : String := "KEYWARD_WARMUP_ON_START"

def readSize (cs : List Char) : Except ValueFault UInt64 := (Size.read cs).mapError .size

def readFlag (cs : List Char) : Except ValueFault Bool :=
  if cs = ['t', 'r', 'u', 'e'] then .ok true
  else if cs = ['f', 'a', 'l', 's', 'e'] then .ok false
  else .error .notFlag

/-- The value of a variable without the blanks around it, or the present value if it is unset. -/
def override {α : Type} (environment : Environment) (setting : String)
    (read : List Char → Except ValueFault α) (present : α) : Except Error α :=
  match environment setting with
  | none => .ok present
  | some value =>
    (read (trimBlanks value.toList)).mapError fun fault => .config (.badValue setting value fault)

/-- Replaces what the environment sets and validates the result. -/
def withOverrides (c : Config) (environment : Environment) : Except Error Config := do
  let membershipCacheSize ←
    override environment membershipVariable readSize c.membershipCacheSize
  let permissionCacheSize ←
    override environment permissionVariable readSize c.permissionCacheSize
  let warmupOnStart ← override environment warmupVariable readFlag c.warmupOnStart
  validated { c with membershipCacheSize, permissionCacheSize, warmupOnStart }

def ofEnvironment (environment : Environment) : Except Error Config :=
  default.withOverrides environment

end Config

end Authorization
