import Authorization.Json.Schema
import Mathlib.Data.Option.Basic

namespace Authorization.Json

/-- A reader takes what is written of a value, and nothing else. -/
def Reads {α : Type} (read : Json → Option α) (write : α → Json) : Prop :=
  ∀ v a, read v = some a ↔ v = write a

theorem reads_int64 : Reads int64? fun n => .integer n.toInt := by
  intro v a
  cases v with
  | integer n =>
    have above : Int64.minValue.toInt = -2 ^ 63 := rfl
    have below : Int64.maxValue.toInt = 2 ^ 63 - 1 := rfl
    rw [int64?, Json.integer.injEq]
    constructor
    · intro taken
      split at taken
      · rename_i range
        cases taken
        rw [Int64.toInt_ofInt_of_le] <;> omega
      · cases taken
    · rintro rfl
      rw [if_pos ⟨Int64.minValue_le_toInt a, Int64.toInt_le a⟩, Int64.ofInt_toInt]
  | _ => exact ⟨nofun, nofun⟩

theorem reads_uint64 : Reads uint64? fun n => .integer n.toNat := by
  intro v a
  cases v with
  | integer n =>
    rw [uint64?, Json.integer.injEq]
    constructor
    · intro taken
      split at taken
      · rename_i range
        cases taken
        rw [UInt64.toNat_ofNat_of_lt' range.2]
        omega
      · cases taken
    · rintro rfl
      rw [if_pos ⟨Int.natCast_nonneg _, a.toNat_lt⟩, Int.toNat_natCast, UInt64.ofNat_toNat]
  | _ => exact ⟨nofun, nofun⟩

theorem reads_bool : Reads bool? .bool := by
  intro v a
  cases v with
  | bool b => rw [bool?, Option.some.injEq, Json.bool.injEq]
  | _ => exact ⟨nofun, nofun⟩

theorem reads_string : Reads string? .string := by
  intro v a
  cases v with
  | string text => rw [string?, Option.some.injEq, Json.string.injEq]
  | _ => exact ⟨nofun, nofun⟩

theorem Reads.mapM {α : Type} {read : Json → Option α} {write : α → Json}
    (reads : Reads read write) {items : List Json} {xs : List α} :
    items.mapM read = some xs ↔ items = xs.map write := by
  induction items generalizing xs with
  | nil => cases xs <;> simp
  | cons item items ih =>
    rw [List.mapM_cons]
    cases xs with
    | nil => simp [Option.bind_eq_some_iff]
    | cons x xs => simp [Option.bind_eq_some_iff, ih, reads item x]

theorem Reads.list {α : Type} {read : Json → Option α} {write : α → Json}
    (reads : Reads read write) : Reads (list? read) fun xs => .array (xs.map write) := by
  intro v xs
  cases v with
  | array items => rw [list?, Json.array.injEq, reads.mapM]
  | _ => exact ⟨nofun, nofun⟩

/-- What an object gives for a name, or else the default, if there is one. -/
def field? {α : Type} (members : List (String × Json)) (name : String) (default? : Option α)
    (read : Json → Option α) : Option α := do
  match ← member? members name with
  | some v => read v
  | none => default?

theorem field?_required {α : Type} (members : List (String × Json)) (name : String)
    (read : Json → Option α) :
    field? members name none read = (member? members name).bind (required read) := by
  refine Option.bind_congr fun given _ => ?_
  cases given <;> rfl

theorem field?_withDefault {α : Type} (members : List (String × Json)) (name : String)
    (default : α) (read : Json → Option α) :
    field? members name (some default) read =
      (member? members name).bind (withDefault default read) := by
  refine Option.bind_congr fun given _ => ?_
  cases given <;> rfl

section Members

variable {members others : List (String × Json)} {name : String}

theorem member?_eq_some_iff {given : Option Json} :
    member? members name = some given ↔
      members.countP (·.1 = name) ≤ 1 ∧ ∀ v, given = some v ↔ (name, v) ∈ members := by
  have found (v : Json) : (name, v) ∈ members ↔ (name, v) ∈ members.filter (·.1 = name) := by
    simp
  have named : ∀ m ∈ members.filter (·.1 = name), m.1 = name := fun m kept => by
    simpa using (List.mem_filter.1 kept).2
  rw [member?, List.countP_eq_length_filter]
  simp only [found]
  -- Only the members of that name count: there are none, one or several.
  generalize members.filter (·.1 = name) = kept at named
  match kept, named with
  | [], _ => simp [eq_comm, Option.eq_none_iff_forall_ne_some]
  | [(first, v)], named =>
    obtain rfl : first = name := named _ List.mem_cons_self
    constructor
    · rintro ⟨⟩
      simp [eq_comm]
    · rintro ⟨_, only⟩
      exact congrArg some ((only v).2 List.mem_cons_self).symm
  | _ :: _ :: _, _ => simp

theorem exists_member? (once : members.countP (·.1 = name) ≤ 1) :
    ∃ given, member? members name = some given := by
  rw [List.countP_eq_length_filter] at once
  unfold member?
  generalize members.filter (·.1 = name) = kept at once
  match kept, once with
  | [], _ => exact ⟨none, rfl⟩
  | [m], _ => exact ⟨some m.2, rfl⟩
  | _ :: _ :: _, once => cases Nat.le_of_succ_le_succ once

theorem eq_of_once {v w : Json} (once : members.countP (·.1 = name) ≤ 1)
    (one : (name, v) ∈ members) (another : (name, w) ∈ members) : v = w := by
  obtain ⟨given, found⟩ := exists_member? once
  have only := (member?_eq_some_iff.1 found).2
  exact Option.some.inj (((only v).2 one).symm.trans ((only w).2 another))

theorem member?_perm (same : members.Perm others) (name : String) :
    member? members name = member? others name := by
  refine Option.ext fun given => ?_
  simp only [member?_eq_some_iff, same.countP_eq, same.mem_iff]

theorem member?_foreign (before after : List (String × Json)) {foreign : String} (v : Json)
    (other : foreign ≠ name) :
    member? (before ++ (foreign, v) :: after) name = member? (before ++ after) name := by
  simp [member?, other]

/-- An entry is given once, or it is left out and has a default. -/
theorem field?_eq_some_iff {α : Type} {read : Json → Option α} {write : α → Json}
    (reads : Reads read write) {default? : Option α} {a : α} :
    field? members name default? read = some a ↔
      members.countP (·.1 = name) ≤ 1 ∧
        ((name, write a) ∈ members ∨ (∀ v, (name, v) ∉ members) ∧ default? = some a) := by
  constructor
  · intro taken
    obtain ⟨given, found, value⟩ := Option.bind_eq_some_iff.1 taken
    have ⟨once, only⟩ := member?_eq_some_iff.1 found
    refine ⟨once, ?_⟩
    cases given with
    | none => exact .inr ⟨fun v member => Option.some_ne_none v ((only v).2 member).symm, value⟩
    | some v =>
      obtain rfl := (reads v a).1 value
      exact .inl ((only _).1 rfl)
  · rintro ⟨once, given | ⟨omitted, value⟩⟩
    · have found : member? members name = some (some (write a)) :=
        member?_eq_some_iff.2 ⟨once, fun v => ⟨fun same => Option.some.inj same ▸ given,
          fun member => congrArg some (eq_of_once once given member)⟩⟩
      exact Option.bind_eq_some_iff.2 ⟨_, found, (reads _ a).2 rfl⟩
    · have found : member? members name = some none :=
        member?_eq_some_iff.2 ⟨once, fun v => ⟨nofun, fun member => (omitted v member).elim⟩⟩
      exact Option.bind_eq_some_iff.2 ⟨_, found, value⟩

end Members

/-- The types of the fields of records. -/
inductive FieldType where
  | id
  | size
  | flag
  | text
  | list (item : FieldType)

def FieldType.Admits : FieldType → Json → Prop
  | id, v => ∃ n, v = .integer n ∧ -2 ^ 63 ≤ n ∧ n < 2 ^ 63
  | size, v => ∃ n, v = .integer n ∧ 0 ≤ n ∧ n < 2 ^ 64
  | flag, v => ∃ b, v = .bool b
  | text, v => ∃ s, v = .string s
  | list item, v => ∃ items, v = .array items ∧ ∀ i ∈ items, item.Admits i

/-- A field of a record; one that is not required has a default. -/
structure Field where
  name : String
  required : Bool
  type : FieldType

/-- An object may be read as far as a field is concerned. -/
structure Field.Fits (field : Field) (members : List (String × Json)) : Prop where
  once : members.countP (·.1 = field.name) ≤ 1
  given : field.required = true → ∃ v, (field.name, v) ∈ members
  typed : ∀ v, (field.name, v) ∈ members → field.type.Admits v

/-- The values of a type are those that a reader takes. -/
def FieldType.Writes {α : Type} (type : FieldType) (write : α → Json) : Prop :=
  ∀ v, type.Admits v ↔ ∃ a, v = write a

theorem writes_int64 : FieldType.id.Writes fun n : Int64 => .integer n.toInt := by
  intro v
  constructor
  · rintro ⟨n, rfl, above, below⟩
    exact ⟨.ofInt n, congrArg _ (Int64.toInt_ofInt_of_le above below).symm⟩
  · rintro ⟨n, rfl⟩
    exact ⟨_, rfl, n.le_toInt, n.toInt_lt⟩

theorem writes_uint64 : FieldType.size.Writes fun n : UInt64 => .integer n.toNat := by
  intro v
  constructor
  · rintro ⟨n, rfl, above, below⟩
    have small : n.toNat < UInt64.size := (Int.toNat_lt above).2 below
    refine ⟨.ofNat n.toNat, congrArg _ ?_⟩
    rw [UInt64.toNat_ofNat_of_lt' small, Int.toNat_of_nonneg above]
  · rintro ⟨n, rfl⟩
    exact ⟨_, rfl, Int.natCast_nonneg _, Int.ofNat_lt.2 n.toNat_lt⟩

theorem writes_bool : FieldType.flag.Writes Json.bool := fun _ => Iff.rfl

theorem writes_string : FieldType.text.Writes Json.string := fun _ => Iff.rfl

theorem FieldType.Writes.list {α : Type} {type : FieldType} {write : α → Json}
    (writes : type.Writes write) :
    (FieldType.list type).Writes fun xs : List α => .array (xs.map write) := by
  intro v
  constructor
  · rintro ⟨items, rfl, admits⟩
    induction items with
    | nil => exact ⟨[], rfl⟩
    | cons item items ih =>
      obtain ⟨first, rest⟩ := List.forall_mem_cons.1 admits
      obtain ⟨x, rfl⟩ := (writes item).1 first
      obtain ⟨xs, same⟩ := ih rest
      exact ⟨x :: xs, congrArg _ (congrArg _ (Json.array.inj same))⟩
  · rintro ⟨xs, rfl⟩
    refine ⟨_, rfl, fun i member => ?_⟩
    obtain ⟨a, _, rfl⟩ := List.mem_map.1 member
    exact (writes _).2 ⟨a, rfl⟩

/-- A member gives the value of a field, or no member does and the field has its default. -/
def Gives (members : List (String × Json)) (name : String) (v : Json) (default : Prop) : Prop :=
  (name, v) ∈ members ∨ (∀ w, (name, w) ∉ members) ∧ default

section Entries

variable {α : Type} {read : Json → Option α} {write : α → Json} {type : FieldType}
  {members : List (String × Json)} {name : String} {a : α}

theorem fits_of_field? (reads : Reads read write) (writes : type.Writes write)
    {default? : Option α} (taken : field? members name default? read = some a) :
    (⟨name, default?.isNone, type⟩ : Field).Fits members := by
  obtain ⟨once, given | ⟨omitted, value⟩⟩ := (field?_eq_some_iff reads).1 taken
  · exact ⟨once, fun _ => ⟨_, given⟩, fun v member =>
      (writes v).2 ⟨a, eq_of_once once member given⟩⟩
  · refine ⟨once, fun required => ?_, fun v member => (omitted v member).elim⟩
    subst value
    cases required

theorem field?_required_iff (reads : Reads read write) (writes : type.Writes write) :
    field? members name none read = some a ↔
      (⟨name, true, type⟩ : Field).Fits members ∧ (name, write a) ∈ members := by
  constructor
  · intro taken
    obtain ⟨_, given | ⟨_, value⟩⟩ := (field?_eq_some_iff reads).1 taken
    · exact ⟨fits_of_field? reads writes taken, given⟩
    · cases value
  · exact fun ⟨fits, given⟩ => (field?_eq_some_iff reads).2 ⟨fits.once, .inl given⟩

theorem field?_default_iff (reads : Reads read write) (writes : type.Writes write) {d : α} :
    field? members name (some d) read = some a ↔
      (⟨name, false, type⟩ : Field).Fits members ∧ Gives members name (write a) (a = d) := by
  constructor
  · intro taken
    have ⟨_, given⟩ := (field?_eq_some_iff reads).1 taken
    exact ⟨fits_of_field? reads writes taken,
      given.imp_right fun ⟨omitted, value⟩ => ⟨omitted, (Option.some.inj value).symm⟩⟩
  · rintro ⟨fits, given⟩
    exact (field?_eq_some_iff reads).2 ⟨fits.once,
      given.imp_right fun ⟨omitted, value⟩ => ⟨omitted, congrArg some value.symm⟩⟩

theorem Field.Fits.required (writes : type.Writes write)
    (fits : (⟨name, true, type⟩ : Field).Fits members) : ∃ a, (name, write a) ∈ members := by
  obtain ⟨v, member⟩ := fits.given rfl
  obtain ⟨a, rfl⟩ := (writes v).1 (fits.typed v member)
  exact ⟨a, member⟩

theorem Field.Fits.optional (writes : type.Writes write)
    (fits : (⟨name, false, type⟩ : Field).Fits members) (d : α) :
    ∃ a, Gives members name (write a) (a = d) := by
  by_cases held : ∃ v, (name, v) ∈ members
  · obtain ⟨v, member⟩ := held
    obtain ⟨a, rfl⟩ := (writes v).1 (fits.typed v member)
    exact ⟨a, .inl member⟩
  · exact ⟨d, .inr ⟨not_exists.1 held, rfl⟩⟩

end Entries

section Fields

variable {names : List String}

theorem mapM_congr {f g : String → Option (Option Json)}
    (same : ∀ name ∈ names, f name = g name) : names.mapM f = names.mapM g := by
  induction names with
  | nil => rfl
  | cons name names ih =>
    obtain ⟨first, rest⟩ := List.forall_mem_cons.1 same
    rw [List.mapM_cons, List.mapM_cons, first, ih rest]

theorem fields?_nil_iff {α : Type} {members : List (String × Json)}
    {f : List (Option Json) → Option α} {a : α} :
    (fields? [] (.object members)).bind f = some a ↔ f [] = some a := Iff.rfl

theorem fields?_cons_iff {α : Type} {name : String} {members : List (String × Json)}
    {f : List (Option Json) → Option α} {a : α} :
    (fields? (name :: names) (.object members)).bind f = some a ↔
      ∃ given, member? members name = some given ∧
        (fields? names (.object members)).bind (fun others => f (given :: others)) = some a := by
  rw [fields?, List.mapM_cons, ← Option.bind_eq_some_iff]
  simp [Option.bind_assoc, fields?]

theorem fields?_perm {members others : List (String × Json)} (same : members.Perm others) :
    fields? names (.object members) = fields? names (.object others) :=
  mapM_congr fun _ _ => member?_perm same _

theorem fields?_foreign (before after : List (String × Json)) {foreign : String} (v : Json)
    (unknown : foreign ∉ names) :
    fields? names (.object (before ++ (foreign, v) :: after)) =
      fields? names (.object (before ++ after)) :=
  mapM_congr fun _ known => member?_foreign before after v fun same => unknown (same ▸ known)

theorem member?_zip {items : List Json} {name : String} (fresh : name ∉ names) (item : Json) :
    member? ((name, item) :: names.zip items) name = some (some item) := by
  have others : (names.zip items).filter (·.1 = name) = [] := by
    refine List.filter_eq_nil_iff.2 fun m member => ?_
    rw [decide_eq_true_eq]
    rintro rfl
    exact fresh (List.of_mem_zip member).1
  rw [member?, List.filter_cons, others]
  simp

theorem fields?_zip (distinct : names.Nodup) {items : List Json}
    (fits : items.length ≤ names.length) :
    fields? names (.object (names.zip items)) =
      some (items.map some ++ List.replicate (names.length - items.length) none) := by
  induction names generalizing items with
  | nil =>
    obtain rfl := List.length_eq_zero_iff.1 (Nat.le_zero.1 fits)
    rfl
  | cons name names ih =>
    obtain ⟨fresh, distinct⟩ := List.nodup_cons.1 distinct
    rw [fields?, List.mapM_cons]
    cases items with
    | nil =>
      have rest : names.mapM (member? []) = some (List.replicate names.length none) := by
        simpa [fields?] using @ih distinct [] (Nat.zero_le _)
      rw [List.zip_nil_right, rest]
      rfl
    | cons item items =>
      have rest := ih distinct (Nat.le_of_succ_le_succ fits)
      have same : names.mapM (member? ((name, item) :: names.zip items)) =
          names.mapM (member? (names.zip items)) :=
        mapM_congr fun _ member => member?_foreign [] _ item fun same => fresh (same ▸ member)
      rw [fields?] at rest
      rw [List.zip_cons_cons, member?_zip fresh, same, rest]
      simp

/-- An array stands for the object that gives its items to the first names, in order. -/
theorem fields?_array (distinct : names.Nodup) (items : List Json) :
    fields? names (.array items) =
      if items.length ≤ names.length then fields? names (.object (names.zip items)) else none := by
  by_cases fits : items.length ≤ names.length
  · rw [if_pos fits, fields?_zip distinct fits]
    exact if_pos fits
  · rw [if_neg fits]
    exact if_neg fits

end Fields

end Authorization.Json
