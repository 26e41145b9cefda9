import Authorization.Config.Basic
import Mathlib.Data.List.Basic

namespace Authorization.Config

/-- A configuration that a resolver can be built from. -/
structure Valid (c : Config) : Prop where
  membershipCacheSize : 1 ≤ c.membershipCacheSize
  permissionCacheSize : 1 ≤ c.permissionCacheSize
  knownPermissions : ∀ name ∈ c.knownPermissions, ∃ ch ∈ name.toList, isBlank ch = false

/-- The rule that a configuration violates first: those for the sizes, then that for the names in
the order of the list. -/
inductive Violates (c : Config) : ConfigFault → Prop where
  | membershipCacheSize (zero : c.membershipCacheSize = 0) : Violates c .zeroMembershipCache
  | permissionCacheSize (membership : 1 ≤ c.membershipCacheSize)
    (zero : c.permissionCacheSize = 0) : Violates c .zeroPermissionCache
  | knownPermissions {index : Nat} {name : String}
    (membership : 1 ≤ c.membershipCacheSize) (permission : 1 ≤ c.permissionCacheSize)
    (listed : c.knownPermissions[index]? = some name)
    (blank : ∀ ch ∈ name.toList, isBlank ch = true)
    (least : ∀ j earlier, j < index → c.knownPermissions[j]? = some earlier →
      ∃ ch ∈ earlier.toList, isBlank ch = false) :
    Violates c (.blankPermission index)

theorem isBlankName_iff {name : String} :
    isBlankName name = true ↔ ∀ ch ∈ name.toList, isBlank ch = true := List.all_eq_true

theorem isBlankName_eq_false_iff {name : String} :
    isBlankName name = false ↔ ∃ ch ∈ name.toList, isBlank ch = false := by
  simp [isBlankName]

theorem one_le_iff {n : UInt64} : 1 ≤ n ↔ ¬ n = 0 := by
  have one : UInt64.toNat 1 = 1 := rfl
  have zero : UInt64.toNat 0 = 0 := rfl
  rw [UInt64.le_iff_toNat_le, ← UInt64.toNat_inj, one, zero]
  omega

theorem fault?_eq_none_iff {c : Config} : c.fault? = none ↔ c.Valid := by
  unfold fault?
  constructor
  · intro none
    split_ifs at none with membership permission
    rw [Option.map_eq_none_iff, List.findIdx?_eq_none_iff] at none
    exact ⟨one_le_iff.2 membership, one_le_iff.2 permission, fun name listed =>
      isBlankName_eq_false_iff.1 (none name listed)⟩
  · rintro ⟨membership, permission, names⟩
    rw [if_neg (one_le_iff.1 membership), if_neg (one_le_iff.1 permission),
      Option.map_eq_none_iff, List.findIdx?_eq_none_iff]
    exact fun name listed => isBlankName_eq_false_iff.2 (names name listed)

theorem findIdx?_blank_iff {names : List String} {index : Nat} :
    names.findIdx? isBlankName = some index ↔
      (∃ name, names[index]? = some name ∧ ∀ ch ∈ name.toList, isBlank ch = true) ∧
        ∀ j earlier, j < index → names[j]? = some earlier →
          ∃ ch ∈ earlier.toList, isBlank ch = false := by
  rw [List.findIdx?_eq_some_iff_getElem]
  constructor
  · rintro ⟨bound, blank, least⟩
    refine ⟨⟨names[index], List.getElem?_eq_getElem bound, isBlankName_iff.1 blank⟩, ?_⟩
    intro j earlier before listed
    obtain ⟨_, rfl⟩ := List.getElem?_eq_some_iff.1 listed
    exact isBlankName_eq_false_iff.1 (Bool.eq_false_iff.2 (least j before))
  · rintro ⟨⟨name, listed, blank⟩, least⟩
    obtain ⟨bound, rfl⟩ := List.getElem?_eq_some_iff.1 listed
    refine ⟨bound, isBlankName_iff.2 blank, fun j before => ?_⟩
    have proper := least j _ before (List.getElem?_eq_getElem (Nat.lt_trans before bound))
    exact Bool.eq_false_iff.1 (isBlankName_eq_false_iff.2 proper)

theorem fault?_eq_some_iff {c : Config} {fault : ConfigFault} :
    c.fault? = some fault ↔ c.Violates fault := by
  unfold fault?
  constructor
  · intro found
    split_ifs at found with membership permission
    · cases found
      exact .membershipCacheSize membership
    · cases found
      exact .permissionCacheSize (one_le_iff.2 membership) permission
    · obtain ⟨index, place, rfl⟩ := Option.map_eq_some_iff.1 found
      obtain ⟨⟨name, listed, blank⟩, least⟩ := findIdx?_blank_iff.1 place
      exact .knownPermissions (one_le_iff.2 membership) (one_le_iff.2 permission) listed blank least
  · intro violates
    cases violates with
    | membershipCacheSize zero => rw [if_pos zero]
    | permissionCacheSize membership zero => rw [if_neg (one_le_iff.1 membership), if_pos zero]
    | knownPermissions membership permission listed blank least =>
      rw [if_neg (one_le_iff.1 membership), if_neg (one_le_iff.1 permission),
        findIdx?_blank_iff.2 ⟨⟨_, listed, blank⟩, least⟩]
      rfl

theorem validate_ok_iff {c : Config} : c.validate = .ok () ↔ c.Valid := by
  rw [← fault?_eq_none_iff, validate]
  cases c.fault? with
  | none => exact iff_of_true rfl rfl
  | some fault => exact iff_of_false nofun nofun

theorem validate_error_iff {c : Config} {e : Error} :
    c.validate = .error e ↔ ∃ fault, c.Violates fault ∧ e = .config fault := by
  simp only [← fault?_eq_some_iff, validate]
  cases c.fault? with
  | none => exact iff_of_false nofun nofun
  | some fault => simp [eq_comm]

theorem validated_ok_iff {c d : Config} : c.validated = .ok d ↔ c.Valid ∧ d = c := by
  rw [← validate_ok_iff, validated]
  cases c.validate with
  | ok _ => simp [eq_comm]
  | error e => exact iff_of_false nofun nofun

theorem validated_error_iff {c : Config} {e : Error} :
    c.validated = .error e ↔ ∃ fault, c.Violates fault ∧ e = .config fault := by
  rw [← validate_error_iff, validated]
  cases c.validate with
  | ok _ => exact iff_of_false nofun nofun
  | error e => simp

end Authorization.Config
