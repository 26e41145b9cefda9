import Authorization.Config.Format
import Authorization.Directory.Format
import Authorization.Proofs.Json.Schema

namespace Authorization

open Json

/-- What a decoder of records takes: objects that fit its fields, in whatever order and whatever
else they hold, and arrays of the values of its first fields. -/
structure Json.Decodes {α : Type} (fields : List Field) (ofJson? : Json → Option α)
    (Given : List (String × Json) → α → Prop) : Prop where
  accepts : ∀ members,
    (∃ a, ofJson? (.object members) = some a) ↔ ∀ field ∈ fields, field.Fits members
  gives : ∀ members a, ofJson? (.object members) = some a ↔
    (∀ field ∈ fields, field.Fits members) ∧ Given members a
  permuted : ∀ members others : List (String × Json), members.Perm others →
    ofJson? (.object members) = ofJson? (.object others)
  foreign : ∀ before after name v, (∀ field ∈ fields, name ≠ field.name) →
    ofJson? (.object (before ++ (name, v) :: after)) = ofJson? (.object (before ++ after))
  positional : ∀ items a, ofJson? (.array items) = some a ↔
    items.length ≤ fields.length ∧
      ofJson? (.object ((fields.map (·.name)).zip items)) = some a
  others : ∀ v a, ofJson? v = some a →
    (∃ members, v = .object members) ∨ ∃ items, v = .array items

theorem Json.decodes_of {α : Type} {fields : List Field} {ofJson? : Json → Option α}
    {Given : List (String × Json) → α → Prop}
    (reads : ∃ f, ∀ v, ofJson? v = (v.fields? (fields.map (·.name))).bind f)
    (distinct : (fields.map (·.name)).Nodup)
    (complete : ∀ members, (∀ field ∈ fields, field.Fits members) → ∃ a, Given members a)
    (gives : ∀ members a, ofJson? (.object members) = some a ↔
      (∀ field ∈ fields, field.Fits members) ∧ Given members a) :
    Decodes fields ofJson? Given := by
  obtain ⟨f, reads⟩ := reads
  constructor
  · intro members
    constructor
    · rintro ⟨a, taken⟩
      exact ((gives members a).1 taken).1
    · intro fits
      obtain ⟨a, given⟩ := complete members fits
      exact ⟨a, (gives members a).2 ⟨fits, given⟩⟩
  · exact gives
  · intro members others same
    rw [reads, reads, fields?_perm same]
  · intro before after name v unknown
    rw [reads, reads, fields?_foreign]
    intro known
    obtain ⟨field, member, same⟩ := List.mem_map.1 known
    exact unknown field member same.symm
  · intro items a
    rw [reads, reads, fields?_array distinct, List.length_map]
    split <;> simp [*]
  · intro v a taken
    rw [reads] at taken
    cases v with
    | object members => exact .inl ⟨members, rfl⟩
    | array items => exact .inr ⟨items, rfl⟩
    | _ => cases taken

theorem reads_id {kind : Kind} :
    Reads (Id.ofJson? : Json → Option (Id kind)) fun id => .integer id.value.toInt := by
  intro v id
  rw [Id.ofJson?, Option.map_eq_some_iff]
  constructor
  · rintro ⟨n, taken, rfl⟩
    exact (reads_int64 v n).1 taken
  · exact fun same => ⟨id.value, (reads_int64 v _).2 same, rfl⟩

theorem writes_id {kind : Kind} : FieldType.id.Writes fun id : Id kind => .integer id.value.toInt :=
  fun v => (writes_int64 v).trans ⟨fun ⟨n, same⟩ => ⟨⟨n⟩, same⟩, fun ⟨id, same⟩ => ⟨id.value, same⟩⟩

namespace User

def fields : List Field := [⟨"id", true, .id⟩, ⟨"role_ids", false, .list .id⟩]

/-- What the members of an object say about a user. -/
structure Given (members : List (String × Json)) (user : User) : Prop where
  id : ("id", .integer user.id.value.toInt) ∈ members
  roles : Gives members "role_ids" (.array (user.roles.map fun role => .integer role.value.toInt))
    (user.roles = [])

theorem ofJson?_object {members : List (String × Json)} {user : User} :
    ofJson? (.object members) = some user ↔
      field? members "id" none Id.ofJson? = some user.id ∧
        field? members "role_ids" (some []) (list? Id.ofJson?) = some user.roles := by
  simp only [ofJson?, Option.bind_eq_bind, fields?_cons_iff, fields?_nil_iff]
  simp only [field?_required, field?_withDefault, Option.bind_eq_some_iff]
  constructor
  · rintro ⟨a, idGiven, b, rolesGiven, id, idRead, roles, rolesRead, ⟨⟩⟩
    exact ⟨⟨a, idGiven, idRead⟩, b, rolesGiven, rolesRead⟩
  · rintro ⟨⟨a, idGiven, idRead⟩, b, rolesGiven, rolesRead⟩
    exact ⟨a, idGiven, b, rolesGiven, _, idRead, _, rolesRead, rfl⟩

theorem decodes : Decodes fields ofJson? Given := by
  refine decodes_of ⟨_, fun _ => rfl⟩ (by decide) (fun members fits => ?_) fun members user => ?_
  · simp only [fields, List.forall_mem_cons] at fits
    obtain ⟨id, idGiven⟩ := fits.1.required writes_id
    obtain ⟨roles, rolesGiven⟩ := fits.2.1.optional writes_id.list []
    exact ⟨⟨id, roles⟩, idGiven, rolesGiven⟩
  · rw [ofJson?_object, field?_required_iff reads_id writes_id,
      field?_default_iff reads_id.list writes_id.list]
    simp only [fields, List.forall_mem_cons]
    constructor
    · rintro ⟨⟨idFits, id⟩, rolesFit, roles⟩
      exact ⟨⟨idFits, rolesFit, nofun⟩, id, roles⟩
    · rintro ⟨⟨idFits, rolesFit, _⟩, id, roles⟩
      exact ⟨⟨idFits, id⟩, rolesFit, roles⟩

end User

namespace PermissionRecord

def fields : List Field := [⟨"id", true, .id⟩, ⟨"name", true, .text⟩]

structure Given (members : List (String × Json)) (record : PermissionRecord) : Prop where
  id : ("id", .integer record.id.value.toInt) ∈ members
  name : ("name", .string record.name) ∈ members

theorem ofJson?_object {members : List (String × Json)} {record : PermissionRecord} :
    ofJson? (.object members) = some record ↔
      field? members "id" none Id.ofJson? = some record.id ∧
        field? members "name" none string? = some record.name := by
  simp only [ofJson?, Option.bind_eq_bind, fields?_cons_iff, fields?_nil_iff]
  simp only [field?_required, Option.bind_eq_some_iff]
  constructor
  · rintro ⟨a, idGiven, b, nameGiven, id, idRead, name, nameRead, ⟨⟩⟩
    exact ⟨⟨a, idGiven, idRead⟩, b, nameGiven, nameRead⟩
  · rintro ⟨⟨a, idGiven, idRead⟩, b, nameGiven, nameRead⟩
    exact ⟨a, idGiven, b, nameGiven, _, idRead, _, nameRead, rfl⟩

theorem decodes : Decodes fields ofJson? Given := by
  refine decodes_of ⟨_, fun _ => rfl⟩ (by decide) (fun members fits => ?_) fun members record => ?_
  · simp only [fields, List.forall_mem_cons] at fits
    obtain ⟨id, idGiven⟩ := fits.1.required writes_id
    obtain ⟨name, nameGiven⟩ := fits.2.1.required writes_string
    exact ⟨⟨id, name⟩, idGiven, nameGiven⟩
  · rw [ofJson?_object, field?_required_iff reads_id writes_id,
      field?_required_iff reads_string writes_string]
    simp only [fields, List.forall_mem_cons]
    constructor
    · rintro ⟨⟨idFits, id⟩, nameFits, name⟩
      exact ⟨⟨idFits, nameFits, nofun⟩, id, name⟩
    · rintro ⟨⟨idFits, nameFits, _⟩, id, name⟩
      exact ⟨⟨idFits, id⟩, nameFits, name⟩

end PermissionRecord

namespace Role

def fields : List Field :=
  [⟨"id", true, .id⟩, ⟨"organization_id", true, .id⟩, ⟨"name", true, .text⟩,
    ⟨"system_name", true, .text⟩, ⟨"permissions", false, .list .text⟩, ⟨"deleted", false, .flag⟩]

/-- What the members of an object say about a role. Its permissions may be listed in any order and
more than once; a role holds them in ascending order, each once. -/
structure Given (members : List (String × Json)) (role : Role) : Prop where
  id : ("id", .integer role.id.value.toInt) ∈ members
  organization : ("organization_id", .integer role.organization.value.toInt) ∈ members
  name : ("name", .string role.name) ∈ members
  systemName : ("system_name", .string role.systemName) ∈ members
  permissions : ∃ listed : List String,
    Gives members "permissions" (.array (listed.map .string)) (listed = []) ∧
      ∀ permission, permission ∈ role.permissions ↔ permission ∈ listed
  deleted : Gives members "deleted" (.bool role.deleted) (role.deleted = false)

theorem ofJson?_object {members : List (String × Json)} {role : Role} :
    ofJson? (.object members) = some role ↔
      field? members "id" none Id.ofJson? = some role.id ∧
        field? members "organization_id" none Id.ofJson? = some role.organization ∧
        field? members "name" none string? = some role.name ∧
        field? members "system_name" none string? = some role.systemName ∧
        (∃ listed, field? members "permissions" (some []) (list? string?) = some listed ∧
          .ofList listed = role.permissions) ∧
        field? members "deleted" (some false) bool? = some role.deleted := by
  simp only [ofJson?, Option.bind_eq_bind, fields?_cons_iff, fields?_nil_iff]
  simp only [field?_required, field?_withDefault, Option.bind_eq_some_iff]
  constructor
  · rintro ⟨a, idGiven, b, organizationGiven, c, nameGiven, d, systemNameGiven, e, permissionsGiven,
      f, deletedGiven, id, idRead, organization, organizationRead, name, nameRead, systemName,
      systemNameRead, listed, permissionsRead, deleted, deletedRead, ⟨⟩⟩
    exact ⟨⟨a, idGiven, idRead⟩, ⟨b, organizationGiven, organizationRead⟩, ⟨c, nameGiven, nameRead⟩,
      ⟨d, systemNameGiven, systemNameRead⟩, ⟨listed, ⟨e, permissionsGiven, permissionsRead⟩, rfl⟩,
      f, deletedGiven, deletedRead⟩
  · rintro ⟨⟨a, idGiven, idRead⟩, ⟨b, organizationGiven, organizationRead⟩, ⟨c, nameGiven, nameRead⟩,
      ⟨d, systemNameGiven, systemNameRead⟩, ⟨listed, ⟨e, permissionsGiven, permissionsRead⟩, same⟩,
      f, deletedGiven, deletedRead⟩
    refine ⟨a, idGiven, b, organizationGiven, c, nameGiven, d, systemNameGiven, e, permissionsGiven,
      f, deletedGiven, _, idRead, _, organizationRead, _, nameRead, _, systemNameRead, _,
      permissionsRead, _, deletedRead, ?_⟩
    rw [same]
    rfl

theorem ofList_eq_iff {listed : List String} {permissions : OrderedSet String} :
    .ofList listed = permissions ↔ ∀ permission, permission ∈ permissions ↔ permission ∈ listed := by
  constructor
  · rintro rfl permission
    exact OrderedSet.mem_ofList
  · exact fun same => OrderedSet.ext_mem fun x => OrderedSet.mem_ofList.trans (same x).symm

theorem decodes : Decodes fields ofJson? Given := by
  refine decodes_of ⟨_, fun _ => rfl⟩ (by decide) (fun members fits => ?_) fun members role => ?_
  · simp only [fields, List.forall_mem_cons] at fits
    obtain ⟨idFits, organizationFits, nameFits, systemNameFits, permissionsFit, deletedFits, _⟩ :=
      fits
    obtain ⟨id, idGiven⟩ := idFits.required writes_id
    obtain ⟨organization, organizationGiven⟩ := organizationFits.required writes_id
    obtain ⟨name, nameGiven⟩ := nameFits.required writes_string
    obtain ⟨systemName, systemNameGiven⟩ := systemNameFits.required writes_string
    obtain ⟨listed, permissionsGiven⟩ := permissionsFit.optional writes_string.list []
    obtain ⟨deleted, deletedGiven⟩ := deletedFits.optional writes_bool false
    exact ⟨⟨id, organization, name, systemName, .ofList listed, deleted⟩, idGiven,
      organizationGiven, nameGiven, systemNameGiven,
      ⟨listed, permissionsGiven, ofList_eq_iff.1 rfl⟩, deletedGiven⟩
  · rw [ofJson?_object, field?_required_iff reads_id writes_id,
      field?_required_iff reads_id writes_id, field?_required_iff reads_string writes_string,
      field?_required_iff reads_string writes_string,
      field?_default_iff reads_bool writes_bool]
    simp only [fields, List.forall_mem_cons, field?_default_iff reads_string.list writes_string.list,
      ofList_eq_iff]
    constructor
    · rintro ⟨⟨idFits, id⟩, ⟨organizationFits, organization⟩, ⟨nameFits, name⟩,
        ⟨systemNameFits, systemName⟩, ⟨listed, ⟨permissionsFit, permissions⟩, same⟩,
        deletedFits, deleted⟩
      exact ⟨⟨idFits, organizationFits, nameFits, systemNameFits, permissionsFit, deletedFits, nofun⟩,
        id, organization, name, systemName, ⟨listed, permissions, same⟩, deleted⟩
    · rintro ⟨⟨idFits, organizationFits, nameFits, systemNameFits, permissionsFit, deletedFits, _⟩,
        id, organization, name, systemName, ⟨listed, permissions, same⟩, deleted⟩
      exact ⟨⟨idFits, id⟩, ⟨organizationFits, organization⟩, ⟨nameFits, name⟩,
        ⟨systemNameFits, systemName⟩, ⟨listed, ⟨permissionsFit, permissions⟩, same⟩,
        deletedFits, deleted⟩

end Role

namespace Config

def fields : List Field :=
  [⟨"membership_cache_size", false, .size⟩, ⟨"permission_cache_size", false, .size⟩,
    ⟨"warmup_on_start", false, .flag⟩, ⟨"known_permissions", false, .list .text⟩]

structure Given (members : List (String × Json)) (c : Config) : Prop where
  membershipCacheSize : Gives members "membership_cache_size"
    (.integer c.membershipCacheSize.toNat) (c.membershipCacheSize = 10000)
  permissionCacheSize : Gives members "permission_cache_size"
    (.integer c.permissionCacheSize.toNat) (c.permissionCacheSize = 1000)
  warmupOnStart : Gives members "warmup_on_start" (.bool c.warmupOnStart) (c.warmupOnStart = true)
  knownPermissions : Gives members "known_permissions"
    (.array (c.knownPermissions.map .string)) (c.knownPermissions = [])

theorem ofJson?_object {members : List (String × Json)} {c : Config} :
    ofJson? (.object members) = some c ↔
      field? members "membership_cache_size" (some 10000) uint64? = some c.membershipCacheSize ∧
        field? members "permission_cache_size" (some 1000) uint64? = some c.permissionCacheSize ∧
        field? members "warmup_on_start" (some true) bool? = some c.warmupOnStart ∧
        field? members "known_permissions" (some []) (list? string?) = some c.knownPermissions := by
  simp only [ofJson?, Option.bind_eq_bind, fields?_cons_iff, fields?_nil_iff]
  simp only [field?_withDefault, Option.bind_eq_some_iff]
  constructor
  · rintro ⟨a, membershipGiven, b, permissionGiven, c, warmupGiven, d, knownGiven, membership,
      membershipRead, permission, permissionRead, warmup, warmupRead, known, knownRead, ⟨⟩⟩
    exact ⟨⟨a, membershipGiven, membershipRead⟩, ⟨b, permissionGiven, permissionRead⟩,
      ⟨c, warmupGiven, warmupRead⟩, d, knownGiven, knownRead⟩
  · rintro ⟨⟨a, membershipGiven, membershipRead⟩, ⟨b, permissionGiven, permissionRead⟩,
      ⟨c, warmupGiven, warmupRead⟩, d, knownGiven, knownRead⟩
    exact ⟨a, membershipGiven, b, permissionGiven, c, warmupGiven, d, knownGiven, _,
      membershipRead, _, permissionRead, _, warmupRead, _, knownRead, rfl⟩

theorem decodes : Decodes fields ofJson? Given := by
  refine decodes_of ⟨_, fun _ => rfl⟩ (by decide) (fun members fits => ?_) fun members c => ?_
  · simp only [fields, List.forall_mem_cons] at fits
    obtain ⟨membershipFits, permissionFits, warmupFits, knownFit, _⟩ := fits
    obtain ⟨membership, membershipGiven⟩ := membershipFits.optional writes_uint64 10000
    obtain ⟨permission, permissionGiven⟩ := permissionFits.optional writes_uint64 1000
    obtain ⟨warmup, warmupGiven⟩ := warmupFits.optional writes_bool true
    obtain ⟨known, knownGiven⟩ := knownFit.optional writes_string.list []
    exact ⟨⟨membership, permission, warmup, known⟩, membershipGiven, permissionGiven, warmupGiven,
      knownGiven⟩
  · rw [ofJson?_object, field?_default_iff reads_uint64 writes_uint64,
      field?_default_iff reads_uint64 writes_uint64, field?_default_iff reads_bool writes_bool,
      field?_default_iff reads_string.list writes_string.list]
    simp only [fields, List.forall_mem_cons]
    constructor
    · rintro ⟨⟨membershipFits, membership⟩, ⟨permissionFits, permission⟩, ⟨warmupFits, warmup⟩,
        knownFit, known⟩
      exact ⟨⟨membershipFits, permissionFits, warmupFits, knownFit, nofun⟩, membership, permission,
        warmup, known⟩
    · rintro ⟨⟨membershipFits, permissionFits, warmupFits, knownFit, _⟩, membership, permission,
        warmup, known⟩
      exact ⟨⟨membershipFits, membership⟩, ⟨permissionFits, permission⟩, ⟨warmupFits, warmup⟩,
        knownFit, known⟩

end Config

/-- Every kind of record is read from exactly the objects and arrays of its format. -/
theorem Json.decodes_records :
    Decodes User.fields User.ofJson? User.Given ∧ Decodes Role.fields Role.ofJson? Role.Given ∧
      Decodes PermissionRecord.fields PermissionRecord.ofJson? PermissionRecord.Given ∧
      Decodes Config.fields Config.ofJson? Config.Given :=
  ⟨User.decodes, Role.decodes, PermissionRecord.decodes, Config.decodes⟩

end Authorization
