import Authorization.Proofs.Catalog.Growth
import Authorization.Proofs.Queries.Call

namespace Authorization

/-- A listing that was taken in is what the catalog is consulted after. It counts until the work at
hand turns to something else. -/
def Request.lists (listed : Prop) : (request : Request) → Except Error request.Answer → Prop
  | .listPermissions, .ok _ => True
  | .listPermissions, .error _ => listed
  | .createPermission _, _ => listed
  | _, _ => False

variable {α β : Type} {listed more : Prop}

/-- Work that consults the catalog, or has a permission created, only after it has listed them. -/
def Program.Heeds (listed : Prop) : Program α → Prop
  | .done _ => True
  | .act a next =>
    (∀ name, a = .knowsPermission name → listed) ∧ ∀ found, (next found).Heeds listed
  | .ask request next =>
    (∀ name, request = .createPermission name → listed) ∧
      ∀ given, (next given).Heeds (request.lists listed given)
  | .loadRoles _ next => ∀ loads, (next loads).Heeds False

theorem Request.lists_mono (weaken : listed → more) {request : Request}
    {given : Except Error request.Answer} (lists : request.lists listed given) :
    request.lists more given := by
  match request, given with
  | .listPermissions, .ok _ => trivial
  | .listPermissions, .error _ | .createPermission _, _ => exact weaken lists
  | .loadUser _, _ | .loadRole _, _ | .listRoles, _ | .write _, _ => exact lists.elim

namespace Program

theorem Heeds.mono {p : Program α} (heeds : p.Heeds listed) (weaken : listed → more) :
    p.Heeds more := by
  induction p generalizing listed more with
  | done _ => trivial
  | act a next ih =>
    exact ⟨fun name same => weaken (heeds.1 name same),
      fun found => ih found (heeds.2 found) weaken⟩
  | ask request next ih =>
    exact ⟨fun name same => weaken (heeds.1 name same),
      fun given => ih given (heeds.2 given) (Request.lists_mono weaken)⟩
  | loadRoles roles next ih => exact fun loads => ih loads (heeds loads) id

/-- What follows may not count on a listing by what went before. -/
theorem Heeds.bind {p : Program α} {f : α → Program β} (first : p.Heeds listed)
    (rest : ∀ a, (f a).Heeds False) : (p >>= f).Heeds listed := by
  induction p generalizing listed with
  | done a => exact (rest a).mono False.elim
  | act a next ih => exact ⟨first.1, fun found => ih found (first.2 found)⟩
  | ask request next ih => exact ⟨first.1, fun given => ih given (first.2 given)⟩
  | loadRoles roles next ih => exact fun loads => ih loads (first loads)

end Program

namespace Query

/-- Work that may fail and consults the catalog after listing only. -/
def Heeds (listed : Prop) (q : Query α) : Prop := q.run.Heeds listed

theorem Heeds.bind {q : Query α} {f : α → Query β} (first : q.Heeds listed)
    (rest : ∀ a, (f a).Heeds False) : (q >>= f).Heeds listed := by
  apply Program.Heeds.bind first
  intro outcome
  cases outcome with
  | ok a => exact rest a
  | error _ => trivial

theorem heeds_membership (user : UserId) : (membership user).Heeds False := by
  refine ⟨nofun, fun found => ?_⟩
  cases found with
  | some _ => trivial
  | none =>
    refine ⟨nofun, fun given => ?_⟩
    cases given <;> trivial

theorem heeds_roleGrant (role : RoleId) : (roleGrant role).Heeds False := by
  refine ⟨nofun, fun found => ?_⟩
  cases found with
  | some _ => trivial
  | none =>
    refine ⟨nofun, fun given => ?_⟩
    cases given <;> trivial

theorem heeds_grantedByOne (scope : OrganizationId) (permission : String) (roles : List RoleId) :
    (grantedByOne scope permission roles).Heeds False := by
  induction roles with
  | nil => trivial
  | cons role roles ih =>
    apply (heeds_roleGrant role).bind
    intro g
    split
    · trivial
    · exact ih

theorem heeds_grantedByAll (scope : OrganizationId) (granted : OrderedSet String)
    (roles : List RoleId) : (grantedByAll scope granted roles).Heeds False := by
  induction roles generalizing granted with
  | nil => trivial
  | cons role roles ih => exact (heeds_roleGrant role).bind fun g => ih _

theorem heeds_hasPermission (user : UserId) (scope : OrganizationId) (permission : String) :
    (hasPermission user scope permission).Heeds False := by
  apply (heeds_membership user).bind
  intro m
  apply (heeds_grantedByOne scope permission m.roles).bind
  intro allowed
  exact ⟨nofun, fun _ => trivial⟩

/-- Once the permissions are listed, the catalog stays listed while the missing ones are created. -/
theorem heeds_createMissing (created : Nat) (names : List String) :
    (createMissing created names).Heeds True := by
  induction names generalizing created with
  | nil => trivial
  | cons name names ih =>
    refine ⟨fun _ _ => trivial, fun known => ?_⟩
    cases known with
    | true => exact ih created
    | false =>
      refine ⟨fun _ _ => trivial, fun outcome => ?_⟩
      cases outcome with
      | ok id => exact ih (created + 1)
      | error failure =>
        refine ⟨nofun, fun listing => ?_⟩
        cases listing with
        | error _ => trivial
        | ok records =>
          refine ⟨fun _ _ => trivial, fun there => ?_⟩
          cases there with
          | true => exact ih created
          | false => trivial

theorem heeds_ensurePermissions (names : List String) : (ensurePermissions names).Heeds False := by
  refine ⟨nofun, fun given => ?_⟩
  cases given with
  | ok records => exact heeds_createMissing 0 names
  | error _ => trivial

theorem heeds_warmRoles (projection : Option Projection) (created : Nat) :
    (warmRoles projection created).Heeds False := by
  match projection with
  | none => exact ⟨nofun, fun _ => trivial⟩
  | some (.fixed roles) => exact fun loads => ⟨nofun, fun _ => trivial⟩
  | some .directory =>
    refine ⟨nofun, fun given => ?_⟩
    cases given with
    | ok roles => exact fun loads => ⟨nofun, fun _ => trivial⟩
    | error _ => trivial

theorem heeds_warmup (projection : Option Projection) (names : List String) :
    (warmup projection names).Heeds False :=
  (heeds_ensurePermissions names).bind fun created => heeds_warmRoles projection created

end Query

theorem Call.program_heeds (r : Resolver) (call : Call) : (call.program r).Heeds False := by
  cases call with
  | belongsToRole user role => exact (Query.heeds_membership user).bind fun _ => trivial
  | hasPermission user scope permission => exact Query.heeds_hasPermission user scope permission
  | checkOrDeny user scope permission =>
    apply Program.Heeds.bind (Query.heeds_hasPermission user scope permission)
    intro outcome
    cases outcome <;> trivial
  | userRoles user => exact (Query.heeds_membership user).bind fun _ => trivial
  | userPermissions user scope =>
    exact (Query.heeds_membership user).bind fun m => Query.heeds_grantedByAll scope .empty m.roles
  | ensurePermissions names => exact Query.heeds_ensurePermissions names
  | warmup names => exact Query.heeds_warmup r.projection names
  | warmupFromConfig =>
    simp only [program, Resolver.warmupFromConfig]
    split
    · exact (Query.heeds_warmup r.projection _).bind fun _ => trivial
    · trivial
  | command c => exact ⟨nofun, fun given => by cases given <;> trivial⟩

/-- All of some catalog is on record. -/
def Directory.Records (d : Directory) (known : Table String PermissionId) : Prop :=
  ∀ name id, known.find? name = some id → d.permissions.find? name = some id

namespace Resolver

theorem find?_record_eq (catalog : Table String PermissionId) (records : List PermissionRecord)
    (name : String) : (record catalog records).find? name =
      ((record .empty records).find? name).or (catalog.find? name) := by
  induction records generalizing catalog with
  | nil => rfl
  | cons r records ih =>
    have one := ih (catalog.insert r.name r.id)
    have other := ih (Table.empty.insert r.name r.id)
    rw [Table.find?_insert] at one other
    refine one.trans (Eq.trans ?_ (congrArg (Option.or · (catalog.find? name)) other.symm))
    split
    · rw [Option.or_assoc]
      rfl
    · rw [Table.find?_empty, Option.or_none]

/-- A listing makes up for whatever on record was not known before. -/
theorem record_catalog {d : Directory} {known : Table String PermissionId}
    (records : d.Records known) : record known d.catalog = record .empty d.catalog := by
  apply Table.ext_find?
  intro name
  rw [find?_record_eq]
  cases held : known.find? name with
  | none => rw [Option.or_none]
  | some id =>
    have member : ⟨id, name⟩ ∈ d.catalog := Directory.mem_catalog.2 (records name id held)
    have listed : (record .empty d.catalog).contains name = true :=
      contains_record.2 (.inr ⟨_, member, rfl⟩)
    obtain ⟨other, found⟩ := Table.contains_iff.1 listed
    rw [found, Option.some_or]

end Resolver

end Authorization
