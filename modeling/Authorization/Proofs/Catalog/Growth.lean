import Authorization.Proofs.Interleaving.Recency

namespace Authorization

/-- The permission that a request has created. -/
def Request.created? :
    (request : Request) → Except Error request.Answer → Option PermissionRecord
  | .createPermission name, .ok id => some ⟨id, name⟩
  | _, _ => none

/-- The permissions that an answer tells of. -/
def Request.records : (request : Request) → Except Error request.Answer → List PermissionRecord
  | .listPermissions, .ok records => records
  | .createPermission name, .ok id => [⟨id, name⟩]
  | _, _ => []

namespace Directory

/-- What a change does to the permissions on record: nothing, or it creates one. -/
inductive Registered (d : Directory) : Directory → Option PermissionRecord → Prop where
  | kept {after : Directory} (permissions : after.permissions = d.permissions)
    (counted : after.permissionsCreated = d.permissionsCreated) : Registered d after none
  | created {after : Directory} {record : PermissionRecord}
    (absent : record.name ∉ d.permissions.keys)
    (permissions : after.permissions = d.permissions.insert record.name record.id)
    (counted : after.permissionsCreated = d.permissionsCreated + 1) :
    Registered d after (some record)

def Counted (d : Directory) : Prop := d.permissionsCreated = .ofNat d.permissions.size

namespace Registered

variable {d after : Directory} {made : Option PermissionRecord}

theorem find? (registered : Registered d after made) {name : String} {id : PermissionId}
    (there : d.permissions.find? name = some id) : after.permissions.find? name = some id := by
  cases registered with
  | kept permissions _ => rw [permissions, there]
  | @created record absent permissions _ =>
    have present : name ∈ d.permissions.keys :=
      Table.contains_iff_mem_keys.1 (Table.contains_iff.2 ⟨id, there⟩)
    have other : name ≠ record.name := fun same => absent (same ▸ present)
    rw [permissions, Table.find?_insert, if_neg other, there]

theorem size (registered : Registered d after made) :
    after.permissions.size = d.permissions.size + if made.isSome then 1 else 0 := by
  cases registered with
  | kept permissions _ =>
    rw [permissions, Option.isSome_none, if_neg Bool.false_ne_true, Nat.add_zero]
  | created absent permissions _ =>
    rw [permissions, Table.size_insert absent, Option.isSome_some, if_pos rfl]

theorem size_lt_iff (registered : Registered d after made) :
    d.permissions.size < after.permissions.size ↔ made.isSome = true := by
  rw [registered.size]
  split <;> simp [*]

theorem counted (registered : Registered d after made) (counted : d.Counted) : after.Counted := by
  unfold Counted at *
  cases registered with
  | kept permissions same => rw [same, permissions, counted]
  | created absent permissions one =>
    rw [one, permissions, Table.size_insert absent, counted, UInt64.ofNat_add]
    rfl

end Registered

/-- Two directories with the same permissions that take or refuse the same requests for more. -/
structure SamePermissions (d after : Directory) : Prop where
  permissions : after.permissions = d.permissions
  permissionsCreated : after.permissionsCreated = d.permissionsCreated
  available : after.available = d.available
  rejectedNames : after.rejectedNames = d.rejectedNames

theorem edit_permissions {d after : Directory} {change : Edit}
    (ok : d.edit change = .ok after) : d.SamePermissions after := by
  rcases edit_cases ok with ⟨_, _, _, _, rfl⟩ | ⟨_, _, _, _, rfl⟩ <;> exact ⟨rfl, rfl, rfl, rfl⟩

theorem execute_permissions (d : Directory) (command : Command) :
    d.SamePermissions (d.execute command).2 := by
  cases command with
  | edit change =>
    cases made : d.edit change with
    | ok changed =>
      simp only [execute, made, Except.map, commit]
      exact edit_permissions made
    | error _ =>
      simp only [execute, made, Except.map, commit]
      exact ⟨rfl, rfl, rfl, rfl⟩
  | createRole draft =>
    cases made : d.createRole draft with
    | ok created =>
      obtain ⟨_, _, same⟩ := createRole_cases made
      simp only [execute, made, commit, same]
      exact ⟨rfl, rfl, rfl, rfl⟩
    | error _ =>
      simp only [execute, made, commit]
      exact ⟨rfl, rfl, rfl, rfl⟩

theorem createPermission_registered (d : Directory) (name : String) :
    Registered d (d.commit (d.createPermission name)).2
      (Request.created? (.createPermission name) (d.commit (d.createPermission name)).1) := by
  unfold createPermission
  split
  · exact .kept rfl rfl
  · split
    · exact .kept rfl rfl
    · rename_i absent
      exact .created (fun member => absent (Table.contains_iff_mem_keys.2 member)) rfl rfl

theorem serve_registered (d : Directory) (request : Request) :
    Registered d (d.serve request).2 (request.created? (d.serve request).1) := by
  cases up : d.available with
  | false =>
    rw [serve_unavailable up]
    cases request <;> exact .kept rfl rfl
  | true =>
    unfold serve
    rw [if_pos up]
    cases request with
    | createPermission name => exact d.createPermission_registered name
    | write command =>
      have same := d.execute_permissions command
      exact .kept same.permissions same.permissionsCreated
    | _ => exact .kept rfl rfl

theorem mem_catalog {d : Directory} {record : PermissionRecord} :
    record ∈ d.catalog ↔ d.permissions.find? record.name = some record.id := by
  unfold catalog
  constructor
  · intro member
    obtain ⟨e, there, rfl⟩ := List.mem_map.1 member
    exact Table.find?_of_mem there
  · intro found
    exact List.mem_map.2 ⟨_, Table.mem_of_find? found, rfl⟩

/-- Whatever an answer tells of is on record once the request has been served. -/
theorem serve_records {d : Directory} {request : Request} {record : PermissionRecord}
    (told : record ∈ request.records (d.serve request).1) :
    (d.serve request).2.permissions.find? record.name = some record.id := by
  have registered := d.serve_registered request
  cases up : d.available with
  | false =>
    rw [serve_unavailable up] at told
    cases request <;> cases told
  | true =>
    cases request with
    | listPermissions =>
      simp only [serve, up, if_true] at told ⊢
      exact mem_catalog.1 told
    | createPermission name =>
      cases answered : (d.serve (.createPermission name)).1 with
      | error _ =>
        rw [answered] at told
        cases told
      | ok id =>
        rw [answered] at told registered
        obtain rfl := List.mem_singleton.1 told
        generalize (d.serve (.createPermission name)).2 = after at registered
        cases registered with
        | created _ permissions _ => rw [permissions, Table.find?_insert, if_pos rfl]
    | loadUser _ | loadRole _ | listRoles | write _ => cases told

def created? (d : Directory) : Upkeep → Option PermissionRecord
  | .request request => request.created? (d.serve request).1
  | _ => none

theorem upkeep_registered (d : Directory) (change : Upkeep) :
    Registered d (d.upkeep change) (d.created? change) := by
  cases change with
  | request request => exact d.serve_registered request
  | _ => exact .kept rfl rfl

end Directory

namespace Resolver

theorem find?_record {catalog : Table String PermissionId} {records : List PermissionRecord}
    {name : String} {id : PermissionId} (found : (record catalog records).find? name = some id) :
    catalog.find? name = some id ∨ ⟨id, name⟩ ∈ records := by
  induction records generalizing catalog with
  | nil => exact .inl found
  | cons r records ih =>
    rcases ih found with before | told
    · rw [Table.find?_insert] at before
      split at before
      · rename_i same
        cases before
        subst same
        exact .inr List.mem_cons_self
      · exact .inl before
    · exact .inr (List.mem_cons_of_mem _ told)

theorem contains_record {catalog : Table String PermissionId} {records : List PermissionRecord}
    {name : String} : (record catalog records).contains name = true ↔
      catalog.contains name = true ∨ ∃ r ∈ records, r.name = name := by
  induction records generalizing catalog with
  | nil => simp [record]
  | cons r records ih =>
    have head : (catalog.insert r.name r.id).contains name = true ↔
        r.name = name ∨ catalog.contains name = true := by
      rw [Table.contains_iff_mem_keys, Table.mem_keys_insert, Table.contains_iff_mem_keys, eq_comm]
    have rest := @ih (catalog.insert r.name r.id)
    rw [head, or_assoc, or_left_comm] at rest
    simp only [List.mem_cons, exists_eq_or_imp]
    exact rest

theorem catalog_absorb (r : Resolver) (asked : Epochs) (request : Request)
    (answer : Except Error request.Answer) :
    (r.absorb asked request answer).catalog = record r.catalog (request.records answer) := by
  match request, answer with
  | .loadUser _, .ok _ | .loadUser _, .error _ => rfl
  | .loadRole _, .ok _ | .loadRole _, .error _ => rfl
  | .listPermissions, .ok _ | .listPermissions, .error _ => rfl
  | .createPermission _, .ok _ | .createPermission _, .error _ => rfl
  | .listRoles, _ => rfl
  | .write (.edit change), .ok _ => cases change <;> rfl
  | .write (.createRole _), .ok _ => rfl
  | .write _, .error _ => rfl

end Resolver

namespace World

variable {ι : Type} [DecidableEq ι] {w : World ι} {moves : Nat → Move ι}

theorem step_registered (w : World ι) (n : Nat) (move : Move ι) :
    ∃ made, Directory.Registered w.directory (w.step n move).directory made := by
  cases directory_step w n move with
  | kept same =>
    rw [same]
    exact ⟨none, .kept rfl rfl⟩
  | upkept _ changed =>
    rw [changed]
    exact ⟨_, Directory.upkeep_registered _ _⟩
  | served _ _ changed =>
    rw [changed]
    exact ⟨_, Directory.serve_registered _ _⟩

theorem directory_registered (w : World ι) (moves : Nat → Move ι) (n : Nat) : ∃ made,
    Directory.Registered (w.after moves n).directory (w.after moves (n + 1)).directory made :=
  step_registered (w.after moves n) n (moves n)

theorem permission_persists {m n : Nat} (earlier : m ≤ n) {name : String} {id : PermissionId}
    (there : (w.after moves m).directory.permissions.find? name = some id) :
    (w.after moves n).directory.permissions.find? name = some id := by
  induction earlier with
  | refl => exact there
  | @step n _ ih =>
    obtain ⟨_, registered⟩ := directory_registered w moves n
    exact registered.find? ih

theorem counted_after (counted : w.directory.Counted) (n : Nat) :
    (w.after moves n).directory.Counted := by
  induction n with
  | zero => exact counted
  | succ n ih =>
    obtain ⟨_, registered⟩ := directory_registered w moves n
    exact registered.counted ih

theorem Dated.records {n : Nat} {task : Task ι} {f : Flight} (when : w.Dated moves n task f)
    {given : Except Error f.request.Answer} (answered : f.answer = some given)
    {record : PermissionRecord} (told : record ∈ f.request.records given) :
    (w.after moves n).directory.permissions.find? record.name = some record.id := by
  obtain ⟨m, _, earlier, served, changed⟩ := when.served (by simp [answered])
  rw [Option.some.inj (answered.symm.trans served)] at told
  have there := Directory.serve_records told
  rw [← changed] at there
  exact permission_persists earlier there

/-- What a move adds to a catalog is on record. -/
theorem catalog_step (fresh : w.Fresh) (i : ι) (n : Nat) : ∃ records,
    ((w.after moves (n + 1)).resolvers i).catalog =
      Resolver.record ((w.after moves n).resolvers i).catalog records ∧
    ∀ record ∈ records,
      (w.after moves n).directory.permissions.find? record.name = some record.id := by
  cases resolver_step (w.after moves n) n (moves n) i with
  | kept _ same => exact ⟨[], same.catalog, List.forall_mem_nil _⟩
  | invalidated what _ same =>
    exact ⟨[], same.catalog.trans (Resolver.catalog_invalidate _ what), List.forall_mem_nil _⟩
  | @received position index task f made found home flying _ same =>
    cases answered : f.answer with
    | none =>
      refine ⟨[], same.catalog.trans ?_, List.forall_mem_nil _⟩
      rw [Resolver.receive, answered]
      rfl
    | some given =>
      have when := dated fresh (List.mem_of_getElem? found) (List.mem_of_getElem? flying)
      refine ⟨f.request.records given, same.catalog.trans ?_, fun _ => when.records answered⟩
      rw [Resolver.receive, answered]
      exact Resolver.catalog_absorb _ _ _ _

theorem catalog_recorded (fresh : w.Fresh) {i : ι} {n : Nat} {name : String} {id : PermissionId}
    (held : ((w.after moves n).resolvers i).catalog.find? name = some id) :
    (w.after moves n).directory.permissions.find? name = some id := by
  induction n with
  | zero =>
    obtain ⟨config, projection, built⟩ := fresh.built i
    rw [after, Resolver.catalog_build built, Table.find?_empty] at held
    cases held
  | succ n ih =>
    obtain ⟨records, changed, told⟩ := catalog_step fresh i n
    rw [changed] at held
    apply permission_persists (Nat.le_succ n)
    rcases Resolver.find?_record held with before | new
    · exact ih before
    · exact told _ new

theorem catalog_contains_persists (fresh : w.Fresh) {i : ι} {m n : Nat} (earlier : m ≤ n)
    {name : String} (held : ((w.after moves m).resolvers i).catalog.contains name = true) :
    ((w.after moves n).resolvers i).catalog.contains name = true := by
  induction earlier with
  | refl => exact held
  | @step n _ ih =>
    obtain ⟨records, changed, _⟩ := catalog_step fresh i n
    rw [changed]
    exact Resolver.contains_record.2 (.inl ih)

/-- A catalog keeps what it has, with the identifiers it has. -/
theorem catalog_persists (fresh : w.Fresh) {i : ι} {m n : Nat} (earlier : m ≤ n) {name : String}
    {id : PermissionId} (held : ((w.after moves m).resolvers i).catalog.find? name = some id) :
    ((w.after moves n).resolvers i).catalog.find? name = some id := by
  -- a listing may overwrite the entry, but both identifiers are the one on record
  have present := catalog_contains_persists fresh earlier (Table.contains_iff.2 ⟨id, held⟩)
  obtain ⟨later, found⟩ := Table.contains_iff.1 present
  have first := permission_persists earlier (catalog_recorded fresh held)
  have second := catalog_recorded fresh found
  rw [found, ← second, first]

end World

end Authorization
