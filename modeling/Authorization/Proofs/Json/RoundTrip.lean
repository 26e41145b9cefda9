import Authorization.Json.Text
import Authorization.Proofs.Json.Records
import Authorization.Proofs.Json.Values
import Mathlib.Data.List.Nodup

namespace Authorization

open Json

/-- A record is read back from its text. Writing the record of whatever text brings it into a form
that reading and writing keep. -/
structure Json.RoundTrips {α : Type} (toJson : α → Json) (ofJson? : Json → Option α) : Prop where
  inverse : ∀ a, decode? ofJson? (encode toJson a) = some a
  normal : ∀ text a, decode? ofJson? text = some a →
    ∃ b, decode? ofJson? (encode toJson a) = some b ∧ b = a ∧ encode toJson b = encode toJson a

theorem Json.roundTrips_of {α : Type} {toJson : α → Json} {ofJson? : Json → Option α}
    (plain : ∀ a, Plain (toJson a)) (inverse : ∀ a, ofJson? (toJson a) = some a) :
    RoundTrips toJson ofJson? := by
  have back (a : α) : decode? ofJson? (encode toJson a) = some a := by
    rw [decode?, encode, String.toList_ofList, read?_write (plain a)]
    exact inverse a
  exact ⟨back, fun _ a _ => ⟨a, back a, rfl, rfl⟩⟩

theorem Json.field?_of_mem {α : Type} {read : Json → Option α} {write : α → Json}
    (reads : Reads read write) {members : List (String × Json)} {names : List String}
    (distinct : names.Nodup) (named : members.map (·.1) = names) {name : String}
    {default? : Option α} {a : α} (given : (name, write a) ∈ members) :
    field? members name default? read = some a := by
  have once : names.count name ≤ 1 := List.nodup_iff_count_le_one.1 distinct name
  rw [← named, List.count, List.countP_map] at once
  exact (field?_eq_some_iff reads).2 ⟨once, .inl given⟩

theorem Json.plain_texts (texts : List String) : Plain (.array (texts.map .string)) :=
  .array fun item member => by
    obtain ⟨text, _, rfl⟩ := List.mem_map.1 member
    exact .string text

namespace User

theorem plain_toJson (user : User) : Plain user.toJson := by
  refine .object (List.forall_mem_cons.2 ⟨.integer _, List.forall_mem_singleton.2 ?_⟩)
  refine .array fun item member => ?_
  obtain ⟨role, _, rfl⟩ := List.mem_map.1 member
  exact .integer _

theorem ofJson?_toJson (user : User) : ofJson? user.toJson = some user := by
  have distinct : ["id", "role_ids"].Nodup := by decide
  exact ofJson?_object.2 ⟨field?_of_mem reads_id distinct rfl (by simp [Id.toJson]),
    field?_of_mem reads_id.list distinct rfl (by simp [Id.toJson])⟩

end User

namespace PermissionRecord

theorem plain_toJson (record : PermissionRecord) : Plain record.toJson :=
  .object (List.forall_mem_cons.2 ⟨.integer _, List.forall_mem_singleton.2 (.string _)⟩)

theorem ofJson?_toJson (record : PermissionRecord) : ofJson? record.toJson = some record := by
  have distinct : ["id", "name"].Nodup := by decide
  exact ofJson?_object.2 ⟨field?_of_mem reads_id distinct rfl (by simp [Id.toJson]),
    field?_of_mem reads_string distinct rfl (by simp)⟩

end PermissionRecord

namespace Role

theorem plain_toJson (role : Role) : Plain role.toJson := by
  refine .object ?_
  simp only [List.forall_mem_cons]
  exact ⟨.integer _, .integer _, .string _, .string _, plain_texts _, .bool _, nofun⟩

theorem ofJson?_toJson (role : Role) : ofJson? role.toJson = some role := by
  have distinct : ["id", "organization_id", "name", "system_name", "permissions",
    "deleted"].Nodup := by decide
  have listed := role.permissions.ofList_toList
  exact ofJson?_object.2 ⟨field?_of_mem reads_id distinct rfl (by simp [Id.toJson]),
    field?_of_mem reads_id distinct rfl (by simp [Id.toJson]),
    field?_of_mem reads_string distinct rfl (by simp),
    field?_of_mem reads_string distinct rfl (by simp),
    ⟨_, field?_of_mem reads_string.list distinct rfl (by simp), listed⟩,
    field?_of_mem reads_bool distinct rfl (by simp)⟩

end Role

namespace Config

theorem plain_toJson (c : Config) : Plain c.toJson := by
  refine .object ?_
  simp only [List.forall_mem_cons]
  exact ⟨.integer _, .integer _, .bool _, plain_texts _, nofun⟩

theorem ofJson?_toJson (c : Config) : ofJson? c.toJson = some c := by
  have distinct : ["membership_cache_size", "permission_cache_size", "warmup_on_start",
    "known_permissions"].Nodup := by decide
  exact ofJson?_object.2 ⟨field?_of_mem reads_uint64 distinct rfl (by simp),
    field?_of_mem reads_uint64 distinct rfl (by simp),
    field?_of_mem reads_bool distinct rfl (by simp),
    field?_of_mem reads_string.list distinct rfl (by simp)⟩

end Config

theorem Json.roundTrips_records :
    RoundTrips User.toJson User.ofJson? ∧ RoundTrips Role.toJson Role.ofJson? ∧
      RoundTrips PermissionRecord.toJson PermissionRecord.ofJson? ∧
      RoundTrips Config.toJson Config.ofJson? :=
  ⟨roundTrips_of User.plain_toJson User.ofJson?_toJson,
    roundTrips_of Role.plain_toJson Role.ofJson?_toJson,
    roundTrips_of PermissionRecord.plain_toJson PermissionRecord.ofJson?_toJson,
    roundTrips_of Config.plain_toJson Config.ofJson?_toJson⟩

example : (User.toJson ⟨⟨5⟩, [⟨9⟩]⟩).write = "\x7b\"id\":5,\"role_ids\":[9]\x7d".toList := by
  decide

end Authorization
