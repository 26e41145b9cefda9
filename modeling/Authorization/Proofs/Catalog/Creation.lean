import Authorization.Proofs.Catalog.Accounting
import Authorization.Proofs.Queries.Listing
import Authorization.Proofs.Renewal.Consult
import Mathlib.Data.List.TakeWhile

namespace Authorization

namespace Directory

/-- The names that are not on record, each once, in the order in which they come first. -/
def missing (d : Directory) (names : List String) : List String :=
  (names.filter fun name => !d.permissions.contains name).eraseDups

def rejects (d : Directory) (name : String) : Bool := d.rejectedNames.contains name

def register (d : Directory) (name : String) : Directory :=
  { d with
    permissions := d.permissions.insert name ⟨d.lastPermission.value + 1⟩
    lastPermission := ⟨d.lastPermission.value + 1⟩
    permissionsCreated := d.permissionsCreated + 1 }

/-- Some permissions are created in their order, with the identifiers that come next, and nothing
else changes. -/
structure Gained (d : Directory) (names : List String) (after : Directory) : Prop where
  gained : ∀ (i : Nat) name, names[i]? = some name →
    after.permissions.find? name = some ⟨d.lastPermission.value + .ofNat (i + 1)⟩
  kept : ∀ name, name ∉ names → after.permissions.find? name = d.permissions.find? name
  last : after.lastPermission = ⟨d.lastPermission.value + .ofNat names.length⟩
  counted : after.permissionsCreated = d.permissionsCreated + .ofNat names.length
  others : after = { d with
    permissions := after.permissions
    lastPermission := after.lastPermission
    permissionsCreated := after.permissionsCreated }

theorem foldl_register (d : Directory) (names : List String) : names.foldl register d = { d with
    permissions := (names.foldl register d).permissions
    lastPermission := (names.foldl register d).lastPermission
    permissionsCreated := (names.foldl register d).permissionsCreated } := by
  induction names generalizing d with
  | nil => rfl
  | cons name names ih => exact ih _

theorem gained_foldl (d : Directory) {names : List String} (nodup : names.Nodup) :
    d.Gained names (names.foldl register d) := by
  induction names generalizing d with
  | nil =>
    refine ⟨nofun, fun _ _ => rfl, ?_, ?_, rfl⟩
    · exact congrArg Id.mk (Int64.add_zero _).symm
    · exact (UInt64.add_zero _).symm
  | cons name names ih =>
    obtain ⟨absent, nodup⟩ := List.nodup_cons.1 nodup
    have after := ih (d.register name) nodup
    have next (n : Nat) : d.lastPermission.value + 1 + .ofNat n =
        d.lastPermission.value + .ofNat (n + 1) := by
      rw [Int64.ofNat_add, Int64.add_assoc, Int64.add_comm 1]
      rfl
    constructor
    · intro i x there
      cases i with
      | zero =>
        cases there
        refine (after.kept name absent).trans ?_
        simp only [register, Table.find?_insert, if_true]
        rfl
      | succ i =>
        rw [← next]
        exact after.gained i x there
    · intro x other
      rw [List.mem_cons, not_or] at other
      refine (after.kept x other.2).trans ?_
      simp only [register, Table.find?_insert, if_neg other.1]
    · exact after.last.trans (congrArg Id.mk (next names.length))
    · refine after.counted.trans ?_
      rw [List.length_cons, UInt64.ofNat_add, UInt64.add_comm (.ofNat _), ← UInt64.add_assoc]
      rfl
    · exact foldl_register _ _

def outcome (d : Directory) (created : Nat) (names : List String) : Except Error Nat :=
  match names.find? d.rejects with
  | none => .ok (created + names.length)
  | some name => .error (.creationFailed name (Error.unavailable (.nameRejected name)).message)

/-- The names that are created before the first one that is rejected. -/
def accepted (d : Directory) (names : List String) : List String :=
  names.takeWhile fun name => !d.rejects name

variable {d : Directory} {name : String}

theorem outcome_register (accepted : d.rejects name = false) (created : Nat)
    (names : List String) :
    (d.register name).outcome (created + 1) names = d.outcome created (name :: names) := by
  have same : (d.register name).rejects = d.rejects := rfl
  rw [outcome, outcome, same, List.find?_cons_of_neg (ne_true_of_eq_false accepted),
    List.length_cons, Nat.add_assoc, Nat.add_comm 1]

theorem accepted_register (accepted : d.rejects name = false) (names : List String) :
    d.accepted (name :: names) = name :: (d.register name).accepted names :=
  List.takeWhile_cons_of_pos (by rw [accepted]; rfl)

theorem outcome_of_accepted {names : List String}
    (all : ∀ name ∈ names, d.rejects name = false) (created : Nat) :
    d.outcome created names = .ok (created + names.length) ∧ d.accepted names = names := by
  have none : names.find? d.rejects = none :=
    List.find?_eq_none.2 fun name member => ne_true_of_eq_false (all name member)
  exact ⟨by rw [outcome, none],
    List.takeWhile_eq_self_iff.2 fun name member => by simp [all name member]⟩

theorem outcome_of_rejected (front back : List String)
    (before : ∀ name ∈ front, d.rejects name = false) (rejected : d.rejects name = true)
    (created : Nat) :
    d.outcome created (front ++ name :: back) =
        .error (.creationFailed name (Error.unavailable (.nameRejected name)).message) ∧
      d.accepted (front ++ name :: back) = front := by
  have first : (front ++ name :: back).find? d.rejects = some name :=
    List.find?_eq_some_iff_append.2
      ⟨rejected, front, back, rfl, fun name member => by simp [before name member]⟩
  refine ⟨by rw [outcome, first], ?_⟩
  rw [accepted, List.takeWhile_append_of_pos fun name member => by simp [before name member],
    List.takeWhile_cons_of_neg (by simp [rejected]), List.append_nil]

theorem accepts_or_rejects (d : Directory) (names : List String) :
    (∀ name ∈ names, d.rejects name = false) ∨
      ∃ front name back, names = front ++ name :: back ∧
        (∀ name ∈ front, d.rejects name = false) ∧ d.rejects name = true := by
  cases first : names.find? d.rejects with
  | none =>
    exact .inl fun name member => eq_false_of_ne_true (List.find?_eq_none.1 first name member)
  | some name =>
    obtain ⟨rejected, front, back, parts, before⟩ := List.find?_eq_some_iff_append.1 first
    exact .inr ⟨front, name, back, parts, fun x member => by simpa using before x member, rejected⟩

theorem serve_list (up : d.available = true) : d.serve .listPermissions = (.ok d.catalog, d) := by
  simp [serve, up]

theorem serve_rejected (up : d.available = true) (rejected : d.rejects name = true) :
    d.serve (.createPermission name) = (.error (.unavailable (.nameRejected name)), d) := by
  have refuses : d.rejectedNames.contains name = true := rejected
  simp [serve, up, createPermission, commit, refuses]

theorem serve_accepted (up : d.available = true) (accepted : d.rejects name = false)
    (absent : d.permissions.contains name = false) :
    d.serve (.createPermission name) = (.ok ⟨d.lastPermission.value + 1⟩, d.register name) := by
  have admits : d.rejectedNames.contains name = false := accepted
  simp [serve, up, createPermission, commit, register, absent, admits]

end Directory

namespace Resolver

theorem find?_record_catalog (known : Table String PermissionId) (d : Directory) (name : String) :
    (record known d.catalog).find? name = (d.permissions.find? name).or (known.find? name) := by
  rw [find?_record_eq]
  congr 1
  cases listed : (record .empty d.catalog).find? name with
  | some id =>
    rcases find?_record listed with none | told
    · cases none
    · exact (Directory.mem_catalog.1 told).symm
  | none =>
    cases there : d.permissions.find? name with
    | none => rfl
    | some id =>
      have told : (⟨id, name⟩ : PermissionRecord) ∈ d.catalog := Directory.mem_catalog.2 there
      have known : (record .empty d.catalog).contains name = true :=
        contains_record.2 (.inr ⟨_, told, rfl⟩)
      rw [Table.contains, listed] at known
      cases known

end Resolver

namespace System

/-- The resolver knows every permission on record, with its identifier. -/
def Listed (s : System) : Prop :=
  ∀ name id, s.directory.permissions.find? name = some id → s.resolver.catalog.find? name = some id

/-- The names that the resolver does not know, each once, in the order in which they come first. -/
def unknown (s : System) (names : List String) : List String :=
  (names.filter fun name => !s.resolver.catalog.contains name).eraseDups

def register (s : System) (name : String) : System :=
  ⟨{ s.resolver with
      catalog := s.resolver.catalog.insert name ⟨s.directory.lastPermission.value + 1⟩ },
    s.directory.register name⟩

def list (s : System) : System :=
  { s with resolver := { s.resolver with
      catalog := Resolver.record s.resolver.catalog s.directory.catalog } }

variable {s : System}

theorem listed_list (s : System) : s.list.Listed := by
  intro name id there
  show (Resolver.record _ _).find? name = some id
  rw [Resolver.find?_record_catalog, show s.directory.permissions.find? name = some id from there]
  rfl

theorem Listed.contains (listed : s.Listed) {name : String}
    (there : s.directory.permissions.contains name = true) :
    s.resolver.catalog.contains name = true := by
  obtain ⟨id, found⟩ := Table.contains_iff.1 there
  exact Table.contains_iff.2 ⟨id, listed name id found⟩

theorem contains_register (s : System) (name x : String) :
    (s.register name).resolver.catalog.contains x =
      (x == name || s.resolver.catalog.contains x) := by
  simp only [System.register, Table.contains, Table.find?_insert]
  by_cases same : x = name <;> simp [same]

theorem unknown_register (s : System) (name : String) (names : List String) :
    (s.register name).unknown names =
      ((names.filter fun x => !s.resolver.catalog.contains x).filter (!· == name)).eraseDups := by
  rw [unknown, List.filter_filter]
  simp only [contains_register, Bool.not_or]

theorem unknown_cons_known {name : String} (known : s.resolver.catalog.contains name = true)
    (names : List String) : s.unknown (name :: names) = s.unknown names := by
  simp [unknown, known]

theorem unknown_cons {name : String} (new : s.resolver.catalog.contains name = false)
    (names : List String) :
    s.unknown (name :: names) = name :: (s.register name).unknown names := by
  rw [unknown, List.filter_cons_of_pos (by rw [new]; rfl), List.eraseDups_cons, unknown_register]

theorem nodup_unknown (s : System) (names : List String) : (s.unknown names).Nodup := by
  induction names generalizing s with
  | nil => exact .nil
  | cons name names ih =>
    cases known : s.resolver.catalog.contains name with
    | true => exact unknown_cons_known known names ▸ ih s
    | false =>
      rw [unknown_cons known]
      refine List.nodup_cons.2 ⟨fun member => ?_, ih _⟩
      have new := List.mem_eraseDups.1 member
      simp [contains_register] at new

theorem unknown_foldl {names front back : List String} (parts : s.unknown names = front ++ back) :
    (front.foldl System.register s).unknown names = back := by
  induction front generalizing s with
  | nil => exact parts
  | cons name front ih =>
    refine ih ?_
    unfold unknown at parts
    rw [unknown_register]
    cases filtered : names.filter fun x => !s.resolver.catalog.contains x with
    | nil =>
      rw [filtered] at parts
      cases parts
    | cons first others =>
      rw [filtered, List.eraseDups_cons, List.cons_append, List.cons.injEq] at parts
      obtain ⟨rfl, rest⟩ := parts
      rw [List.filter_cons_of_neg (by simp), rest]

theorem Listed.list_eq (listed : s.Listed) : s.list = s := by
  have same : Resolver.record s.resolver.catalog s.directory.catalog = s.resolver.catalog := by
    apply Table.ext_find?
    intro name
    rw [Resolver.find?_record_catalog]
    cases there : s.directory.permissions.find? name with
    | none => rfl
    | some id => rw [listed name id there, Option.some_or]
  simp only [list, same]

theorem Listed.register (listed : s.Listed) (name : String) : (s.register name).Listed := by
  intro x id there
  simp only [System.register, Directory.register, Table.find?_insert] at there ⊢
  split
  · rename_i same
    rwa [if_pos same] at there
  · rename_i other
    rw [if_neg other] at there
    exact listed x id there

theorem request_list (up : s.directory.available = true) :
    s.request .listPermissions = (.ok s.directory.catalog, s.list) := by
  simp only [request, Directory.serve_list up]
  rfl

variable {name : String}

theorem request_rejected (up : s.directory.available = true)
    (rejected : s.directory.rejects name = true) :
    s.request (.createPermission name) = (.error (.unavailable (.nameRejected name)), s) := by
  simp only [request, Directory.serve_rejected up rejected]
  rfl

theorem request_accepted (up : s.directory.available = true)
    (accepted : s.directory.rejects name = false)
    (absent : s.directory.permissions.contains name = false) :
    s.request (.createPermission name) =
      (.ok ⟨s.directory.lastPermission.value + 1⟩, s.register name) := by
  simp only [request, Directory.serve_accepted up accepted absent]
  rfl

end System

namespace Query

variable {s : System} {name : String}

theorem lift_run {α : Type} (p : Program α) (s : System) :
    (ExceptT.lift p : Query α).run.run s = (.ok (p.run s).1, (p.run s).2) :=
  Program.run_bind p _ s

theorem knowsPermission_run (s : System) (name : String) :
    (perform (.knowsPermission name)).run.run s = (.ok (s.resolver.catalog.contains name), s) := rfl

theorem createdElsewhere_run (up : s.directory.available = true) (listed : s.Listed)
    (name : String) :
    (createdElsewhere name).run s = (s.resolver.catalog.contains name, s) := by
  have asked : (Program.attempt .listPermissions).run s = (.ok s.directory.catalog, s) :=
    (System.request_list up).trans (by rw [listed.list_eq])
  rw [createdElsewhere, Program.run_bind, asked]
  rfl

variable (created : Nat) (names : List String)

theorem createMissing_known (known : s.resolver.catalog.contains name = true) :
    (createMissing created (name :: names)).run.run s =
      (createMissing created names).run.run s := by
  rw [createMissing, run_bind_ok (knowsPermission_run s name), if_pos known]

theorem createMissing_accepted (up : s.directory.available = true)
    (unknown : s.resolver.catalog.contains name = false)
    (accepted : s.directory.rejects name = false)
    (absent : s.directory.permissions.contains name = false) :
    (createMissing created (name :: names)).run.run s =
      (createMissing (created + 1) names).run.run (s.register name) := by
  have asked := lift_run (Program.attempt (.createPermission name)) s
  rw [show (Program.attempt _).run s = _ from System.request_accepted up accepted absent] at asked
  rw [createMissing, run_bind_ok (knowsPermission_run s name),
    if_neg (ne_true_of_eq_false unknown), run_bind_ok asked]

theorem createMissing_rejected (up : s.directory.available = true) (listed : s.Listed)
    (unknown : s.resolver.catalog.contains name = false)
    (rejected : s.directory.rejects name = true) :
    (createMissing created (name :: names)).run.run s =
      (.error (.creationFailed name (Error.unavailable (.nameRejected name)).message), s) := by
  have asked := lift_run (Program.attempt (.createPermission name)) s
  rw [show (Program.attempt _).run s = _ from System.request_rejected up rejected] at asked
  -- nothing has happened since the listing, so that no other writer can have created the name
  have sought := lift_run (createdElsewhere name) s
  rw [createdElsewhere_run up listed, unknown] at sought
  rw [createMissing, run_bind_ok (knowsPermission_run s name),
    if_neg (ne_true_of_eq_false unknown), run_bind_ok asked]
  exact run_bind_ok sought _

/-- Names are created in the order in which they first come, up to the first that is rejected. -/
theorem createMissing_run (up : s.directory.available = true) (listed : s.Listed) :
    (createMissing created names).run.run s =
      (s.directory.outcome created (s.unknown names),
        (s.directory.accepted (s.unknown names)).foldl System.register s) := by
  -- every step leaves the catalog listed, and a name that comes again is known the second time
  induction names generalizing s created with
  | nil => rfl
  | cons name names ih =>
    cases known : s.resolver.catalog.contains name with
    | true =>
      rw [createMissing_known created names known, ih created up listed,
        System.unknown_cons_known known]
    | false =>
      have absent : s.directory.permissions.contains name = false :=
        eq_false_of_ne_true fun there => ne_true_of_eq_false known (listed.contains there)
      rw [System.unknown_cons known]
      cases rejected : s.directory.rejects name with
      | true =>
        rw [createMissing_rejected created names up listed known rejected]
        simp [Directory.outcome, Directory.accepted, rejected]
      | false =>
        rw [createMissing_accepted created names up known rejected absent,
          ih (s := s.register name) (created + 1) up (listed.register name)]
        rw [Directory.accepted_register rejected]
        exact Prod.ext (Directory.outcome_register rejected created _) rfl

theorem ensurePermissions_run (up : s.directory.available = true) :
    (ensurePermissions names).run.run s =
      (s.directory.outcome 0 (s.list.unknown names),
        (s.directory.accepted (s.list.unknown names)).foldl System.register s.list) := by
  have listed : (ask .listPermissions).run.run s = (.ok s.directory.catalog, s.list) :=
    System.request_list up
  rw [ensurePermissions, run_bind_ok listed]
  exact createMissing_run 0 names up s.listed_list

theorem ensurePermissions_unavailable (down : s.directory.available = false) :
    (ensurePermissions names).run.run s = (.error (.unavailable .markedUnavailable), s) := by
  have refused : (ask .listPermissions).run.run s =
      (.error (.unavailable .markedUnavailable), s) := by
    show s.request .listPermissions = _
    simp only [System.request, Directory.serve, down]
    rfl
  rw [ensurePermissions, run_bind_error refused]

end Query

namespace System

variable {s : System} {names : List String}

theorem directory_foldl (s : System) (names : List String) :
    (names.foldl register s).directory = names.foldl Directory.register s.directory := by
  induction names generalizing s with
  | nil => rfl
  | cons name names ih => exact ih _

theorem resolver_foldl (s : System) (names : List String) : (names.foldl register s).resolver =
    { s.resolver with catalog := (names.foldl register s).resolver.catalog } := by
  induction names generalizing s with
  | nil => rfl
  | cons name names ih => exact ih (s.register name)

theorem catalog_foldl (same : s.resolver.catalog = s.directory.permissions) :
    (names.foldl register s).resolver.catalog =
      (names.foldl register s).directory.permissions := by
  induction names generalizing s with
  | nil => exact same
  | cons name names ih =>
    exact ih (s := s.register name) (congrArg (Table.insert · name _) same)

theorem Listed.foldl (listed : s.Listed) : (names.foldl System.register s).Listed := by
  induction names generalizing s with
  | nil => exact listed
  | cons name names ih => exact ih (listed.register name)

theorem list_catalog (records : s.directory.Records s.resolver.catalog) :
    s.list.resolver.catalog = s.directory.permissions := by
  apply Table.ext_find?
  intro name
  refine (Resolver.find?_record_catalog ..).trans ?_
  cases held : s.resolver.catalog.find? name with
  | none => rw [Option.or_none]
  | some id => rw [records name id held, Option.some_or]

theorem unknown_list (records : s.directory.Records s.resolver.catalog) :
    s.list.unknown names = s.directory.missing names := by
  rw [unknown, list_catalog records]
  rfl

/-- What making sure of some permissions comes to, with nothing in between: the answer and the
system after it. The names that are not on record are created in their order, up to the first that
is rejected. -/
structure Provided (s : System) (names : List String) (answer : Except Error Nat)
    (after : System) : Prop where
  unavailable : s.directory.available = false →
    answer = .error (.unavailable .markedUnavailable) ∧ after = s
  accepted : s.directory.available = true →
    (∀ name ∈ s.directory.missing names, s.directory.rejects name = false) →
    answer = .ok (s.directory.missing names).length ∧
      s.directory.Gained (s.directory.missing names) after.directory
  rejected : s.directory.available = true → ∀ front name back,
    s.directory.missing names = front ++ name :: back →
    (∀ earlier ∈ front, s.directory.rejects earlier = false) → s.directory.rejects name = true →
    answer = .error (.creationFailed name (Error.unavailable (.nameRejected name)).message) ∧
      s.directory.Gained front after.directory
  catalog : s.directory.available = true →
    after.resolver = { s.resolver with catalog := after.directory.permissions }
  again : s.directory.available = true →
    (Query.ensurePermissions names).run.run after = (answer.map fun _ => 0, after)

theorem ensurePermissions_again (up : s.directory.available = true) (names : List String) :
    (Query.ensurePermissions names).run.run ((Query.ensurePermissions names).run.run s).2 =
      (((Query.ensurePermissions names).run.run s).1.map fun _ => 0,
        ((Query.ensurePermissions names).run.run s).2) := by
  rw [Query.ensurePermissions_run names up]
  dsimp only
  -- what is left after the first attempt begins with the name that was rejected, if there is one
  set front := s.directory.accepted (s.list.unknown names) with created
  set after := front.foldl register s.list with ended
  have directory : after.directory = front.foldl Directory.register s.directory :=
    directory_foldl _ _
  have still : after.directory.available = true := by
    rw [directory, Directory.foldl_register]
    exact up
  have same : after.directory.rejects = s.directory.rejects := by
    rw [directory, Directory.foldl_register]
    rfl
  have listed : after.Listed := s.listed_list.foldl
  rw [Query.ensurePermissions_run names still, listed.list_eq]
  rcases s.directory.accepts_or_rejects (s.list.unknown names) with
    all | ⟨before, name, back, parts, all, rejected⟩
  · obtain ⟨answer, whole⟩ := Directory.outcome_of_accepted all 0
    have none : after.unknown names = [] :=
      unknown_foldl (by rw [created, whole, List.append_nil])
    rw [none, answer]
    rfl
  · obtain ⟨answer, cut⟩ := Directory.outcome_of_rejected before back all rejected 0
    have rest : after.unknown names = name :: back :=
      unknown_foldl (by rw [created, parts, cut])
    have refused := Directory.outcome_of_rejected (d := after.directory) [] back nofun
      (same ▸ rejected) 0
    rw [List.nil_append] at refused
    rw [rest, refused.1, refused.2, parts, answer]
    rfl

end System

namespace World

variable {ι : Type} [DecidableEq ι] {w : World ι}

/-- Wherever any schedule has led, making sure of some permissions with nothing in between creates
exactly those that are missing, and a failure keeps exactly those before it. -/
theorem ensure_creates_missing (fresh : w.Fresh) (moves : Nat → Move ι) (n : Nat) (i : ι)
    (names : List String) :
    let s := w.system moves i n
    let ran := (Query.ensurePermissions names).run.run s
    s.Provided names ran.1 ran.2 := by
  dsimp only
  set s := w.system moves i n
  have records : s.directory.Records s.resolver.catalog :=
    fun _ _ held => catalog_recorded fresh held
  have distinct : (s.directory.missing names).Nodup :=
    System.unknown_list records ▸ System.nodup_unknown s.list names
  constructor
  · intro down
    rw [Query.ensurePermissions_unavailable names down]
    exact ⟨rfl, rfl⟩
  · intro up all
    obtain ⟨answer, whole⟩ := Directory.outcome_of_accepted all 0
    rw [Query.ensurePermissions_run names up, System.unknown_list records, answer, whole,
      System.directory_foldl, Nat.zero_add]
    exact ⟨rfl, s.directory.gained_foldl distinct⟩
  · intro up front name back parts before rejected
    obtain ⟨answer, cut⟩ := Directory.outcome_of_rejected front back before rejected 0
    rw [Query.ensurePermissions_run names up, System.unknown_list records, parts, answer, cut,
      System.directory_foldl]
    have part : front.Sublist (s.directory.missing names) := parts ▸ List.sublist_append_left ..
    exact ⟨rfl, s.directory.gained_foldl (distinct.sublist part)⟩
  · intro up
    rw [Query.ensurePermissions_run names up]
    exact (System.resolver_foldl _ _).trans (congrArg (fun known => { s.resolver with
      catalog := known }) (System.catalog_foldl (System.list_catalog records)))
  · exact fun up => System.ensurePermissions_again up names

/-- Another writer has created a permission, and a second name is rejected. -/
def choosy : List (Move Unit) :=
  [.upkeep (.request (.createPermission "b")), .upkeep (.rejectName "c")]

theorem ensure_creates_missing_choosy :
    let s := sample.system (schedule choosy) () 2
    let ran := (Query.ensurePermissions ["a", "b", "a", "c", "d"]).run.run s
    ran.1 = .error (.creationFailed "c"
        "Source unavailable: permission catalog rejected 'c'") ∧
      ran.2.directory.permissions.entries = [("a", ⟨2⟩), ("b", ⟨1⟩)] ∧
      (Query.ensurePermissions ["a", "b", "a", "c", "d"]).run.run ran.2 =
        (ran.1.map fun _ => 0, ran.2) := by
  have provided := ensure_creates_missing fresh_sample (schedule choosy) 2 ()
    ["a", "b", "a", "c", "d"]
  refine ⟨(provided.rejected rfl ["a"] "c" ["d"] (by decide) (by decide) (by decide)).1, ?_,
    provided.again rfl⟩
  decide

end World

end Authorization
