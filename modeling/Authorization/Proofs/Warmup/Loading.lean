import Authorization.Proofs.Cache.Filling
import Authorization.Proofs.Queries.Lookup
import Authorization.Resolver.Warmup

namespace Authorization

namespace Directory

def loads (d : Directory) (role : RoleId) : Bool := (d.serve (.loadRole role)).1.isOk

/-- What a load of a role gives a cache to hold. -/
def image (d : Directory) (role : RoleId) : Option RoleGrant :=
  ((d.serve (.loadRole role)).1.map RoleGrant.ofRole).toOption

variable {d after : Directory} {role : RoleId}

theorem isSome_image (d : Directory) (role : RoleId) : (d.image role).isSome = d.loads role := by
  unfold image loads
  cases (d.serve (.loadRole role)).1 <;> rfl

theorem given_image (d : Directory) (roles : List RoleId) :
    Cache.given d.image roles = roles.filter d.loads :=
  List.filter_congr fun role _ => d.isSome_image role

theorem image_of_loads (loads : d.loads role = true) :
    d.image role = (d.roles.find? role).map .ofRole := by
  unfold Directory.loads at loads
  unfold image
  cases served : (d.serve (.loadRole role)).1 with
  | error e =>
    rw [served] at loads
    cases loads
  | ok found =>
    have there : d.roles.find? role = some found := by
      unfold serve at served
      split at served
      · exact findRole_ok served
      · cases served
    rw [there]
    rfl

theorem Alike.served (alike : d.Alike after) (role : RoleId) :
    (after.serve (.loadRole role)).1 = (d.serve (.loadRole role)).1 := by
  unfold serve
  rw [alike.available]
  split
  · simp only [findRole, alike.roles, alike.failingRoles]
  · rfl

theorem Alike.loads (alike : d.Alike after) : after.loads = d.loads :=
  funext fun role => congrArg Except.isOk (alike.served role)

theorem Alike.image (alike : d.Alike after) : after.image = d.image :=
  funext fun role => congrArg (fun found => (found.map RoleGrant.ofRole).toOption)
    (alike.served role)

theorem serve_loadRole_snd (d : Directory) (role : RoleId) : (d.serve (.loadRole role)).2 =
    { d with roleLoads := (d.serve (.loadRole role)).2.roleLoads } := by
  unfold serve
  split <;> rfl

end Directory

def Activity.recordLoadErrors (a : Activity) (n : Nat) : Activity :=
  { a with loadErrors := a.loadErrors + .ofNat n }

namespace Resolver

/-- A resolver that has loaded some roles from a directory. -/
def loaded (r : Resolver) (d : Directory) (roles : List RoleId) : Resolver :=
  { r with
    grants := r.grants.fill d.image roles
    activity := r.activity.recordLoadErrors (roles.filter fun role => !d.loads role).length }

variable (r : Resolver) (d : Directory) (role : RoleId) (roles : List RoleId)

theorem loaded_alike {d after : Directory} (alike : d.Alike after) :
    r.loaded after roles = r.loaded d roles := by
  rw [loaded, loaded, alike.image, alike.loads]

theorem loaded_nil : r.loaded d [] = r := by
  have none : r.activity.loadErrors + .ofNat 0 = r.activity.loadErrors := UInt64.add_zero _
  simp only [loaded, Activity.recordLoadErrors, List.filter_nil, List.length_nil, none]
  rfl

theorem loaded_cons : r.loaded d (role :: roles) =
    (r.absorb r.epochs (.loadRole role) (d.serve (.loadRole role)).1).loaded d roles := by
  cases served : (d.serve (.loadRole role)).1 with
  | ok found =>
    have image : d.image role = some (.ofRole found) := by rw [Directory.image, served]; rfl
    have loads : d.loads role = true := by rw [Directory.loads, served]; rfl
    have kept : r.absorb r.epochs (.loadRole role) (.ok found) =
        r.keep (.role role) (.ofRole found) := r.absorb_taken (.role role) rfl
    rw [kept, loaded, Cache.fill_cons, image, List.filter_cons_of_neg (by simp [loads])]
    rfl
  | error e =>
    have image : d.image role = none := by rw [Directory.image, served]; rfl
    have fails : d.loads role = false := by rw [Directory.loads, served]; rfl
    have counted (n : Nat) : r.activity.recordLoadErrors (n + 1) =
        r.activity.recordLoadError.recordLoadErrors n := by
      simp only [Activity.recordLoadErrors, Activity.recordLoadError, UInt64.ofNat_add,
        UInt64.add_comm (.ofNat n), UInt64.add_assoc]
      rfl
    have refused : r.absorb r.epochs (.loadRole role) (.error e) = r.loadFailed := rfl
    rw [refused, loaded, Cache.fill_cons, image, List.filter_cons_of_pos (by simp [fails]),
      List.length_cons, counted]
    rfl

end Resolver

namespace System

/-- Roles that are loaded one after the other are answered as if each were the only one. -/
theorem loadRoles_fst (s : System) (roles : List RoleId) : (s.loadRoles roles).1 =
    roles.map fun role => (role, (s.directory.serve (.loadRole role)).1) := by
  induction roles generalizing s with
  | nil => rfl
  | cons role roles ih =>
    have alike : s.directory.Alike (s.request (.loadRole role)).2.directory :=
      s.directory.serve_reads trivial
    rw [loadRoles]
    dsimp only
    rw [ih, List.map_cons]
    simp only [alike.served]
    rfl

theorem loadRoles_snd (s : System) (roles : List RoleId) : (s.loadRoles roles).2 =
    ⟨s.resolver.loaded s.directory roles,
      { s.directory with roleLoads := (s.loadRoles roles).2.directory.roleLoads }⟩ := by
  induction roles generalizing s with
  | nil =>
    rw [Resolver.loaded_nil]
    rfl
  | cons role roles ih =>
    have alike : s.directory.Alike (s.request (.loadRole role)).2.directory :=
      s.directory.serve_reads trivial
    have resolver : (s.loadRoles (role :: roles)).2.resolver =
        s.resolver.loaded s.directory (role :: roles) := by
      rw [Resolver.loaded_cons, ← Resolver.loaded_alike _ _ alike]
      exact congrArg System.resolver (ih (s.request (.loadRole role)).2)
    have directory : (s.loadRoles (role :: roles)).2.directory = { s.directory with
        roleLoads := (s.loadRoles (role :: roles)).2.directory.roleLoads } := by
      have later := congrArg System.directory (ih (s.request (.loadRole role)).2)
      have first : (s.request (.loadRole role)).2.directory = _ :=
        s.directory.serve_loadRole_snd role
      rw [first] at later
      exact later
    rw [← resolver, ← directory]

end System

namespace Query

theorem skippedRoles_map (d : Directory) (roles : List RoleId) :
    skippedRoles (roles.map fun role => (role, (d.serve (.loadRole role)).1)) =
      roles.filter fun role => !d.loads role := by
  rw [skippedRoles, List.filter_map, List.map_map]
  exact List.map_id' _

end Query

end Authorization
