import AnsiDeck.Accounts.TwoFactor
import AnsiDeck.Lib.Dict
import AnsiDeck.Lib.Table

/-!
# Roles and permissions

`app.permissions`: what a role may do, and where somebody holds it. A role in a table is text: one
that is no role of the application gives nothing. The role of an API key's principal is its
preset's.
-/

namespace AnsiDeck

namespace Access

open Lib (Dict Table)

abbrev ProjectId := Nat
abbrev ApiKeyId := Nat

inductive Permission
  | contentRead
  | contentWrite
  | secretsList
  | secretsManage
  | runsTrigger
  | runsBecome
  | runsReadExtraVars
  | vaultEncrypt
  | vaultDecrypt
  | membersManage
  | apiKeysManage
  | galaxyManage
  | usersManage
  | projectsManage
  | auditRead
  | workersRead
  | notificationsManage
  | notificationsGlobal
  | sourcesManage
  deriving DecidableEq, Repr

namespace Permission

/-- `set(Permission)`. -/
def all : List Permission :=
  [contentRead, contentWrite, secretsList, secretsManage, runsTrigger, runsBecome,
    runsReadExtraVars, vaultEncrypt, vaultDecrypt, membersManage, apiKeysManage, galaxyManage,
    usersManage, projectsManage, auditRead, workersRead, notificationsManage, notificationsGlobal,
    sourcesManage]

theorem mem_all (permission : Permission) : permission ∈ all := by cases permission <;> decide

/-- `GLOBAL_ONLY`. -/
def globalOnly : List Permission :=
  [usersManage, auditRead, workersRead, galaxyManage, projectsManage, notificationsGlobal]

end Permission

open Permission

namespace Role

/-- The column's text. -/
def value : Role → String
  | .admin => "admin"
  | .operator => "operator"
  | .viewer => "viewer"

/-- `Role(role)`, `none` where it raises. -/
def ofValue? (role : String) : Option Role :=
  [Role.admin, .operator, .viewer].find? fun r => value r == role

end Role

/-- `ROLE_PERMISSIONS`. -/
def rolePermissions : Role → List Permission
  | .viewer => [contentRead]
  | .operator =>
    [contentRead, contentWrite, secretsList, runsTrigger, runsReadExtraVars, vaultEncrypt]
  | .admin => all

/-- `KEY_ROLE_PREFIX`. -/
def keyRole (preset : String) : String := "key:" ++ preset

/-- `KEY_ROLE_PERMISSIONS`. -/
def keyRolePermissions (role : String) : Option (List Permission) :=
  if role = keyRole "trigger" then some [contentRead, secretsList, runsTrigger]
  else if role = keyRole "read-only" then some [contentRead]
  else none

def projectRolePermissions (role : String) : List Permission :=
  match keyRolePermissions role with
  | some permissions => permissions
  | none =>
    match Role.ofValue? role with
    | some role => (rolePermissions role).filter fun permission => !globalOnly.contains permission
    -- unknown role stored in the DB: fail closed
    | none => []

/-- Who is asking: a row of `users` as it was loaded, or the transient one that a key becomes. -/
structure Principal where
  /-- A key's principal is in no table. -/
  id : Option UserId
  account : Account
  /-- `_project_roles`, once they were asked for. -/
  projectRoles : Option (Dict ProjectId String) := none
  /-- `_api_key_id`, with what the key may start. -/
  apiKeyId : Option ApiKeyId := none
  allowedPlaybookIds : Option (List Nat) := none
  allowedInventoryIds : Option (List Nat) := none

def isGlobalAdmin (user : Principal) : Bool := user.account.user.role == .admin

/-- The rows of `project_members`. -/
abbrev Members := Table (ProjectId × UserId) String

section Holds

variable (members : Members)

/-- What the query of `user_project_roles` gives. -/
def memberRoles (id : UserId) : Dict ProjectId String :=
  Dict.ofList ((members.rows fun key _ => key.2 == id).map fun row => (row.1.1, row.2))

/-- `user_project_roles`: what was cached, or the rows there are now. -/
def userProjectRoles (user : Principal) : Dict ProjectId String :=
  user.projectRoles.getD ((user.id.map (memberRoles members)).getD ∅)

/-- Everything `user` may do inside the project (empty: not a member). -/
def projectPermissions (user : Principal) (projectId : ProjectId) : List Permission :=
  if isGlobalAdmin user then all
  else
    match (userProjectRoles members user).get? projectId with
    -- `if role`: the empty text is no role either
    | some role => if role = "" then [] else projectRolePermissions role
    | none => []

def holdsSomewhere (user : Principal) (permission : Permission) : Bool :=
  isGlobalAdmin user ||
    (userProjectRoles members user).entries.any fun e =>
    (projectRolePermissions e.2).contains permission

/-- The projects in which a member may do it. -/
def projectsWhere (user : Principal) (permission : Permission) : List ProjectId :=
  ((userProjectRoles members user).entries.filter fun e =>
    (projectRolePermissions e.2).contains permission).map Prod.fst

/-- `REQUIRE_ADMIN_2FA` applies to this user: a global admin, or an admin of some project. -/
def admin2faRequired (requireAdmin2fa : Bool) (user : Principal) : Bool :=
  requireAdmin2fa &&
    (isGlobalAdmin user || (userProjectRoles members user).entries.any fun e => e.2 == "admin")

end Holds

/-! ## What a role in a project gives -/

/-- A permission that exists only at the global level comes from no role in a project. -/
theorem not_mem_of_globalOnly {permission : Permission} (h : permission ∈ globalOnly)
    (role : String) : permission ∉ projectRolePermissions role := by
  intro hmem
  unfold projectRolePermissions at hmem
  split at hmem
  · next permissions hkey =>
    unfold keyRolePermissions at hkey
    split at hkey
    · obtain rfl := Option.some.inj hkey
      exact absurd h (by cases permission <;> simp_all [globalOnly])
    · split at hkey
      · obtain rfl := Option.some.inj hkey
        exact absurd h (by cases permission <;> simp_all [globalOnly])
      · cases hkey
  · split at hmem
    · simp only [List.mem_filter, Bool.not_eq_true', List.contains_eq_mem, decide_eq_false_iff_not]
        at hmem
      exact hmem.2 h
    · exact absurd hmem (by simp)

/-- The permissions by which members and keys are managed. -/
def managing : List Permission := [membersManage, apiKeysManage]

/-- In a project only its administrators manage members and keys. -/
theorem admin_of_managing {permission : Permission} (h : permission ∈ managing) {role : String}
    (hmem : permission ∈ projectRolePermissions role) : role = "admin" := by
  unfold projectRolePermissions at hmem
  split at hmem
  · next permissions hkey =>
    unfold keyRolePermissions at hkey
    split at hkey
    · obtain rfl := Option.some.inj hkey
      exact absurd h (by cases permission <;> simp_all [managing])
    · split at hkey
      · obtain rfl := Option.some.inj hkey
        exact absurd h (by cases permission <;> simp_all [managing])
      · cases hkey
  · split at hmem
    · next r hrole =>
      have hvalue : Role.value r = role := by simpa using List.find?_some hrole
      cases r with
      | admin => exact hvalue.symm
      | operator => exact absurd h (by cases permission <;> simp_all [managing, rolePermissions])
      | viewer => exact absurd h (by cases permission <;> simp_all [managing, rolePermissions])
    · exact absurd hmem (by simp)

section Roles

variable {members : Members}

/-- A role that a member's rows give is a row's. -/
theorem get?_memberRoles {id : UserId} {projectId : ProjectId} {role : String}
    (h : (memberRoles members id).get? projectId = some role) :
    members.get? (projectId, id) = some role := by
  have hmem := Dict.mem_entries_ofList (Dict.get?_eq_some.1 h)
  obtain ⟨⟨⟨p, u⟩, r⟩, hrow, heq⟩ := List.mem_map.1 hmem
  obtain ⟨rfl, rfl⟩ := Prod.mk.inj heq
  obtain ⟨hget, hid⟩ := Table.mem_rows.1 hrow
  obtain rfl : u = id := by simpa using hid
  exact hget

/-- Who is no global admin holds something that is only global nowhere. -/
theorem not_holdsSomewhere_of_globalOnly {user : Principal} {permission : Permission}
    (h : permission ∈ globalOnly) (hadmin : isGlobalAdmin user = false) :
    holdsSomewhere members user permission = false := by
  unfold holdsSomewhere
  rw [hadmin, Bool.false_or, List.any_eq_false]
  intro e _ hcontains
  exact not_mem_of_globalOnly h e.2 (by simpa using hcontains)

/-- Who is no global admin manages a project as its administrator. -/
theorem role_of_managing {user : Principal} {permission : Permission} {projectId : ProjectId}
    (h : permission ∈ managing) (hadmin : isGlobalAdmin user = false)
    (hmem : permission ∈ projectPermissions members user projectId) :
    (userProjectRoles members user).get? projectId = some "admin" := by
  unfold projectPermissions at hmem
  rw [hadmin, if_neg Bool.false_ne_true] at hmem
  split at hmem
  · next role hrole =>
    split at hmem
    · exact absurd hmem (by simp)
    · rw [hrole, admin_of_managing h hmem]
  · exact absurd hmem (by simp)

end Roles

end Access

end AnsiDeck
