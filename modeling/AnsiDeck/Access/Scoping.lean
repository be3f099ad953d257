import AnsiDeck.Access.Permissions
import AnsiDeck.Lib.Except

/-!
# What belongs to a project

The rows that requests read and write, and `app.scoping`: every handler reaches what a project owns
through one of these. What is in a project that the caller has no role in is answered as what does
not exist.

The audit log is not modelled.
-/

namespace AnsiDeck

namespace Access

open Lib (Dict Str Table)
open Permission

structure Project where
  name : String
  description : Option String := none
  createdAt : Time
  deriving DecidableEq

/-- A row of `api_keys`. -/
structure ApiKey where
  projectId : ProjectId
  name : String
  preset : String
  /-- `prefix`. -/
  shownPrefix : Str
  tokenHash : Digest
  createdBy : String
  /-- Null once they are deleted. -/
  createdById : Option UserId
  createdAt : Time
  expiresAt : Time
  lastUsedAt : Option Time := none
  lastUsedIp : Option Str := none
  revokedAt : Option Time := none
  revokedBy : Option String := none
  -- optional limits (none: any)
  allowedNetworks : Option (List Str) := none
  allowedPlaybookIds : Option (List Nat) := none
  allowedInventoryIds : Option (List Nat) := none
  deriving DecidableEq

/-- What `_git_info` joins: the source's name and its current commit. -/
structure GitInfo where
  name : String
  commit : Option String
  deriving DecidableEq

/-- A row of `playbooks`, with its file. -/
structure Playbook where
  projectId : ProjectId
  name : String
  content : String
  source : Option GitInfo := none
  missingAt : Option Time := none
  deriving DecidableEq

/-- The other things of a project that keep it from being deleted. -/
inductive Kind
  | inventory
  | credential
  | vaultPassword
  | gitSource
  deriving DecidableEq

structure Item where
  projectId : ProjectId
  name : String
  deriving DecidableEq

structure Database where
  now : Time
  users : Table UserId User := ∅
  passkeys : Table UserId (List WebAuthnCredential) := ∅
  projects : Table ProjectId Project := ∅
  members : Members := ∅
  keys : Table ApiKeyId ApiKey := ∅
  playbooks : Table Nat Playbook := ∅
  items : Table (Kind × Nat) Item := ∅

/-- A user with their passkeys. -/
def Database.account? (db : Database) (id : UserId) : Option Account :=
  (db.users.get? id).map fun user => { user := user, passkeys := (db.passkeys.get? id).getD [] }

/-- A user as a request loads them. -/
def Database.principal? (db : Database) (id : UserId) : Option Principal :=
  (db.account? id).map fun account => { id := some id, account := account }

abbrev Answered (α : Type) := Except HTTPException α

variable (db : Database) (user : Principal)

def forbidden : HTTPException := ⟨403, "You do not have permission to do that"⟩

/-- `get_scoped`: 404 when it doesn't exist *or* the caller isn't a member of its project; 403 only
for a member lacking the permission. -/
def getScoped {α : Type} (row : Option α) (projectId : α → ProjectId) (permission : Permission)
    (notFound : String) : Answered α :=
  match row with
  | none => .error ⟨404, notFound⟩
  | some obj =>
    let perms := projectPermissions db.members user (projectId obj)
    if perms = [] then .error ⟨404, notFound⟩
    else if !perms.contains permission then .error forbidden
    else .ok obj

def requireProjectPermission (projectId : ProjectId) (permission : Permission) : Answered Project :=
  getScoped db user (db.projects.get? projectId) (fun _ => projectId) permission "Project not found"

/-- The projects a list endpoint may return rows from; `none` is unrestricted. -/
def readableProjectIds (permission : Permission) :
    Option ProjectId → Answered (Option (List ProjectId))
  | some projectId => do
    let _ ← requireProjectPermission db user projectId permission
    return some [projectId]
  | none =>
    if isGlobalAdmin user then .ok none else .ok (some (projectsWhere db.members user permission))

/-- The project a create endpoint writes into. -/
def resolveWriteProject (permission : Permission) : Option ProjectId → Answered ProjectId
  | some projectId => do
    let _ ← requireProjectPermission db user projectId permission
    return projectId
  | none =>
    let candidates := if isGlobalAdmin user then (db.projects.rows fun _ _ => true).map Prod.fst
      else projectsWhere db.members user permission
    match candidates with
    | [projectId] => .ok projectId
    | [] => .error ⟨400, "No project available to create this in"⟩
    | _ => .error ⟨400, "project_id is required (you can write to several projects)"⟩

end Access

end AnsiDeck
