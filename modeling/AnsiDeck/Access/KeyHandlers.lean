import AnsiDeck.Access.Projects

/-!
# Managing API keys

The handlers of `routers.api_keys`. A new key's id, prefix and token are arguments: the database
and `secrets` choose them. Whoever makes a key proves again who they are, by their password or by a
single sign-on of the last quarter of an hour.

The throttle that password guesses share is not modelled.
-/

namespace AnsiDeck

namespace Access

open Lib (Dict IpNetwork Str Table)
open Permission

/-- `SessionInfo`: what a session's signed cookie says. -/
structure Session where
  userId : UserId
  sessionVersion : Nat
  /-- Started by single sign-on, not by a password. -/
  sso : Bool := false
  issuedAt : Time
  deriving DecidableEq

/-- `SESSION_MAX_AGE_SECONDS`. -/
def sessionMaxAge : Time := 28800

def recentSsoSignIn : Time := 900

/-- A cookie that is still good for its age. -/
def Session.live (session : Session) (now : Time) : Bool :=
  session.issuedAt ≤ now && now ≤ session.issuedAt + sessionMaxAge

/-- `ApiKeyLimits`: the fields that were sent (an explicit null, or an empty list, removes one). -/
structure ApiKeyLimits where
  allowedNetworks : Option (Option (List Str)) := none
  allowedPlaybookIds : Option (Option (List Nat)) := none
  allowedInventoryIds : Option (Option (List Nat)) := none
  deriving DecidableEq

structure ApiKeyCreate where
  name : String
  preset : String
  expiresInDays : Nat := 90
  limits : ApiKeyLimits := {}
  currentPassword : Option String := none
  deriving DecidableEq

/-- What the database and `secrets` give to a new key. -/
structure NewToken where
  id : ApiKeyId
  shownPrefix : Str
  token : Str
  deriving DecidableEq

structure ApiKeyOut where
  id : ApiKeyId
  key : ApiKey
  status : String
  suspendedBecause : Option String
  allowedPlaybooks : Option (List (Nat × String))
  allowedInventories : Option (List (Nat × String))
  /-- The only time it exists outside its owner's hands. -/
  token : Option Str := none
  deriving DecidableEq

variable (cfg : Settings) (db : Database) (actor : Principal)

/-- `check_reauthentication`. -/
def checkReauthentication (session : Option Session) (currentPassword : Option String) :
    Answered Unit :=
  match currentPassword with
  | some password =>
    if cfg.verifyPassword password actor.account.user.passwordHash then .ok ()
    else .error ⟨401, "Current password is incorrect"⟩
  | none =>
    match session with
    | some session =>
      if session.sso then
        if db.now ≤ session.issuedAt + recentSsoSignIn then .ok ()
        else .error
          ⟨401, "Sign in with single sign-on again (or enter your password), then try again."⟩
      else .error ⟨401, "Enter your current password."⟩
    | none => .error ⟨401, "Enter your current password."⟩

/-- `_named`: a deleted one is left out. -/
def named (nameOf : Nat → Option String) (ids : List Nat) : List (Nat × String) :=
  ids.filterMap fun id => (nameOf id).map fun name => (id, name)

/-- `_out`. What is null in the row is null here. -/
def keyOut (id : ApiKeyId) (key : ApiKey) (token : Option Str := none) : ApiKeyOut :=
  let problem := if keyStatus key db.now = .active then creatorProblem db key else none
  { id := id
    key := { key with tokenHash := "" }
    status := (if problem.isSome then KeyStatus.suspended else keyStatus key db.now).value
    suspendedBecause := problem
    allowedPlaybooks := key.allowedPlaybookIds.map
      (named fun i => (db.playbooks.get? i).map Playbook.name)
    allowedInventories := key.allowedInventoryIds.map
      (named fun i => (db.items.get? (.inventory, i)).map Item.name)
    token := token }

/-- `parse_networks`. -/
def parseNetworks (values : List Str) : Answered (List Str) :=
  values.foldlM (fun networks raw =>
    match IpNetwork.parse (Str.strip cfg.unicode.isSpace raw) with
    | none => .error ⟨422, cfg.repr (raw.take 60) ++ " is not an IP address or CIDR"⟩
    | some n => .ok (if networks.contains n.text then networks else networks ++ [n.text])) []

/-- An empty list removes the limit. -/
def orNull {α : Type} : List α → Option (List α)
  | [] => none
  | values => some values

/-- The ids of one field, which have to be the project's. -/
def itemLimit (projectOf : Nat → Option ProjectId) (label : String) (projectId : ProjectId)
    (ids : List Nat) : Answered (Option (List Nat)) :=
  let ids := ids.eraseDups
  match ids.find? fun id => projectOf id != some projectId with
  | some id => .error ⟨422, s!"No {label} {id} in this project"⟩
  | none => .ok (orNull ids)

/-- A limit that was sent is checked; one that was not stays. -/
def limitOf {α : Type} (sent : Option (Option (List α))) (kept : Option (List α))
    (check : List α → Answered (Option (List α))) : Answered (Option (List α)) :=
  match sent with
  | none => .ok kept
  | some none => .ok none
  | some (some values) => check values

def playbookProject (id : Nat) : Option ProjectId := (db.playbooks.get? id).map Playbook.projectId

def inventoryProject (id : Nat) : Option ProjectId :=
  (db.items.get? (.inventory, id)).map Item.projectId

/-- `_limits`, into the key. -/
def applyLimits (projectId : ProjectId) (limits : ApiKeyLimits) (key : ApiKey) :
    Answered ApiKey := do
  let networks ← limitOf limits.allowedNetworks key.allowedNetworks fun values =>
    (parseNetworks cfg values).map orNull
  let playbooks ← limitOf limits.allowedPlaybookIds key.allowedPlaybookIds
    (itemLimit (playbookProject db) "playbook" projectId)
  let inventories ← limitOf limits.allowedInventoryIds key.allowedInventoryIds
    (itemLimit (inventoryProject db) "inventory" projectId)
  return { key with
    allowedNetworks := networks
    allowedPlaybookIds := playbooks
    allowedInventoryIds := inventories }

/-- `_new_key`. -/
def newKey (projectId : ProjectId) (name preset : String) (days : Nat)
    (fresh : NewToken) : ApiKey where
  projectId := projectId
  name := name
  preset := preset
  shownPrefix := fresh.shownPrefix
  tokenHash := cfg.hashToken fresh.token
  createdBy := actor.account.user.username
  createdById := actor.id
  createdAt := db.now
  expiresAt := db.now + days * 86400

/-- The project or the creator is gone again, or the prefix or the name is another key's. -/
def keyConflict (key : ApiKey) : Bool :=
  (db.projects.get? key.projectId).isNone ||
    key.createdById.any (fun id => (db.users.get? id).isNone) ||
    db.keys.any fun _ other => other.shownPrefix == key.shownPrefix ||
      (other.projectId == key.projectId && other.name == key.name && other.revokedAt.isNone)

/-- The `INSERT`. -/
def insertKey (id : ApiKeyId) (key : ApiKey) : Answered Database :=
  if keyConflict db key then .error ⟨500, "Internal Server Error"⟩
  else .ok { db with keys := db.keys.put id key }

/-! ## The handlers -/

def listApiKeys (projectId : ProjectId) : Answered (List ApiKeyOut) := do
  let _ ← requireProjectPermission db actor projectId apiKeysManage
  let rows := db.keys.rows fun _ key => key.projectId == projectId
  return (rows.mergeSort fun a b => b.1 ≤ a.1).map fun row => keyOut db row.1 row.2

def createApiKey (projectId : ProjectId) (session : Option Session) (payload : ApiKeyCreate)
    (fresh : NewToken) : Answered (ApiKeyOut × Database) := do
  let _ ← requireProjectPermission db actor projectId apiKeysManage
  checkReauthentication cfg db actor session payload.currentPassword
  let existing := db.keys.rows fun _ key => key.projectId == projectId
  if existing.any fun row => row.2.name == payload.name && row.2.revokedAt.isNone then
    .error ⟨409, "This project already has an API key with that name"⟩
  else if maxKeysPerProject ≤ existing.countP fun row => keyStatus row.2 db.now == .active then
    .error ⟨409, "A project can have at most 50 active API keys. Revoke one first."⟩
  else
    let key ← applyLimits cfg db projectId payload.limits
      (newKey cfg db actor projectId payload.name payload.preset payload.expiresInDays fresh)
    let db ← insertKey db fresh.id key
    return (keyOut db fresh.id key (some fresh.token), db)

/-- The key of this project. -/
def scopedKey (projectId : ProjectId) (keyId : ApiKeyId) : Answered ApiKey :=
  match db.keys.get? keyId with
  | none => .error ⟨404, "API key not found"⟩
  | some key => if key.projectId ≠ projectId then .error ⟨404, "API key not found"⟩ else .ok key

def revoked (key : ApiKey) : ApiKey :=
  { key with revokedAt := some db.now, revokedBy := some actor.account.user.username }

/-- `rotate_api_key`: a new key of the same name, preset, lifetime and limits, created by the
caller; the old one stops working at once. -/
def rotateApiKey (projectId : ProjectId) (keyId : ApiKeyId) (session : Option Session)
    (currentPassword : Option String) (fresh : NewToken) : Answered (ApiKeyOut × Database) := do
  let _ ← requireProjectPermission db actor projectId apiKeysManage
  checkReauthentication cfg db actor session currentPassword
  let old ← scopedKey db projectId keyId
  if old.revokedAt.isSome then .error ⟨409, "This key is revoked. Create a new one instead."⟩
  else
    let db' := { db with keys := db.keys.put keyId (revoked db actor old) }
    let key := { newKey cfg db actor projectId old.name old.preset (lifetimeDays old) fresh with
      allowedNetworks := old.allowedNetworks
      allowedPlaybookIds := old.allowedPlaybookIds
      allowedInventoryIds := old.allowedInventoryIds }
    let db' ← insertKey db' fresh.id key
    return (keyOut db' fresh.id key (some fresh.token), db')

/-- `update_api_key_limits`: the token stays. -/
def updateApiKeyLimits (projectId : ProjectId) (keyId : ApiKeyId) (limits : ApiKeyLimits) :
    Answered (ApiKeyOut × Database) := do
  let _ ← requireProjectPermission db actor projectId apiKeysManage
  let key ← scopedKey db projectId keyId
  if key.revokedAt.isSome then .error ⟨409, "This key is revoked"⟩
  else
    let key ← applyLimits cfg db projectId limits key
    let db := { db with keys := db.keys.put keyId key }
    return (keyOut db keyId key, db)

def revokeApiKey (projectId : ProjectId) (keyId : ApiKeyId) : Answered Database := do
  let _ ← requireProjectPermission db actor projectId apiKeysManage
  let key ← scopedKey db projectId keyId
  -- already revoked; keep the original who/when
  if key.revokedAt.isSome then return db
  else return { db with keys := db.keys.put keyId (revoked db actor key) }

end Access

end AnsiDeck
