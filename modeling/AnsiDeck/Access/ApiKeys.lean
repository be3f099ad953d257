import AnsiDeck.Access.Scoping
import AnsiDeck.Accounts.Users
import AnsiDeck.Lib.IpNetwork
import AnsiDeck.Lib.Unicode

/-!
# API keys

`app.api_keys`: the token `ansd_<8 hex prefix>_<secret>`, when a key works, and the principal it
becomes. The prefix finds the row; the hash of the whole token has to be the row's.
-/

namespace AnsiDeck

namespace Access

open Lib (Dict IpAddress IpNetwork Str Table Unicode str)
open Permission

structure Settings where
  /-- How passwords are hashed and text is compared. -/
  users : Users.Settings
  verifyPassword : String → String → Bool
  /-- `str.strip`. -/
  strip : String → String
  unicode : Unicode
  /-- `repr`, of a text. -/
  repr : Str → String
  /-- SHA-256 of a token. -/
  hashToken : Str → Digest
  /-- The message, if `yaml.load` raises. -/
  yamlError : String → Option String
  requireAdmin2fa : Bool := false

def maxTokenLength : Nat := 200

def lastUsedGranularity : Time := 60

def maxKeysPerProject : Nat := 50

def isHex (c : Nat) : Bool := 48 ≤ c && c ≤ 57 || 97 ≤ c && c ≤ 102

def parsePrefix (token : Str) : Option Str :=
  if maxTokenLength < token.length then none
  else do
    let (name, rest) ← Str.partition (str "_") token
    -- the secret itself may contain "_"
    let (shownPrefix, secret) ← Str.partition (str "_") rest
    if name ≠ str "ansd" ∨ secret = [] then none
    else if shownPrefix.length ≠ 8 ∨ !shownPrefix.all isHex then none
    else some shownPrefix

/-! ## When a key works -/

/-- `key_status`; `suspended` is only shown (`creator_problem`). -/
inductive KeyStatus
  | active
  | suspended
  | expired
  | revoked
  deriving DecidableEq, Repr

def KeyStatus.value : KeyStatus → String
  | active => "active"
  | suspended => "suspended"
  | expired => "expired"
  | revoked => "revoked"

def keyStatus (key : ApiKey) (now : Time) : KeyStatus :=
  if key.revokedAt.isSome then .revoked
  else if key.expiresAt ≤ now then .expired
  else .active

/-- Why the key's creator no longer vouches for it. -/
def creatorProblem (db : Database) (key : ApiKey) : Option String :=
  match key.createdById.bind db.principal? with
  | none => some "creator deleted"
  | some creator =>
    if !creator.account.user.isActive then some "creator deactivated"
    else if !(projectPermissions db.members creator key.projectId).contains apiKeysManage then
      some "creator can no longer manage this project's keys"
    else none

/-- `address.ipv4_mapped`, of an IPv6 address, or the address. -/
def ofMapped (address : IpAddress) : IpAddress :=
  if address.family = .v6 ∧ address.value / 2 ^ 32 = 0xffff then
    { family := .v4, value := address.value % 2 ^ 32 }
  else address

/-- `address in ip_network(text)`, of a network as it is stored. -/
def inNetwork (address : IpAddress) (text : Str) : Bool :=
  (IpNetwork.parse text).any fun n =>
    n.network.family = address.family && n.network.first ≤ address.value
      && address.value ≤ n.network.last

def addressAllowed (key : ApiKey) (ip : Str) : Bool :=
  match key.allowedNetworks with
  | none | some [] => true
  | some networks =>
    match IpAddress.parse ip with
    | none => false
    | some address => networks.any (inNetwork (ofMapped address))

/-- A transient user: never a global admin, with one project role. -/
def principalFor (id : ApiKeyId) (key : ApiKey) : Principal where
  id := none
  account := { user := { username := "apikey:" ++ key.name, passwordHash := "!", role := .viewer } }
  projectRoles := some ((∅ : Dict ProjectId String).set key.projectId (keyRole key.preset))
  apiKeyId := some id
  allowedPlaybookIds := key.allowedPlaybookIds
  allowedInventoryIds := key.allowedInventoryIds

/-- `run_limit_problem`: why an API key may not start this run. -/
def runLimitProblem (user : Principal) (playbookId inventoryId : Nat) : Option String :=
  if user.allowedPlaybookIds.any fun ids => !ids.contains playbookId then
    some "This API key may not run this playbook"
  else if user.allowedInventoryIds.any fun ids => !ids.contains inventoryId then
    some "This API key may not run against this inventory"
  else none

/-- The key whose prefix it is. -/
def keyByPrefix (db : Database) (shownPrefix : Str) : Option (ApiKeyId × ApiKey) :=
  (db.keys.rows fun _ key => key.shownPrefix == shownPrefix).head?

section Authenticate

variable (cfg : Settings) (db : Database) (token ip : Str)

/-- Whose key the token is, or why it doesn't work. -/
def checkKey : Except String (ApiKeyId × ApiKey) :=
  match parsePrefix token with
  | none => .error "malformed"
  | some shownPrefix =>
    match keyByPrefix db shownPrefix with
    | none => .error "unknown key"
    | some (id, key) =>
      if cfg.hashToken token ≠ key.tokenHash then .error "bad secret"
      else if keyStatus key db.now ≠ .active then .error (keyStatus key db.now).value
      else
        match creatorProblem db key with
        | some problem => .error ("suspended: " ++ problem)
        | none => if addressAllowed key ip then .ok (id, key) else .error "address not allowed"

/-- When and from where it was used, once a minute. -/
def touched (key : ApiKey) : ApiKey :=
  if key.lastUsedAt.all fun last => last + lastUsedGranularity ≤ db.now then
    { key with lastUsedAt := some db.now, lastUsedIp := some ip }
  else key

/-- `authenticate_api_key`. -/
def authenticateApiKey : Except String Principal × Database :=
  match checkKey cfg db token ip with
  | .error reason => (.error reason, db)
  | .ok (id, key) =>
    (.ok (principalFor id key), { db with keys := db.keys.put id (touched db ip key) })

end Authenticate

/-- Revoked, or expired, more than the retention ago. -/
def prunable (now : Time) (retentionDays : Nat) (key : ApiKey) : Bool :=
  key.revokedAt.getD key.expiresAt + retentionDays * 86400 < now

/-- `prune_keys`; no retention keeps them. -/
def pruneKeys (db : Database) (retentionDays : Nat) : Database :=
  if retentionDays = 0 then db
  else { db with keys := db.keys.deleteWhere fun _ key => prunable db.now retentionDays key }

/-- `lifetime_days`: what the key was created with, in whole days (`round` goes to the even one). -/
def lifetimeDays (key : ApiKey) : Nat :=
  let seconds := key.expiresAt - key.createdAt
  let days := seconds / 86400
  let half := seconds % 86400
  let rounded := if half * 2 < 86400 ∨ half * 2 = 86400 ∧ days % 2 = 0 then days else days + 1
  max 1 (min 365 rounded)

end Access

end AnsiDeck
