import AnsiDeck.Access.KeyHandlers
import AnsiDeck.Accounts.Auth

/-!
# Managing users

The handlers of `routers.users`, each in one step: what an update refuses and changes is
`Users.refuseUpdate` and `Users.changesOf`. Deleting a user takes their memberships and passkeys
with them, and leaves the keys they made without a creator.
-/

namespace AnsiDeck

namespace Access

open Lib (Table)

structure UserCreate where
  username : String
  password : String
  role : Role := .viewer
  projectId : Option ProjectId := none
  email : Option String := none
  deriving DecidableEq

/-- What `UserAdminOut` is made of. -/
structure UserOut where
  id : UserId
  account : Account
  deriving DecidableEq

variable (cfg : Settings) (le : String → String → Bool) (db : Database) (actor : Principal)

/-- `_load`: the object that the guard loaded, if it is that user. -/
def loadUser (userId : UserId) : Answered Account :=
  match if actor.id = some userId then some actor.account else db.account? userId with
  | none => .error ⟨404, "User not found"⟩
  | some account => .ok account

def listUsers : List UserOut :=
  orderBy le (fun out => out.account.user.username)
    ((db.users.rows fun _ _ => true).filterMap fun row =>
      (db.account? row.1).map fun account => { id := row.1, account := account })

/-- The project that a new user is added to: the one asked for, or the only one. -/
def firstProject (role : Role) (projectId : Option ProjectId) : Answered (Option ProjectId) :=
  if role = .admin then .ok none
  else
    match projectId with
    | some projectId =>
      match db.projects.get? projectId with
      | none => .error ⟨400, "Project not found"⟩
      | some _ => .ok (some projectId)
    | none =>
      match db.projects.rows fun _ _ => true with
      | [row] => .ok (some row.1)
      | _ => .ok none

def createUser (userId : UserId) (payload : UserCreate) : Answered (UserOut × Database) := do
  if cfg.users.lower payload.password = cfg.users.lower payload.username then
    .error ⟨400, "Password must not equal the username"⟩
  else if payload.email.any (Users.emailTaken cfg.users db.users userId) then
    .error ⟨409, "Email is already used by another user"⟩
  else
    let projectId ← firstProject db payload.role payload.projectId
    if (userByName db payload.username).isSome ||
        payload.email.any (Users.emailConflict cfg.users db.users userId) then
      .error ⟨400, "Username already exists"⟩
    else
      let user := { username := payload.username,
                    passwordHash := cfg.users.hashPassword payload.password,
                    role := payload.role, email := payload.email }
      return ({ id := userId, account := { user := user } },
        { db with
          users := db.users.put userId user
          members := match projectId with
            | some projectId => db.members.put (projectId, userId) (Role.value payload.role)
            | none => db.members })

/-- `update_user`. The columns that change are set in the row there is. -/
def updateUser (userId : UserId) (payload : Users.UserUpdate) : Answered (UserOut × Database) := do
  let target ← loadUser db actor userId
  match Users.refuseUpdate cfg.users (actor.id = some userId) payload target.user with
  | some error => .error error
  | none =>
    if Users.asksCount target.user (.update payload) &&
        Users.isLastActiveAdmin db.users target.user then
      .error ⟨400, "Cannot remove the last active admin"⟩
    else if (Users.newEmail target.user (.update payload)).any
        (Users.emailTaken cfg.users db.users userId) then
      .error ⟨409, "Email is already used by another user"⟩
    else if Users.writes cfg.users target.user (.update payload) &&
          (db.users.get? userId).isNone ||
        (Users.newEmail target.user (.update payload)).any
          (Users.emailConflict cfg.users db.users userId) then
      .error ⟨500, "Internal Server Error"⟩
    else
      let db := { db with
        users := db.users.modify userId (Users.changesOf cfg.users payload target.user).apply }
      match db.account? userId with
      | none => .error ⟨500, "Internal Server Error"⟩
      | some account => return ({ id := userId, account := account }, db)

def unlinkSso (userId : UserId) : Answered Database := do
  let target ← loadUser db actor userId
  if target.user.ssoSubject = none then return db
  else
    return { db with users := db.users.modify userId fun user =>
      { user with ssoIssuer := none, ssoSubject := none } }

/-- `reset_two_factor`: a later session has the version that the target was loaded with, and one. -/
def resetTwoFactor (userId : UserId) : Answered Database := do
  let target ← loadUser db actor userId
  if actor.id = some userId then
    .error ⟨400, "Turn off your own two-factor login on the Account page"⟩
  else
    match Totp.clearAll target with
    | none => return db
    | some cleared =>
      return { db with
        users := db.users.modify userId fun user =>
          { user with
            totpSecret := cleared.user.totpSecret
            totpPendingSecret := cleared.user.totpPendingSecret
            totpLastCounter := cleared.user.totpLastCounter
            recoveryCodeHashes := cleared.user.recoveryCodeHashes
            webauthnPending := cleared.user.webauthnPending
            sessionVersion := target.user.sessionVersion + 1 }
        passkeys := db.passkeys.remove userId }

def deleteUser (userId : UserId) : Answered Database := do
  let target ← loadUser db actor userId
  if actor.id = some userId then .error ⟨400, "You cannot delete yourself"⟩
  else if Users.isLastActiveAdmin db.users target.user then
    .error ⟨400, "Cannot remove the last active admin"⟩
  else
    return { db with
      users := db.users.remove userId
      passkeys := db.passkeys.remove userId
      members := db.members.deleteWhere fun key _ => key.2 == userId
      keys := db.keys.mapRows fun _ key =>
        if key.createdById = some userId then { key with createdById := none } else key }

end Access

end AnsiDeck
