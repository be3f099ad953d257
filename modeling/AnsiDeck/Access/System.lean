import AnsiDeck.Access.UserHandlers
import AnsiDeck.Lib.System

/-!
# Requests, from the credential to the commit

A request is authenticated (`dependencies.get_current_user`), then guarded (`permissions.guard`),
and then its handler runs. Each reads what is committed then: between them other requests change
users, members and keys, and a handler still acts for the principal that was loaded and the roles
that were read. A handler is one step.

No route here is open to API keys, or to somebody who still has to set up a second factor. The
throttle of bad keys and the audit log are not modelled.
-/

namespace AnsiDeck

namespace Access

open Lib (Dict Str Table)
open Permission

inductive Call
  | listMembers (projectId : ProjectId)
  | addMemberByUsername (projectId : ProjectId) (username : String) (role : Role)
  | setMember (projectId : ProjectId) (userId : UserId) (role : Role)
  | removeMember (projectId : ProjectId) (userId : UserId)
  | listProjects
  | createProject (fresh : ProjectId) (name : String) (description : Option String)
  | updateProject (projectId : ProjectId) (name description : Option String)
  | deleteProject (projectId : ProjectId)
  | listPlaybooks (projectId : Option ProjectId)
  | createPlaybook (fresh : Nat) (projectId : Option ProjectId) (name content : String)
  | getPlaybook (id : Nat)
  | updatePlaybook (id : Nat) (name content : Option String)
  | deletePlaybook (id : Nat)
  | listApiKeys (projectId : ProjectId)
  | createApiKey (projectId : ProjectId) (payload : ApiKeyCreate) (fresh : NewToken)
  | rotateApiKey (projectId : ProjectId) (keyId : ApiKeyId) (currentPassword : Option String)
      (fresh : NewToken)
  | updateApiKeyLimits (projectId : ProjectId) (keyId : ApiKeyId) (limits : ApiKeyLimits)
  | revokeApiKey (projectId : ProjectId) (keyId : ApiKeyId)
  | listUsers
  | createUser (fresh : UserId) (payload : UserCreate)
  | updateUser (userId : UserId) (payload : Users.UserUpdate)
  | unlinkSso (userId : UserId)
  | resetTwoFactor (userId : UserId)
  | deleteUser (userId : UserId)
  deriving DecidableEq

namespace Call

/-- What the route's guard requires somewhere. -/
def required : Call → Permission
  | listMembers .. | addMemberByUsername .. | setMember .. | removeMember .. => membersManage
  | listProjects => contentRead
  | createProject .. | updateProject .. | deleteProject .. => projectsManage
  | listPlaybooks .. | getPlaybook .. => contentRead
  | createPlaybook .. | updatePlaybook .. | deletePlaybook .. => contentWrite
  | listApiKeys .. | createApiKey .. | rotateApiKey .. | updateApiKeyLimits .. | revokeApiKey .. =>
    apiKeysManage
  | listUsers | createUser .. | updateUser .. | unlinkSso .. | resetTwoFactor .. | deleteUser .. =>
    usersManage

/-- The id that the database assigns is nobody's. -/
def unused (db : Database) : Call → Bool
  | createProject fresh _ _ => (db.projects.get? fresh).isNone
  | createPlaybook fresh _ _ _ => (db.playbooks.get? fresh).isNone
  | createApiKey _ _ fresh | rotateApiKey _ _ _ fresh => (db.keys.get? fresh.id).isNone
  | createUser fresh _ => (db.users.get? fresh).isNone
  | _ => true

/-- The token of the key it makes. -/
def newToken : Call → Option NewToken
  | createApiKey _ _ fresh | rotateApiKey _ _ _ fresh => some fresh
  | _ => none

end Call

inductive Answer
  | members (rows : List MemberOut)
  | member (row : MemberOut)
  | projects (rows : List ProjectOut)
  | project (row : ProjectOut)
  | playbooks (rows : List PlaybookOut)
  | playbook (row : PlaybookOut)
  | keys (rows : List ApiKeyOut)
  | key (row : ApiKeyOut)
  | users (rows : List UserOut)
  | user (row : UserOut)
  | done
  deriving DecidableEq

section Handle

variable (cfg : Settings) (le : String → String → Bool)

/-- A handler that only reads. -/
def reads {α : Type} (db : Database) (answer : α → Answer) (result : Answered α) :
    Answered (Answer × Database) :=
  result.map fun row => (answer row, db)

/-- A handler that answers with what it wrote. -/
def writes {α : Type} (answer : α → Answer) (result : Answered (α × Database)) :
    Answered (Answer × Database) :=
  result.map fun written => (answer written.1, written.2)

/-- A handler that answers nothing. -/
def does (result : Answered Database) : Answered (Answer × Database) :=
  result.map fun db => (.done, db)

def handle (db : Database) (actor : Principal) (session : Option Session) :
    Call → Answered (Answer × Database)
  | .listMembers projectId => reads db .members (listMembers le db actor projectId)
  | .addMemberByUsername projectId username role =>
    writes .member (addMemberByUsername db actor projectId username role)
  | .setMember projectId userId role => writes .member (setMember db actor projectId userId role)
  | .removeMember projectId userId => does (removeMember db actor projectId userId)
  | .listProjects => .ok (.projects (listProjects le db actor), db)
  | .createProject fresh name description =>
    writes .project (createProject cfg db fresh name description)
  | .updateProject projectId name description =>
    writes .project (updateProject cfg db projectId name description)
  | .deleteProject projectId => does (deleteProject db projectId)
  | .listPlaybooks projectId => reads db .playbooks (listPlaybooks le db actor projectId)
  | .createPlaybook fresh projectId name content =>
    writes .playbook (createPlaybook cfg db actor fresh projectId name content)
  | .getPlaybook id => reads db .playbook (getPlaybook db actor id)
  | .updatePlaybook id name content =>
    writes .playbook (updatePlaybook cfg db actor id name content)
  | .deletePlaybook id => does (deletePlaybook cfg db actor id)
  | .listApiKeys projectId => reads db .keys (listApiKeys db actor projectId)
  | .createApiKey projectId payload fresh =>
    writes .key (createApiKey cfg db actor projectId session payload fresh)
  | .rotateApiKey projectId keyId currentPassword fresh =>
    writes .key (rotateApiKey cfg db actor projectId keyId session currentPassword fresh)
  | .updateApiKeyLimits projectId keyId limits =>
    writes .key (updateApiKeyLimits cfg db actor projectId keyId limits)
  | .revokeApiKey projectId keyId => does (revokeApiKey db actor projectId keyId)
  | .listUsers => .ok (.users (listUsers le db), db)
  | .createUser fresh payload => writes .user (createUser cfg db fresh payload)
  | .updateUser userId payload => writes .user (updateUser cfg db actor userId payload)
  | .unlinkSso userId => does (unlinkSso db actor userId)
  | .resetTwoFactor userId => does (resetTwoFactor db actor userId)
  | .deleteUser userId => does (deleteUser db actor userId)

end Handle

/-! ## Authenticating, and the guard -/

inductive Credential
  | nothing
  | cookie (session : Session)
  /-- An Authorization header is used exclusively: never the cookie beside it. -/
  | bearer (token : Str)
  deriving DecidableEq

def Credential.session : Credential → Option Session
  | cookie session => some session
  | nothing | bearer _ => none

/-- `authenticate_token`, of a cookie whose signature is good: the user is read again every time. -/
def authenticateToken (db : Database) (session : Session) : Option Principal :=
  if session.live db.now then
    (db.principal? session.userId).filter fun user =>
      user.account.user.isActive && user.account.user.sessionVersion == session.sessionVersion
  else none

/-- `get_current_user`, without the throttle of bad keys (429), which only refuses more. -/
def getCurrentUser (cfg : Settings) (db : Database) (credential : Credential) (ip : Str) :
    Answered Principal × Database :=
  match credential with
  | .nothing => (.error ⟨401, "Not authenticated"⟩, db)
  | .cookie session =>
    match authenticateToken db session with
    | none => (.error ⟨401, "Session invalid or expired"⟩, db)
    | some user => (.ok user, db)
  | .bearer token =>
    match authenticateApiKey cfg db token ip with
    | (.error _, db) => (.error ⟨401, "Invalid API key"⟩, db)
    | (.ok user, db) => (.ok user, db)

/-- `two_factor_setup_required`. -/
def twoFactorSetupRequired (cfg : Settings) (db : Database) (user : Principal)
    (session : Option Session) : Bool :=
  !(user.apiKeyId.isSome || user.account.twoFactorEnabled) &&
    session.all (fun session => !session.sso) &&
    admin2faRequired db.members cfg.requireAdmin2fa user

/-- `guard`, of a route that neither API keys nor a second factor's setup may use. The roles it
reads are kept for the request. -/
def guard (cfg : Settings) (db : Database) (user : Principal) (session : Option Session)
    (required : Permission) : Answered Principal :=
  if user.apiKeyId.isSome then .error ⟨403, "API keys cannot use this endpoint"⟩
  else if twoFactorSetupRequired cfg db user session then
    .error ⟨403, "Set up two-factor login first"⟩
  else if !holdsSomewhere db.members user required then .error forbidden
  else .ok { user with projectRoles := some (userProjectRoles db.members user) }

/-! ## The system -/

inductive Phase
  | authenticated (user : Principal)
  | guarded (user : Principal)
  | answered (answer : Answered Answer)

structure Tx where
  session : Option Session
  call : Call
  phase : Phase

structure State where
  db : Database
  txs : Table Nat Tx := ∅

inductive Label
  /-- `get_current_user`, without the throttle of bad keys (429), which only refuses more. -/
  | request (tx : Nat) (credential : Credential) (ip : Str) (call : Call)
  | guard (tx : Nat)
  | handle (tx : Nat)
  /-- The request dies. -/
  | rollback (tx : Nat)
  /-- What a sign-in or the account page writes: never a role, nor whether the user is active. -/
  | account (userId : UserId) (user : User) (passkeys : List WebAuthnCredential)
  /-- Other routers' things come and go. -/
  | item (kind : Kind) (id : Nat) (item : Option Item)
  | tick
  | prune (retentionDays : Nat)

variable (cfg : Settings) (le : String → String → Bool)

def putTx (s : State) (tx : Nat) (row : Tx) (phase : Phase) : State :=
  { s with txs := s.txs.put tx { row with phase := phase } }

/-- What nobody changes of their own. -/
def sameStanding (user user' : User) : Bool :=
  user'.username == user.username && user'.role == user.role && user'.isActive == user.isActive

def step (s : State) : Label → Option State
  | .request tx credential ip call =>
    if (s.txs.get? tx).isSome then none
    else
      match getCurrentUser cfg s.db credential ip with
      | (.error e, db) =>
        some (putTx { s with db := db } tx ⟨credential.session, call, .answered (.error e)⟩
          (.answered (.error e)))
      | (.ok user, db) =>
        some (putTx { s with db := db } tx ⟨credential.session, call, .authenticated user⟩
          (.authenticated user))
  | .guard tx =>
    match s.txs.get? tx with
    | some ⟨session, call, .authenticated user⟩ =>
      match guard cfg s.db user session call.required with
      | .error e => some (putTx s tx ⟨session, call, .authenticated user⟩ (.answered (.error e)))
      | .ok user => some (putTx s tx ⟨session, call, .authenticated user⟩ (.guarded user))
    | _ => none
  | .handle tx =>
    match s.txs.get? tx with
    | some ⟨session, call, .guarded user⟩ =>
      if !call.unused s.db then none
      else
        match handle cfg le s.db user session call with
        | .error e => some (putTx s tx ⟨session, call, .guarded user⟩ (.answered (.error e)))
        | .ok (answer, db) =>
          some (putTx { s with db := db } tx ⟨session, call, .guarded user⟩
            (.answered (.ok answer)))
    | _ => none
  | .rollback tx => some { s with txs := s.txs.remove tx }
  | .account userId user passkeys =>
    match s.db.users.get? userId with
    | none => none
    | some row =>
      if sameStanding row user then
        some { s with db := { s.db with
          users := s.db.users.put userId user, passkeys := s.db.passkeys.put userId passkeys } }
      else none
  | .item kind id item =>
    some { s with db := { s.db with items := match item with
      | some item => s.db.items.put (kind, id) item
      | none => s.db.items.remove (kind, id) } }
  | .tick => some { s with db := { s.db with now := s.db.now + 1 } }
  | .prune retentionDays => some { s with db := pruneKeys s.db retentionDays }

/-- Any database, in which no two keys have the same prefix (it is unique), and no request in
flight. -/
def system : Lib.System State Label where
  init s := s.txs = ∅ ∧ s.db.keys.Pairs fun a b => a.shownPrefix ≠ b.shownPrefix
  step := step cfg le

end Access

end AnsiDeck
