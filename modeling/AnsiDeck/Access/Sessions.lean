import AnsiDeck.Access.System
import AnsiDeck.Accounts.Factors

/-!
# The sessions of one user

A session is a signed cookie with the user's id and `session_version`. It is good as long as that is
the version the row has (`authenticate_token`), so what is to sign a user out adds one to the row's.
These are the requests that give such a cookie or change what it is checked against, statement by
statement: the logins and `change_password`, `totp_enable` and `add_passkey` of `routers.auth`, the
callback of `routers.sso`, and `update_user` and `reset_two_factor` of `routers.users`.

A request works on the row it loaded when it was authenticated, unless it locks it
(`refresh(.., with_for_update=True)`). `session_version += 1` writes the number it loaded, and one.
What it commits expires the object, so a cookie that it gives after that has the version that the
row has by then.

A request that a throttle, the guard's wish for a second factor or other users' rows (the last
administrator, an address that is taken) end is a `rollback` here, and the other requests on the
account are `other`. A user who is deleted has no session any more, and their id is not given again.
-/

namespace AnsiDeck

namespace Sessions

open Lib (Table)
open Access (Session)
open Auth (Attempt)

/-- What whoever has a cookie has shown, for the proofs. The cookie doesn't say it. -/
structure Grounds where
  /-- They know the password behind this hash. -/
  passwordHash : Option String := none
  /-- A second factor was accepted from them, or set up by them. -/
  factor : Bool := false
  /-- The identity provider vouched for them. -/
  sso : Bool := false
  deriving DecidableEq

/-- A session's cookie. -/
structure Cookie where
  session : Session
  grounds : Grounds
  deriving DecidableEq

/-- The cookie between a password and the second factor. -/
structure MfaCookie where
  sessionVersion : Nat
  issuedAt : Time
  /-- The hash that the password was right for, for the proofs. -/
  passwordHash : String
  deriving DecidableEq

/-- `MFA_MAX_AGE_SECONDS`. -/
def mfaMaxAge : Time := 300

def MfaCookie.live (cookie : MfaCookie) (now : Time) : Bool :=
  cookie.issuedAt ≤ now && now ≤ cookie.issuedAt + mfaMaxAge

structure Settings where
  auth : AuthSettings
  users : Users.Settings
  verifyPassword : String → String → Bool

inductive Request
  | login (password : String)
  /-- `login_mfa` and `login_passkey`. -/
  | loginMfa (cookie : MfaCookie) (attempt : Attempt)
  /-- The callback, for this user; `link` is the identity that they are bound to by it. -/
  | sso (link : Option (String × String))
  | changePassword (cookie : Cookie) (currentPassword newPassword : String)
  | totpEnable (cookie : Cookie) (code : String) (hashes : List Digest)
  | addPasskey (cookie : Cookie) (id : PasskeyId) (name : String) (credential : PasskeyResponse)
      (registered : Bool) (hashes : List Digest)
  | updateUser (isSelf : Bool) (payload : Users.UserUpdate)
  | resetTwoFactor (isSelf : Bool)
  deriving DecidableEq

inductive Phase
  /-- The row as it is loaded. -/
  | loaded (user : User)
  /-- What was asked of the row and the passkeys, at that time, did not end it. -/
  | allowed (seen : Account) (asked : Time)
  /-- It has committed a row with this version, and gives a cookie next. -/
  | committed (sessionVersion : Nat)
  | answered (error : Option HTTPException)
  deriving DecidableEq

structure Tx where
  request : Request
  phase : Phase
  deriving DecidableEq

structure State where
  id : UserId
  account : Account
  now : Time
  /-- All cookies that were given, and the other ones. -/
  cookies : List Cookie := []
  mfaCookies : List MfaCookie := []
  txs : Table Nat Tx := ∅

inductive Label
  | request (tx : Nat) (request : Request)
  /-- The next statement. -/
  | next (tx : Nat)
  /-- The request dies, and its transaction is rolled back. -/
  | rollback (tx : Nat)
  /-- What any other request makes of the account. -/
  | other (account : Account)
  | tick

variable (cfg : Settings)

/-- The version that the row has. -/
def State.version (s : State) : Nat := s.account.user.sessionVersion

/-- `authenticate_token`, of a cookie of this user's. -/
def good (s : State) (cookie : Cookie) : Bool :=
  cookie.session.live s.now &&
    (s.account.user.isActive && s.version == cookie.session.sessionVersion)

/-- What every request but these leaves: the password, the sessions, and which second factors there
are, unless it removes one. -/
def calm (a a' : Account) : Bool :=
  a'.user.passwordHash == a.user.passwordHash && a'.user.sessionVersion == a.user.sessionVersion &&
    a'.user.isActive == a.user.isActive && a'.user.role == a.user.role &&
    (!a'.totpEnabled || a.totpEnabled) && (!a'.twoFactorEnabled || a.twoFactorEnabled)

/-! ## Before anything is written -/

/-- The session that a request comes with. -/
def Request.cookie? : Request → Option Cookie
  | .changePassword cookie _ _ | .totpEnable cookie _ _ |
      .addPasskey cookie _ _ _ _ _ => some cookie
  | _ => none

/-- Cookies are signed: there are none but those that were given. -/
def presents (s : State) : Request → Bool
  | .loginMfa cookie _ => s.mfaCookies.contains cookie
  | request => request.cookie?.all s.cookies.contains

/-- `get_current_user`, of the requests that have one. -/
def authenticates (s : State) (request : Request) : Bool := request.cookie?.all (good s)

/-- How a request ends before it writes anything. -/
inductive Early
  | answer (error : Option HTTPException)
  /-- With a session, of the version that was loaded. -/
  | cookie (grounds : Grounds)
  | mfaCookie

def sessionInvalid : HTTPException := ⟨401, "Session invalid or expired"⟩

/-- What is asked of the row as it was loaded, and of the passkeys; `none` when it goes on. -/
def early (seen : Account) (now : Time) : Request → Option Early
  | .login password =>
    if !cfg.verifyPassword password seen.user.passwordHash || !seen.user.isActive then
      some (.answer (some ⟨401, "Invalid username or password"⟩))
    else if seen.twoFactorEnabled then some .mfaCookie
    else some (.cookie { passwordHash := some seen.user.passwordHash })
  | .loginMfa cookie _ =>
    if !cookie.live now || !seen.user.isActive ||
        seen.user.sessionVersion != cookie.sessionVersion || !seen.twoFactorEnabled then
      some (.answer (some ⟨401, "Sign-in expired. Start again."⟩))
    else none
  | .sso link =>
    if !seen.user.isActive then some (.answer (some ⟨302, "/login?sso_error=not_linked"⟩))
    else if link.isNone then some (.cookie { sso := true })
    else none
  | .changePassword _ currentPassword newPassword =>
    if !cfg.verifyPassword currentPassword seen.user.passwordHash then
      some (.answer (some ⟨401, "Current password is incorrect"⟩))
    else if cfg.users.lower newPassword == cfg.users.lower seen.user.username then
      some (.answer (some ⟨400, "Password must not equal your username"⟩))
    else none
  | .totpEnable _ code hashes =>
    (Auth.totpEnable cfg.auth seen code hashes now).refused.map fun e => .answer (some e)
  | .addPasskey .. => none
  | .updateUser isSelf payload =>
    (Users.refuseUpdate cfg.users isSelf payload seen.user).map fun e => .answer (some e)
  | .resetTwoFactor isSelf =>
    if isSelf then
      some (.answer (some ⟨400, "Turn off your own two-factor login on the Account page"⟩))
    else if (Totp.clearAll seen).isNone then some (.answer none)
    else none

/-! ## What is written -/

/-- A commit, after which the request answers with this, or gives a cookie (`none`). -/
structure Commit where
  account : Account
  answer : Option (Option HTTPException) := none

/-- The columns that change are set in the row there is. -/
def withUser (a : Account) (f : User → User) : Account := { a with user := f a.user }

/-- A column that is set to null, which is no change where it was null. -/
def nulled {α : Type} (seen row : Option α) : Option α := if seen.isSome then none else row

/-- `reset_two_factor` takes what it loaded. -/
def withoutFactors (a seen : Account) : Account :=
  { user := { a.user with
      totpSecret := nulled seen.user.totpSecret a.user.totpSecret
      totpPendingSecret := nulled seen.user.totpPendingSecret a.user.totpPendingSecret
      totpLastCounter := nulled seen.user.totpLastCounter a.user.totpLastCounter
      recoveryCodeHashes := nulled seen.user.recoveryCodeHashes a.user.recoveryCodeHashes
      webauthnPending := nulled seen.user.webauthnPending a.user.webauthnPending
      sessionVersion := seen.user.sessionVersion + 1 }
    passkeys := a.passkeys.filter fun p => !seen.passkeys.any fun q => q.id == p.id }

/-- What a request writes of the account `a`, which it has locked or updates. -/
def commit (a seen : Account) (asked now : Time) : Request → Option Commit
  | .login _ => none
  | .loginMfa _ attempt =>
    let r := Auth.proving cfg.auth a attempt now
    some ⟨r.account, r.refused.map some⟩
  | .sso link => link.map fun identity =>
    ⟨withUser a fun user =>
      { user with ssoIssuer := some identity.1, ssoSubject := some identity.2 }, none⟩
  | .changePassword _ _ newPassword =>
    some ⟨withUser a fun user => { user with
      passwordHash := cfg.users.hashPassword newPassword
      sessionVersion := seen.user.sessionVersion + 1 }, none⟩
  | .totpEnable _ code hashes =>
    (Factors.columns cfg.auth seen asked (.totpEnable code hashes)).map fun columns =>
      ⟨withUser a columns.apply, none⟩
  | .addPasskey _ id name credential registered hashes =>
    let r := Factors.handled cfg.auth a id now (.addPasskey name credential registered hashes)
    -- only with the first second factor the other sessions end, and this one is renewed
    some ⟨r.account, if r.refused.isSome || a.twoFactorEnabled then some r.refused else none⟩
  | .updateUser _ payload =>
    some ⟨withUser a (Users.changesOf cfg.users payload seen.user).apply, some none⟩
  | .resetTwoFactor _ => some ⟨withoutFactors a seen, some none⟩

/-- What a session shows that is given after the commit. -/
def granted : Request → Grounds
  | .loginMfa cookie _ => { passwordHash := some cookie.passwordHash, factor := true }
  | .sso _ => { sso := true }
  | .changePassword cookie _ newPassword =>
    { cookie.grounds with passwordHash := some (cfg.users.hashPassword newPassword) }
  | .totpEnable cookie _ _ | .addPasskey cookie _ _ _ _ _ => { cookie.grounds with factor := true }
  | _ => {}

/-- `_set_session_cookie`'s method. -/
def Request.isSso : Request → Bool
  | .sso _ => true
  | _ => false

/-! ## Steps -/

def putTx (s : State) (tx : Nat) (row : Tx) (phase : Phase) : State :=
  { s with txs := s.txs.put tx { row with phase := phase } }

/-- `_set_session_cookie`, for a session of this version. -/
def giveCookie (s : State) (request : Request) (sessionVersion : Nat) (grounds : Grounds) : State :=
  { s with cookies := ⟨⟨s.id, sessionVersion, request.isSso, s.now⟩, grounds⟩ :: s.cookies }

def nextStatement (s : State) (tx : Nat) (row : Tx) : Option State :=
  match row.phase with
  | .loaded user =>
    let seen : Account := ⟨user, s.account.passkeys⟩
    match early cfg seen s.now row.request with
    | none => some (putTx s tx row (.allowed seen s.now))
    | some (.answer error) => some (putTx s tx row (.answered error))
    | some (.cookie grounds) =>
      some (putTx (giveCookie s row.request user.sessionVersion grounds) tx row (.answered none))
    | some .mfaCookie =>
      some { putTx s tx row (.answered none) with
        mfaCookies := ⟨user.sessionVersion, s.now, user.passwordHash⟩ :: s.mfaCookies }
  | .allowed seen asked =>
    (commit cfg s.account seen asked s.now row.request).map fun c =>
      { putTx s tx row (match c.answer with
          | some error => .answered error
          | none => .committed c.account.user.sessionVersion) with account := c.account }
  | .committed _ =>
    some (putTx (giveCookie s row.request s.version (granted cfg row.request)) tx row
      (.answered none))
  | .answered _ => none

def step (s : State) : Label → Option State
  | .request tx request =>
    if (s.txs.get? tx).isSome || !presents s request then none
    else
      some { s with txs := s.txs.put tx ⟨request,
        if authenticates s request then .loaded s.account.user
        else .answered (some sessionInvalid)⟩ }
  | .next tx => do
    let row ← s.txs.get? tx
    nextStatement cfg s tx row
  | .rollback tx => some { s with txs := s.txs.remove tx }
  | .other account => if calm s.account account then some { s with account := account } else none
  | .tick => some { s with now := s.now + 1 }

/-- Any user, before their first session. -/
def system : Lib.System State Label where
  init s := s.cookies = [] ∧ s.mfaCookies = [] ∧ s.txs = ∅
  step := step cfg

end Sessions

end AnsiDeck
