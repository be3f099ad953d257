import AnsiDeck.Accounts.TwoFactor

/-!
# Logins, step-ups, enrolments and removals

The handlers of `routers.auth` that ask for a second factor or change one, each over the account as
it is when the handler has the user's row to itself: what it commits, what it answers and, for the
log, what it accepted and issued. A request that a throttle or a wrong password ends changes nothing
here and has no handler; neither has renaming a passkey.
-/

namespace AnsiDeck

namespace Auth

/-- What a request did with second factors. -/
inductive Event
  /-- TOTP was enabled, with the code of this time step. -/
  | enrolled (counter : Counter)
  | accepted (proof : Proof)
  | issuedCodes (hashes : List Digest)
  | issuedChallenge (purpose : Purpose) (challenge : String)
  /-- A passkey was registered in answer to this challenge. -/
  | registered (challenge : String)
  deriving DecidableEq

/-- How a request ends: what is committed, the events in their order, and the refusal. -/
structure Reply where
  account : Account
  events : List Event := []
  refused : Option HTTPException := none

variable (cfg : AuthSettings)

def refuse (a : Account) (status : Nat) (detail : String) : Reply :=
  { account := a, refused := some ⟨status, detail⟩ }

/-! ## The second factor -/

/-- What a client sends to prove a second factor. -/
inductive Attempt
  | codes (code recoveryCode : Option String)
  | passkey (credential : PasskeyResponse) (purpose : Purpose)
  deriving DecidableEq

/-- `_check_second_factor`, after it has locked and read the row: the account, and the proof. -/
def checkSecondFactor (a : Account) (attempt : Attempt) (now : Time) :
    Account × Except HTTPException Proof :=
  match attempt with
  | .passkey credential purpose =>
    match Passkeys.verifyAssertion cfg a credential purpose now with
    | (a, .ok proof) => (a, .ok proof)
    | (a, .error e) => (a, .error ⟨401, e.message⟩)
  | .codes code recoveryCode =>
    match Totp.useSecondFactor cfg a code recoveryCode now with
    | some (proof, a) => (a, .ok proof)
    | none => (a, .error ⟨401, "That code is not valid"⟩)

/-- `SecondFactorProof`: either a code or a passkey's response. -/
inductive SecondFactorProof
  | code (code : String)
  | passkey (credential : PasskeyResponse)
  deriving DecidableEq

/-- A 6-digit entry is a TOTP code, anything else a recovery code. -/
def SecondFactorProof.attempt : SecondFactorProof → Attempt
  | .passkey credential => .passkey credential .stepUp
  | .code entry =>
    if Totp.looksLikeTotpCode entry then .codes (some entry) none else .codes none (some entry)

/-- `_check_proof`. -/
def checkProof (a : Account) (proof : SecondFactorProof) (now : Time) :
    Account × Except HTTPException Proof :=
  checkSecondFactor cfg a proof.attempt now

/-- `admin_2fa_required`: of an administrator, of everything or of a project. -/
def admin2faRequired (a : Account) (projectRoles : List Role) : Bool :=
  cfg.requireAdmin2fa && (a.user.role == .admin || projectRoles.contains .admin)

/-- What is being removed. -/
inductive Factor
  | totp
  | passkey
  deriving DecidableEq

/-- How many factors are left after the removal. -/
def left (a : Account) (removing : Factor) : Int :=
  (if a.totpEnabled && removing != .totp then 1 else 0) + a.passkeys.length
    - (if removing = .passkey then 1 else 0)

/-- `_refuse_removing_last_factor`. -/
def refuseRemovingLastFactor (a : Account) (projectRoles : List Role) (removing : Factor) :
    Option HTTPException :=
  if left a removing = 0 && admin2faRequired cfg a projectRoles then
    some ⟨409, "Admins must keep a second factor here: add another one before removing this one"⟩
  else none

/-! ## Logging in -/

/-- `_mfa_user`, and a handler for that user. -/
def withMfaUser (a : Account) (handler : Account → Reply) : Reply :=
  if !a.user.isActive || !a.twoFactorEnabled then refuse a 401 "Sign-in expired. Start again."
  else handler a

/-- A request that only has to prove a second factor. -/
def proving (a : Account) (attempt : Attempt) (now : Time) : Reply :=
  match checkSecondFactor cfg a attempt now with
  | (a, .ok proof) => { account := a, events := [.accepted proof] }
  | (a, .error e) => { account := a, refused := some e }

def loginMfa (a : Account) (code recoveryCode : Option String) (now : Time) : Reply :=
  withMfaUser a fun a => proving cfg a (.codes code recoveryCode) now

def loginPasskey (a : Account) (credential : PasskeyResponse) (now : Time) : Reply :=
  withMfaUser a fun a => proving cfg a (.passkey credential .login) now

/-- Options for `navigator.credentials.get()`. -/
def options (a : Account) (challenge : String) (purpose : Purpose) (now : Time) : Reply :=
  match Passkeys.authenticationOptions cfg a challenge purpose now with
  | .ok a => { account := a, events := [.issuedChallenge purpose challenge] }
  | .error e => refuse a 404 e.message

def loginPasskeyOptions (a : Account) (challenge : String) (now : Time) : Reply :=
  withMfaUser a fun a => options cfg a challenge .login now

def passkeyStepUpOptions (a : Account) (challenge : String) (now : Time) : Reply :=
  options cfg a challenge .stepUp now

/-! ## Enrolling -/

def totpSetup (a : Account) (secret : String) : Reply :=
  if a.totpEnabled then refuse a 409 "Two-factor login is already on"
  else { account := { a with user := { a.user with totpPendingSecret := some secret } } }

/-- New recovery codes, when they are the first factor's. -/
def firstCodes (a : Account) (hashes : List Digest) : List Event :=
  if a.twoFactorEnabled then [] else [.issuedCodes hashes]

def bumpSession (a : Account) : Account :=
  { a with user := { a.user with sessionVersion := a.user.sessionVersion + 1 } }

def totpEnable (a : Account) (code : String) (hashes : List Digest) (now : Time) : Reply :=
  if a.totpEnabled then refuse a 409 "Two-factor login is already on"
  else
    match a.user.totpPendingSecret with
    | none => refuse a 400 "Start the setup first"
    | some secret =>
      match Totp.matchCounter cfg secret code none now with
      | none => refuse a 400
          "That code is not valid. Check the time on your device and try the next code."
      | some counter =>
        { account := bumpSession (Totp.enable a counter hashes)
          events := .enrolled counter :: firstCodes a hashes }

def regenerateRecoveryCodes (a : Account) (hashes : List Digest) : Reply :=
  if !a.twoFactorEnabled then refuse a 400 "Two-factor login is off"
  else
    { account := { a with user := { a.user with recoveryCodeHashes := some hashes } }
      events := [.issuedCodes hashes] }

def passkeyRegistrationOptions (a : Account) (challenge handle : String) (now : Time) : Reply :=
  match Passkeys.registrationOptions cfg a challenge handle now with
  | .ok a => { account := a, events := [.issuedChallenge .register challenge] }
  | .error e => refuse a (if e = Passkeys.unavailable then 404 else 409) e.message

/-- The passkeys and codes of an account that gets one more. -/
def withPasskey (a : Account) (passkey : WebAuthnCredential) (hashes : List Digest) : Account :=
  let added := { a with passkeys := a.passkeys ++ [passkey] }
  if a.twoFactorEnabled then added
  else bumpSession { added with user := { a.user with recoveryCodeHashes := some hashes } }

/-- `registered` says whether any user has a passkey with this credential id. -/
def addPasskey (a : Account) (id : PasskeyId) (name : String) (credential : PasskeyResponse)
    (registered : String → Bool) (hashes : List Digest) (now : Time) : Reply :=
  if a.passkeys.any fun p => p.name == name then
    refuse a 409 "You already have a passkey with that name"
  else
    match Passkeys.verifyRegistration cfg a credential now with
    | (a, .error e) => refuse a 400 e.message
    | (a, .ok (challenge, new)) =>
      if registered new.credentialId then
        { refuse a 409 "That passkey is already registered" with events := [.registered challenge] }
      else
        { account := withPasskey a ⟨id, new.credentialId, new.publicKey, new.signCount, name, none⟩
            hashes
          events := .registered challenge :: firstCodes a hashes }

/-! ## Removing -/

/-- A removal after its second factor was checked. -/
def removing (checked : Account × Except HTTPException Proof)
    (remove : Account → Account) : Reply :=
  match checked with
  | (a, .ok proof) => { account := remove a, events := [.accepted proof] }
  | (a, .error e) => { account := a, refused := some e }

def totpDisable (a : Account) (projectRoles : List Role) (proof : SecondFactorProof) (now : Time) :
    Reply :=
  if !a.totpEnabled then { account := a }
  else
    match refuseRemovingLastFactor cfg a projectRoles .totp with
    | some e => { account := a, refused := some e }
    | none => removing (checkProof cfg a proof now) Totp.clear

/-- The recovery codes go with the last factor. -/
def withoutPasskey (a : Account) (id : PasskeyId) : Account :=
  let removed := { a with passkeys := a.passkeys.filter fun p => p.id != id }
  if removed.twoFactorEnabled then removed
  else { removed with user := { a.user with recoveryCodeHashes := none } }

def removePasskey (a : Account) (projectRoles : List Role) (id : PasskeyId)
    (proof : SecondFactorProof) (now : Time) : Reply :=
  if !a.passkeys.any fun p => p.id == id then refuse a 404 "Passkey not found"
  else
    match refuseRemovingLastFactor cfg a projectRoles .passkey with
    | some e => { account := a, refused := some e }
    | none => removing (checkProof cfg a proof now) fun a => withoutPasskey a id

/-- `reset_two_factor`, by an administrator or from the server's command line. -/
def resetTwoFactor (a : Account) : Reply :=
  match Totp.clearAll a with
  | none => { account := a }
  | some cleared => { account := bumpSession cleared }

end Auth

end AnsiDeck
