import AnsiDeck.Accounts.Models

/-!
# Second factors

`app.totp` and `app.passkeys` over an account: a user's row and its passkeys. What HMAC gives for a
secret and a time step, the hash of a recovery code and what the WebAuthn library makes of a
response are functions of the settings. Random values (secrets, challenges, codes) and the time are
arguments.

A check that passes returns a `Proof`, which says more of what it used than the method's name that
the source returns.
-/

namespace AnsiDeck

/-- A user with their passkeys. -/
structure Account where
  user : User
  passkeys : List WebAuthnCredential := []
  deriving DecidableEq

namespace Account

def totpEnabled (a : Account) : Bool := a.user.totpSecret.isSome

def twoFactorEnabled (a : Account) : Bool := a.totpEnabled || !a.passkeys.isEmpty

end Account

/-- A second factor that was accepted. -/
inductive Proof
  | totp (counter : Counter)
  /-- Of the code with this hash. -/
  | recoveryCode (hash : Digest)
  /-- The answer to a challenge, by a passkey with its sign count before and after. -/
  | passkey (purpose : Purpose) (challenge : String) (id : PasskeyId) (before after : Nat)
  deriving DecidableEq

/-- The name the source returns. -/
def Proof.method : Proof → String
  | totp _ => "totp"
  | recoveryCode _ => "recovery_code"
  | passkey .. => "passkey"

/-- A WebAuthn response, as the browser returned it. -/
structure PasskeyResponse where
  rawId : Option String := none
  id : Option String := none
  response : String := ""
  deriving DecidableEq

/-- What the library made of a registration. -/
structure NewPasskey where
  credentialId : String
  publicKey : String
  signCount : Nat
  deriving DecidableEq

structure AuthSettings where
  /-- `pyotp.TOTP(secret).generate_otp(counter)`. -/
  generateOtp : String → Counter → String
  /-- SHA-256. -/
  hash : String → Digest
  /-- `str.lower`. -/
  lower : String → String
  /-- The relying party's id and origin, when `PUBLIC_URL` allows one. -/
  passkeyRp : Option (String × String)
  /-- The new sign count of a valid assertion, by the key. -/
  verifyAuthentication : PasskeyResponse → String → String × String → String → Option Nat
  verifyRegistration : PasskeyResponse → String → String × String → Option NewPasskey
  requireAdmin2fa : Bool := false

variable (cfg : AuthSettings)

namespace Totp

def stepSeconds : Nat := 30

def recoveryLength : Nat := 10

def isDigit (c : Char) : Bool := '0' ≤ c && c ≤ '9'

/-- `code.replace(" ", "")`. -/
def withoutBlanks (code : String) : String := String.ofList (code.toList.filter (· != ' '))

def looksLikeTotpCode (code : String) : Bool :=
  let digits := (withoutBlanks code).toList
  digits.length == 6 && digits.all isDigit

/-- The time steps that are tried: one of clock drift either way. -/
def window (now : Time) : List Counter :=
  let current : Int := now / stepSeconds
  ([current - 1, current, current + 1].filter (0 ≤ ·)).map Int.toNat

def matchCounter (secret code : String) (lastCounter : Option Counter) (now : Time) :
    Option Counter :=
  if !looksLikeTotpCode code then none
  else (window now).find? fun counter =>
    !lastCounter.any (counter ≤ ·) && cfg.generateOtp secret counter == withoutBlanks code

/-- `\s` of `re`. -/
def isSpace (c : Char) : Bool :=
  let n := c.toNat
  (9 ≤ n && n ≤ 13) || (28 ≤ n && n ≤ 32) || n == 0x85 || n == 0xA0 || n == 0x1680 ||
    (0x2000 ≤ n && n ≤ 0x200A) || n == 0x2028 || n == 0x2029 || n == 0x202F || n == 0x205F ||
    n == 0x3000

def normalize (code : String) : String :=
  cfg.lower (String.ofList (code.toList.filter fun c => !(isSpace c || c == '-')))

def isAscii (text : String) : Bool := text.toList.all fun c => c.toNat < 128

def useTotp (a : Account) (code : String) (now : Time) : Option (Proof × Account) :=
  match a.user.totpSecret with
  | none => none
  | some secret =>
    match matchCounter cfg secret code a.user.totpLastCounter now with
    | none => none
    | some counter =>
      some (.totp counter, { a with user := { a.user with totpLastCounter := some counter } })

def useRecoveryCode (a : Account) (code : String) : Option (Proof × Account) :=
  let normalized := normalize cfg code
  if normalized.length ≠ recoveryLength || !isAscii normalized then none
  else
    let wanted := cfg.hash normalized
    let hashes := a.user.recoveryCodeHashes.getD []
    if !a.twoFactorEnabled || !hashes.contains wanted then none
    else
      some (.recoveryCode wanted,
        { a with user := { a.user with recoveryCodeHashes := some (hashes.filter (· != wanted)) } })

/-- Checks a TOTP code or a recovery code and records its use. -/
def useSecondFactor (a : Account) (code recoveryCode : Option String) (now : Time) :
    Option (Proof × Account) :=
  match code, recoveryCode with
  | some code, _ => useTotp cfg a code now
  | none, some recoveryCode => useRecoveryCode cfg a recoveryCode
  | none, none => none

/-- Promotes the pending secret; `hashes` are of the recovery codes that a first factor gets. -/
def enable (a : Account) (counter : Counter) (hashes : List Digest) : Account :=
  { a with
    user := { a.user with
      totpSecret := a.user.totpPendingSecret
      totpPendingSecret := none
      totpLastCounter := some counter
      recoveryCodeHashes :=
        if !a.twoFactorEnabled then some hashes else a.user.recoveryCodeHashes } }

/-- Turns TOTP off; the recovery codes go too when no passkey is left. -/
def clear (a : Account) : Account :=
  { a with
    user := { a.user with
      totpSecret := none
      totpPendingSecret := none
      totpLastCounter := none
      recoveryCodeHashes := if a.passkeys.isEmpty then none else a.user.recoveryCodeHashes } }

/-- Removes every second factor; `none` when there was nothing. -/
def clearAll (a : Account) : Option Account :=
  if !(a.totpEnabled || !a.passkeys.isEmpty || a.user.totpPendingSecret.isSome ||
      !(a.user.recoveryCodeHashes.getD []).isEmpty || a.user.webauthnPending.isSome) then none
  else some (clear { user := { a.user with webauthnPending := none }, passkeys := [] })

end Totp

namespace Passkeys

def challengeTtl : Nat := 300

def maxPerUser : Nat := 10

/-- A ceremony failed. -/
structure PasskeyError where
  message : String
  reason : String := "bad second factor"
  deriving DecidableEq

def unavailable : PasskeyError :=
  ⟨"Passkeys need PUBLIC_URL to be an https:// address (or http://localhost)", "unavailable"⟩

def storeChallenge (a : Account) (challenge : String) (purpose : Purpose) (now : Time) : Account :=
  { a with user := { a.user with webauthnPending := some ⟨challenge, purpose, now + challengeTtl⟩ }
    }

/-- Without the pending challenge, whatever comes of it. -/
def dropChallenge (a : Account) : Account :=
  { a with user := { a.user with webauthnPending := none } }

/-- The pending challenge for `purpose`, if it is still good. -/
def takeChallenge (a : Account) (purpose : Purpose) (now : Time) : Except PasskeyError String :=
  match a.user.webauthnPending with
  | some pending =>
    if pending.purpose ≠ purpose || pending.expires < now then
      .error ⟨"That took too long, or another sign-in started: try again", "expired"⟩
    else .ok pending.challenge
  | none => .error ⟨"That took too long, or another sign-in started: try again", "expired"⟩

def registrationOptions (a : Account) (challenge handle : String) (now : Time) :
    Except PasskeyError Account :=
  if cfg.passkeyRp.isNone then .error unavailable
  else if maxPerUser ≤ a.passkeys.length then
    .error ⟨s!"You can have at most {maxPerUser} passkeys", "too many"⟩
  else
    let a := { a with
      user := { a.user with webauthnUserHandle := some (a.user.webauthnUserHandle.getD handle) } }
    .ok (storeChallenge a challenge .register now)

def authenticationOptions (a : Account) (challenge : String) (purpose : Purpose) (now : Time) :
    Except PasskeyError Account :=
  if cfg.passkeyRp.isNone then .error unavailable
  else if a.passkeys.isEmpty then .error ⟨"You have no passkey", "no passkey"⟩
  else .ok (storeChallenge a challenge purpose now)

/-- The account the ceremony leaves, and the new passkey with the challenge it answered. -/
def verifyRegistration (a : Account) (credential : PasskeyResponse) (now : Time) :
    Account × Except PasskeyError (String × NewPasskey) :=
  match cfg.passkeyRp with
  | none => (a, .error unavailable)
  | some rp =>
    match takeChallenge a .register now with
    | .error e => (dropChallenge a, .error e)
    | .ok challenge =>
      match cfg.verifyRegistration credential challenge rp with
      | none => (dropChallenge a, .error ⟨"The passkey couldn't be checked: try again",
          "bad second factor"⟩)
      | some new => (dropChallenge a, .ok (challenge, new))

/-- `credential.get("rawId") or credential.get("id")`. -/
def rawId (credential : PasskeyResponse) : Option String :=
  match credential.rawId with
  | some rawId => if rawId.isEmpty then credential.id else some rawId
  | none => credential.id

/-- The passkey after an assertion it signed. -/
def used (a : Account) (id : PasskeyId) (count : Nat) (now : Time) : Account :=
  { a with
    passkeys := a.passkeys.map fun p =>
      if p.id = id then { p with signCount := count, lastUsedAt := some now } else p }

/-- The account the assertion leaves, and the proof. -/
def verifyAssertion (a : Account) (credential : PasskeyResponse) (purpose : Purpose) (now : Time) :
    Account × Except PasskeyError Proof :=
  match cfg.passkeyRp with
  | none => (a, .error unavailable)
  | some rp =>
    match takeChallenge a purpose now with
    | .error e => (dropChallenge a, .error e)
    | .ok challenge =>
      match a.passkeys.find? fun p => some p.credentialId == rawId credential with
      | none => (dropChallenge a, .error ⟨"That passkey isn't one of yours", "unknown passkey"⟩)
      | some passkey =>
        match cfg.verifyAuthentication credential challenge rp passkey.publicKey with
        | none => (dropChallenge a, .error ⟨"That passkey was not accepted", "bad second factor"⟩)
        | some count =>
          if (count ≠ 0 || passkey.signCount ≠ 0) && count ≤ passkey.signCount then
            (dropChallenge a, .error ⟨"That passkey was not accepted", "sign count went back"⟩)
          else
            (used (dropChallenge a) passkey.id count now,
              .ok (.passkey purpose challenge passkey.id passkey.signCount count))

end Passkeys

end AnsiDeck
