import AnsiDeck.Models

/-!
# Users and their passkeys

The rows of `users` and `webauthn_credentials`. A secret is kept as it is: `encrypt` and `decrypt`
undo one another, and nothing modelled looks at the ciphertext.
-/

namespace AnsiDeck

abbrev UserId := Nat
abbrev PasskeyId := Nat

/-- A time step of a TOTP code. -/
abbrev Counter := Nat

/-- `permissions.Role`. -/
inductive Role
  | admin
  | operator
  | viewer
  deriving DecidableEq, Repr

/-- What a pending challenge is for: `passkeys.PURPOSES`. -/
inductive Purpose
  | register
  | login
  | stepUp
  deriving DecidableEq, Repr

/-- `webauthn_pending`: the one challenge being answered. -/
structure WebauthnPending where
  challenge : String
  purpose : Purpose
  expires : Time
  deriving DecidableEq

/-- A row of `webauthn_credentials`. -/
structure WebAuthnCredential where
  id : PasskeyId
  credentialId : String
  publicKey : String
  signCount : Nat := 0
  name : String
  lastUsedAt : Option Time := none
  deriving DecidableEq

/-- A row of `users`. -/
structure User where
  username : String
  passwordHash : String
  role : Role := .viewer
  isActive : Bool := true
  sessionVersion : Nat := 0
  email : Option String := none
  ssoIssuer : Option String := none
  ssoSubject : Option String := none
  totpSecret : Option String := none
  totpPendingSecret : Option String := none
  /-- The highest time step that was accepted. -/
  totpLastCounter : Option Counter := none
  recoveryCodeHashes : Option (List Digest) := none
  webauthnUserHandle : Option String := none
  webauthnPending : Option WebauthnPending := none
  deriving DecidableEq

/-- A refused request. -/
structure HTTPException where
  status : Nat
  detail : String
  deriving DecidableEq

end AnsiDeck
