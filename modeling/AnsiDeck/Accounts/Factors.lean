import AnsiDeck.Accounts.NoReplay
import AnsiDeck.Lib.Table

/-!
# One user's requests, statement by statement

The requests that add and remove a second factor, as transactions on the user's row and passkeys.
`next` executes a request's next statement. The guard loads the row and then the passkeys; what the
handler asks before it locks, it asks of these, `_refuse_removing_last_factor` among it. Then it
locks the row (`refresh(.., with_for_update=True)`), reads row and passkeys anew, checks the second
factor and commits. `totp_setup` and `totp_enable` take no lock before their `UPDATE`, which sets
the columns they changed.
-/

namespace AnsiDeck

namespace Factors

open Lib (Table)
open Auth (SecondFactorProof Reply Factor)

inductive Request
  | totpDisable (proof : SecondFactorProof)
  | removePasskey (id : PasskeyId) (proof : SecondFactorProof)
  | passkeyStepUpOptions (challenge : String)
  | passkeyRegistrationOptions (challenge handle : String)
  | addPasskey (name : String) (credential : PasskeyResponse) (registered : Bool)
      (hashes : List Digest)
  | totpSetup (secret : String)
  | totpEnable (code : String) (hashes : List Digest)
  deriving DecidableEq

/-- The columns an `UPDATE` without a lock sets. -/
inductive Columns
  | pending (secret : String)
  | enabled (secret : String) (counter : Counter) (hashes : Option (List Digest))
      (sessionVersion : Nat)

inductive Phase
  /-- The row is loaded. -/
  | authenticated (user : User)
  /-- What it asked of the row and the passkeys, at that time, did not end it. -/
  | allowed (seen : Account) (asked : Time)
  /-- It has the row's lock, and the row as it is now. -/
  | locked (user : User)
  /-- What it makes of the row and the passkeys, which it has read again. -/
  | flushed (reply : Reply)
  | updated (columns : Columns)
  | answered (error : Option HTTPException)

structure Tx where
  request : Request
  phase : Phase

structure State where
  user : User
  passkeys : List WebAuthnCredential
  /-- The user's roles in projects. -/
  roles : List Role := []
  /-- The next passkey's id. -/
  seq : PasskeyId
  txs : Table Nat Tx := ∅

/-- What is committed. -/
def State.account (s : State) : Account := ⟨s.user, s.passkeys⟩

inductive Label
  | request (tx : Nat) (request : Request)
  /-- The next statement. -/
  | next (tx : Nat) (now : Time)
  /-- The request dies, and its transaction is rolled back. -/
  | rollback (tx : Nat)
  deriving DecidableEq

variable (cfg : AuthSettings)

def setupRequired (a : Account) (roles : List Role) : Option HTTPException :=
  if !a.twoFactorEnabled && Auth.admin2faRequired cfg a roles then
    some ⟨403, "Set up two-factor login first"⟩
  else none

/-- The answer of a request that ends before it locks the row or updates it. -/
def early (a : Account) (roles : List Role) (now : Time) :
    Request → Option (Option HTTPException)
  | .totpDisable _ =>
    match setupRequired cfg a roles with
    | some e => some (some e)
    | none =>
      if !a.totpEnabled then some none
      else (Auth.refuseRemovingLastFactor cfg a roles .totp).map some
  | .removePasskey id _ =>
    match setupRequired cfg a roles with
    | some e => some (some e)
    | none =>
      if !a.passkeys.any fun p => p.id == id then some (some ⟨404, "Passkey not found"⟩)
      else (Auth.refuseRemovingLastFactor cfg a roles .passkey).map some
  | .passkeyStepUpOptions _ => (setupRequired cfg a roles).map some
  | .passkeyRegistrationOptions _ _ | .addPasskey _ _ _ _ => none
  | .totpSetup secret => (Auth.totpSetup a secret).refused.map some
  | .totpEnable code hashes => (Auth.totpEnable cfg a code hashes now).refused.map some

/-- Of the requests that lock the row: what they make of it and of the passkeys. -/
def handled (a : Account) (seq : PasskeyId) (now : Time) : Request → Reply
  | .totpDisable proof => Auth.removing (Auth.checkProof cfg a proof now) Totp.clear
  | .removePasskey id proof =>
    let r := Auth.removing (Auth.checkProof cfg a proof now) fun a => Auth.withoutPasskey a id
    -- the row of the passkey it loaded at first is gone
    if r.refused.isNone && !a.passkeys.any (fun p => p.id == id) then
      Auth.refuse a 500 "Internal Server Error"
    else r
  | .passkeyStepUpOptions challenge => Auth.passkeyStepUpOptions cfg a challenge now
  | .passkeyRegistrationOptions challenge handle =>
    Auth.passkeyRegistrationOptions cfg a challenge handle now
  | .addPasskey name credential registered hashes =>
    Auth.addPasskey cfg a seq name credential
      (fun id => registered || a.passkeys.any fun p => p.credentialId == id) hashes now
  | .totpSetup _ | .totpEnable _ _ => { account := a }

/-- Of the requests that only update it: the columns. -/
def columns (a : Account) (now : Time) : Request → Option Columns
  | .totpSetup secret => some (.pending secret)
  | .totpEnable code hashes =>
    a.user.totpPendingSecret.bind fun secret =>
      (Totp.matchCounter cfg secret code none now).map fun counter =>
        .enabled secret counter (if a.twoFactorEnabled then none else some hashes)
          (a.user.sessionVersion + 1)
  | _ => none

def Columns.apply (user : User) : Columns → User
  | .pending secret => { user with totpPendingSecret := some secret }
  | .enabled secret counter hashes sessionVersion =>
    { user with
      totpSecret := some secret
      totpPendingSecret := none
      totpLastCounter := some counter
      recoveryCodeHashes := if hashes.isSome then hashes else user.recoveryCodeHashes
      sessionVersion := sessionVersion }

def Phase.locks : Phase → Bool
  | .locked _ | .flushed _ | .updated _ => true
  | _ => false

/-- No other request has the row's lock. -/
def free (s : State) (tx : Nat) : Bool :=
  s.txs.all fun other held => other == tx || !held.phase.locks

def putTx (s : State) (tx : Nat) (row : Tx) (phase : Phase) : State :=
  { s with txs := s.txs.put tx { row with phase := phase } }

def locksRow : Request → Bool
  | .totpSetup _ | .totpEnable _ _ => false
  | _ => true

def nextStatement (s : State) (tx : Nat) (now : Time) (row : Tx) : Option State :=
  match row.phase with
  | .authenticated user =>
    let seen : Account := ⟨user, s.passkeys⟩
    match early cfg seen s.roles now row.request with
    | some answer => some (putTx s tx row (.answered answer))
    | none => some (putTx s tx row (.allowed seen now))
  | .allowed seen asked =>
    if !free s tx then none
    else if locksRow row.request then some (putTx s tx row (.locked s.user))
    else (columns cfg seen asked row.request).map fun columns => putTx s tx row (.updated columns)
  | .locked user =>
    let base : Account := ⟨user, s.passkeys⟩
    some (putTx s tx row (.flushed (handled cfg base s.seq now row.request)))
  | .flushed reply =>
    some { putTx s tx row (.answered reply.refused) with
      user := reply.account.user, passkeys := reply.account.passkeys, seq := s.seq + 1 }
  | .updated columns =>
    some { putTx s tx row (.answered none) with user := columns.apply s.user }
  | .answered _ => none

def step (s : State) : Label → Option State
  | .request tx request =>
    if (s.txs.get? tx).isNone then
      some { s with txs := s.txs.put tx ⟨request, .authenticated s.user⟩ }
    else none
  | .next tx now => do
    let row ← s.txs.get? tx
    nextStatement cfg s tx now row
  | .rollback tx => do
    let _ ← s.txs.get? tx
    some { s with txs := s.txs.remove tx }

/-- An administrator under `REQUIRE_ADMIN_2FA`, with a second factor, and no request in flight. -/
def system : Lib.System State Label where
  init s := s.txs = ∅ ∧ Auth.admin2faRequired cfg s.account s.roles = true ∧
    s.account.twoFactorEnabled = true ∧ (Auth.Account.ids s.account).Nodup ∧
    ∀ p ∈ s.passkeys, p.id < s.seq
  step := step cfg

end Factors

end AnsiDeck
