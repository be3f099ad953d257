import AnsiDeck.Accounts.Models
import AnsiDeck.Lib.System
import AnsiDeck.Lib.Table

/-!
# Single sign-on, statement by statement

`sso_common.resolve_user`: the user that an identity of a provider stands for. A sign-in looks the
identity up, then the one user without a link whose address is among the verified ones, and binds
that user in an `UPDATE` by id. `next` executes the next statement of a sign-in. From the `UPDATE`
on it holds the row's lock and its entry in the unique index on `(sso_issuer, sso_subject)`: another
sign-in waits for either, and an identity that is committed for another user is refused.

An `UPDATE` makes a new version of the row as it is committed then; the commit makes that version
visible. A sign-in that is over stays in `txs` with what it returned.
-/

namespace AnsiDeck

namespace Sso

open Lib (Table)

structure Settings where
  ssoAllowedEmailDomains : List String := []
  ssoAllowAdmin : Bool := false
  /-- `str.lower`. -/
  lower : String → String
  /-- The database's `lower`. -/
  dbLower : String → String
  /-- `unicodedata.normalize("NFKC", ..)`. -/
  normalize : String → String

/-- `code` is what the browser is told. -/
structure SsoError where
  code : String
  reason : String
  email : Option String := none
  deriving DecidableEq

inductive Phase
  /-- With the addresses that may be compared. -/
  | begun (emails : List String)
  /-- No user is bound to the identity. -/
  | unknown (emails : List String)
  /-- The user found by address, as it was loaded. -/
  | linking (userId : UserId) (user : User)
  /-- The `UPDATE` is done. -/
  | flushed (userId : UserId) (version : User)
  | returned (userId : UserId) (newlyLinked : Bool)
  | failed (error : SsoError)

structure Tx where
  issuer : String
  subject : String
  phase : Phase

structure State where
  users : Table UserId User := ∅
  txs : Table Nat Tx := ∅

inductive Label
  | signIn (tx : Nat) (issuer subject : String) (emails : List String)
  /-- The next statement. -/
  | next (tx : Nat)
  /-- The request dies, and its transaction is rolled back. -/
  | rollback (tx : Nat)
  deriving DecidableEq

/-- Who a user is to a provider. -/
def identity (user : User) : Option (String × String) :=
  match user.ssoIssuer, user.ssoSubject with
  | some issuer, some subject => some (issuer, subject)
  | _, _ => none

variable (cfg : Settings)

/-! ## Addresses -/

/-- `email.rpartition("@")[2]`. -/
def domainOf (email : String) : String :=
  String.ofList (email.toList.reverse.takeWhile (· != '@')).reverse

def allowedDomains : List String :=
  cfg.ssoAllowedEmailDomains.map fun d =>
    String.ofList ((cfg.lower d).toList.dropWhile (· == '@'))

/-- The addresses that are compared. -/
def comparable (emails : List String) : List String :=
  let emails := emails.filter fun e => cfg.normalize e == e
  if (allowedDomains cfg).isEmpty then emails
  else emails.filter fun e => (allowedDomains cfg).contains (cfg.lower (domainOf e))

/-! ## Statements -/

def byIdentity (users : Table UserId User) (issuer subject : String) : Option (UserId × User) :=
  (users.rows fun _ user => identity user == some (issuer, subject)).head?

def candidates (users : Table UserId User) (emails : List String) : List (UserId × User) :=
  users.rows fun _ user =>
    (user.email.map cfg.dbLower).any (emails.map cfg.lower).contains && user.ssoSubject.isNone

/-- Whether the user may sign in. -/
def refuse (user : User) (email : String) : Option SsoError :=
  if !user.isActive then some ⟨"not_linked", "account is deactivated", email⟩
  else if user.role == .admin && !cfg.ssoAllowAdmin then
    some ⟨"not_linked", "global admins cannot sign in with SSO", email⟩
  else none

/-- The version the `UPDATE` makes of a row: only what differs from what was loaded is set, and the
subject that was loaded is null. -/
def link (issuer subject : String) (loaded row : User) : User :=
  { row with
    ssoIssuer := if loaded.ssoIssuer = some issuer then row.ssoIssuer else some issuer
    ssoSubject := some subject }

/-- It holds the user's row, or has the identity in the index. -/
def Tx.holds (tx : Tx) (userId : UserId) (version : User) : Bool :=
  match tx.phase with
  | .flushed held heldVersion =>
    held == userId || (identity heldVersion).isSome && identity heldVersion == identity version
  | _ => false

/-- No other sign-in has to end first. -/
def free (s : State) (tx : Nat) (userId : UserId) (version : User) : Bool :=
  s.txs.all fun other held => other == tx || !held.holds userId version

/-- The unique index refuses the version. -/
def conflict (users : Table UserId User) (userId : UserId) (version : User) : Bool :=
  users.any fun id user =>
    id != userId && (identity user).isSome && identity user == identity version

def putTx (s : State) (tx : Nat) (row : Tx) (phase : Phase) : State :=
  { s with txs := s.txs.put tx { row with phase := phase } }

/-- After the lookups: a user who may not sign in is refused, a new one is linked. -/
def admitted (userId : UserId) (user : User) (email : String) (newlyLinked : Bool) : Phase :=
  match refuse cfg user email with
  | some error => .failed error
  | none => if newlyLinked then .linking userId user else .returned userId false

def nextStatement (s : State) (tx : Nat) (row : Tx) : Option State :=
  match row.phase with
  | .begun emails =>
    match emails with
    | [] =>
      some (putTx s tx row (.failed ⟨"not_linked", "no verified email in an allowed domain", none⟩))
    | shown :: _ =>
      match byIdentity s.users row.issuer row.subject with
      | some (userId, user) => some (putTx s tx row (admitted cfg userId user shown false))
      | none => some (putTx s tx row (.unknown emails))
  | .unknown emails =>
    match candidates cfg s.users emails with
    | [] =>
      some (putTx s tx row
        (.failed ⟨"not_linked", "no pre-provisioned account matches", emails.head?⟩))
    | [(userId, user)] =>
      some (putTx s tx row (admitted cfg userId user (emails.headD "") true))
    | _ =>
      some (putTx s tx row
        (.failed ⟨"not_linked", "verified emails match more than one account", emails.head?⟩))
  | .linking userId user =>
    match s.users.get? userId with
    | none => none
    | some now =>
      let version := link row.issuer row.subject user now
      if !free s tx userId version then none
      else if conflict s.users userId version then
        some (putTx s tx row
          (.failed ⟨"failed", "identity is already linked to another user", none⟩))
      else some (putTx s tx row (.flushed userId version))
  | .flushed userId version =>
    some { putTx s tx row (.returned userId true) with users := s.users.put userId version }
  | .returned _ _ | .failed _ => none

def step (s : State) : Label → Option State
  | .signIn tx issuer subject emails =>
    if (s.txs.get? tx).isNone then
      some { s with txs := s.txs.put tx ⟨issuer, subject, .begun (comparable cfg emails)⟩ }
    else none
  | .next tx => do
    let row ← s.txs.get? tx
    nextStatement cfg s tx row
  | .rollback tx => do
    let _ ← s.txs.get? tx
    some { s with txs := s.txs.remove tx }

/-- The unique index: nobody has another's identity. -/
def Unique (users : Table UserId User) : Prop :=
  ∀ id id' user user' pair, users.get? id = some user → users.get? id' = some user' →
    identity user = some pair → identity user' = some pair → id' = id

/-- Any users that the unique index allows, and no sign-in in flight. -/
def system : Lib.System State Label where
  init s := s.txs = ∅ ∧ Unique s.users
  step := step cfg

end Sso

end AnsiDeck
