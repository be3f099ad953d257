import AnsiDeck.Accounts.Models
import AnsiDeck.Lib.System
import AnsiDeck.Lib.Table

/-!
# User administration, statement by statement

`routers.users.update_user` and `delete_user`: an administrator changes or deletes a user. A request
in flight is a row of `txs`, and `next` executes its next statement, which reads what is committed
then: the target's row, the count of active administrators, the other users' email addresses, the
`UPDATE` or `DELETE`, and the commit. From the `UPDATE` or `DELETE` to the end a request holds the
row's lock, and its new email address in the unique index; others wait. What it wrote is visible
once it commits.

The guard has loaded the actor when a request begins: an active global administrator. `_load` of
that same user gives the object the guard loaded.
-/

namespace AnsiDeck

namespace Users

open Lib (Table)

structure Settings where
  hashPassword : String → String
  /-- `str.lower`. -/
  lower : String → String
  /-- The database's `lower`. -/
  dbLower : String → String

structure UserUpdate where
  role : Option Role := none
  isActive : Option Bool := none
  password : Option String := none
  /-- Only applied when sent; an explicit null clears it. -/
  email : Option (Option String) := none
  deriving DecidableEq

inductive Request
  | update (payload : UserUpdate)
  | delete
  deriving DecidableEq

inductive Phase
  /-- The guard has let the actor pass. -/
  | authenticated
  | loaded (target : User)
  /-- It is not the last administrator that goes. -/
  | counted (target : User)
  /-- Nobody else has the new address. -/
  | checked (target : User)
  /-- The `UPDATE` or `DELETE` is done. -/
  | flushed (target : User)
  | answered (error : Option HTTPException)

structure Tx where
  actorId : UserId
  actor : User
  userId : UserId
  request : Request
  phase : Phase

structure State where
  users : Table UserId User := ∅
  txs : Table Nat Tx := ∅

inductive Label
  | request (tx : Nat) (actor target : UserId) (request : Request)
  /-- The next statement. -/
  | next (tx : Nat)
  /-- The request dies, and its transaction is rolled back. -/
  | rollback (tx : Nat)
  deriving DecidableEq

/-! ## The last administrator -/

def activeAdmin (user : User) : Bool := user.role == .admin && user.isActive

def activeAdminCount (users : Table UserId User) : Nat := users.count fun _ user => activeAdmin user

def isLastActiveAdmin (users : Table UserId User) (user : User) : Bool :=
  activeAdmin user && activeAdminCount users ≤ 1

/-! ## What an update changes -/

def roleChanges (payload : UserUpdate) (target : User) : Bool :=
  match payload.role with
  | some role => role != target.role
  | none => false

def deactivates (payload : UserUpdate) (target : User) : Bool :=
  payload.isActive == some false && target.isActive

def activeChanges (payload : UserUpdate) (target : User) : Bool :=
  match payload.isActive with
  | some isActive => isActive != target.isActive
  | none => false

def emailChanges (payload : UserUpdate) (target : User) : Bool :=
  match payload.email with
  | some email => email != target.email
  | none => false

def bumpSession (payload : UserUpdate) (target : User) : Bool :=
  roleChanges payload target || deactivates payload target || payload.password.isSome

/-- The columns the `UPDATE` sets. -/
structure Changes where
  role : Option Role
  isActive : Option Bool
  passwordHash : Option String
  email : Option (Option String)
  sessionVersion : Option Nat
  deriving DecidableEq

variable (cfg : Settings)

def changesOf (payload : UserUpdate) (target : User) : Changes where
  role := if roleChanges payload target then payload.role else none
  isActive := if activeChanges payload target then payload.isActive else none
  passwordHash := payload.password.map cfg.hashPassword
  email := if emailChanges payload target then payload.email else none
  sessionVersion := if bumpSession payload target then some (target.sessionVersion + 1) else none

def Changes.apply (changes : Changes) (row : User) : User :=
  { row with
    role := changes.role.getD row.role
    isActive := changes.isActive.getD row.isActive
    passwordHash := changes.passwordHash.getD row.passwordHash
    email := changes.email.getD row.email
    sessionVersion := changes.sessionVersion.getD row.sessionVersion }

/-- Whether there is an `UPDATE` or a `DELETE`. -/
def writes (target : User) : Request → Bool
  | .update payload => changesOf cfg payload target != ⟨none, none, none, none, none⟩
  | .delete => true

/-- The `if`s of `update_user`, up to the count. -/
def refuseUpdate (isSelf : Bool) (payload : UserUpdate) (target : User) : Option HTTPException :=
  if isSelf && (roleChanges payload target || deactivates payload target) then
    some ⟨400, "You cannot change your own role or deactivate yourself"⟩
  else if isSelf && payload.password.isSome then
    some ⟨400, "Use 'change password' for your own account"⟩
  else if payload.password.any fun password => cfg.lower password == cfg.lower target.username then
    some ⟨400, "Password must not equal the username"⟩
  else none

def refuse (isSelf : Bool) (target : User) : Request → Option HTTPException
  | .update payload => refuseUpdate cfg isSelf payload target
  | .delete => if isSelf then some ⟨400, "You cannot delete yourself"⟩ else none

/-- Whether the count is asked. -/
def asksCount (target : User) : Request → Bool
  | .update payload => roleChanges payload target || deactivates payload target
  | .delete => true

/-- The address the request writes. -/
def newEmail (target : User) : Request → Option String
  | .update payload => if emailChanges payload target then payload.email.getD none else none
  | .delete => none

/-- `_reject_taken_email`. -/
def emailTaken (users : Table UserId User) (userId : UserId) (email : String) : Bool :=
  users.any fun id user => id != userId && user.email.map cfg.dbLower == some (cfg.lower email)

/-! ## Locks -/

def Tx.locks (tx : Tx) (userId : UserId) : Bool :=
  match tx.phase with
  | .flushed target => tx.userId == userId && writes cfg target tx.request
  | _ => false

/-- Its entry in `ux_users_email_lower`, not committed yet. -/
def Tx.indexes (tx : Tx) (email : String) : Bool :=
  match tx.phase with
  | .flushed target => (newEmail target tx.request).map cfg.dbLower == some (cfg.dbLower email)
  | _ => false

/-- No other request has to end first. -/
def free (s : State) (tx : Nat) (row : Tx) (target : User) : Bool :=
  !writes cfg target row.request || s.txs.all fun other held => other == tx ||
    !held.locks cfg row.userId &&
      (newEmail target row.request).all fun email => !held.indexes cfg email

/-- The unique index refuses the address. -/
def emailConflict (users : Table UserId User) (userId : UserId) (email : String) : Bool :=
  users.any fun id user => id != userId && user.email.map cfg.dbLower == some (cfg.dbLower email)

/-! ## Steps -/

def putTx (s : State) (tx : Nat) (row : Tx) (phase : Phase) : State :=
  { s with txs := s.txs.put tx { row with phase := phase } }

/-- The commit of what `target` was changed to. -/
def applied (s : State) (row : Tx) (target : User) : Table UserId User :=
  match row.request with
  | .update payload => s.users.modify row.userId (changesOf cfg payload target).apply
  | .delete => s.users.remove row.userId

def nextStatement (s : State) (tx : Nat) (row : Tx) : Option State :=
  match row.phase with
  | .authenticated =>
    let target := if row.userId = row.actorId then some row.actor else s.users.get? row.userId
    match target with
    | none => some (putTx s tx row (.answered (some ⟨404, "User not found"⟩)))
    | some target =>
      match refuse cfg (row.userId == row.actorId) target row.request with
      | some error => some (putTx s tx row (.answered (some error)))
      | none => some (putTx s tx row (.loaded target))
  | .loaded target =>
    if asksCount target row.request && isLastActiveAdmin s.users target then
      some (putTx s tx row (.answered (some ⟨400, "Cannot remove the last active admin"⟩)))
    else some (putTx s tx row (.counted target))
  | .counted target =>
    if (newEmail target row.request).any (emailTaken cfg s.users row.userId) then
      some (putTx s tx row (.answered (some ⟨409, "Email is already used by another user"⟩)))
    else some (putTx s tx row (.checked target))
  | .checked target =>
    if !free cfg s tx row target then none
    -- no row matched an UPDATE, or the unique index refused it
    else if row.request != .delete && writes cfg target row.request &&
          (s.users.get? row.userId).isNone ||
        (newEmail target row.request).any (emailConflict cfg s.users row.userId) then
      some (putTx s tx row (.answered (some ⟨500, "Internal Server Error"⟩)))
    else some (putTx s tx row (.flushed target))
  | .flushed target =>
    some { putTx s tx row (.answered none) with users := applied cfg s row target }
  | .answered _ => none

def step (s : State) : Label → Option State
  | .request tx actorId userId request =>
    match s.users.get? actorId with
    | some actor =>
      if activeAdmin actor && (s.txs.get? tx).isNone then
        some { s with txs := s.txs.put tx ⟨actorId, actor, userId, request, .authenticated⟩ }
      else none
    | none => none
  | .next tx => do
    let row ← s.txs.get? tx
    nextStatement cfg s tx row
  | .rollback tx => do
    let _ ← s.txs.get? tx
    some { s with txs := s.txs.remove tx }

/-- Any users, with an active administrator among them, and no request in flight. -/
def system : Lib.System State Label where
  init s := s.txs = ∅ ∧ 0 < activeAdminCount s.users
  step := step cfg

end Users

end AnsiDeck
