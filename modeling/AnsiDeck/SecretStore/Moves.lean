import Mathlib.Data.Char
import Mathlib.Data.List.Lex
import Mathlib.Data.List.Sort
import AnsiDeck.Lib.System
import AnsiDeck.SecretStore.Secrets

/-!
# Moving secrets to the store

The rows of `credentials` and `vault_passwords` and the secret store, with any number of handlers at
work: creating a row, `move_to_store`, `edit_reference`, deleting a row, and `reencrypt_all`. Each
step is one call of the store or one statement; a handler may fail after any of them (`fail`), its
commit included, which rolls its transaction back. A row that one has locked makes the others wait.
What follows a commit is left out: the audit event, which swallows its own failures, and the answer.

Handlers may run in different processes, each with keys of its own out of those that
CREDENTIAL_ENCRYPTION_KEY ever listed. Others only add secrets at new paths of the store
(`appears`); that is also a write of AnsiDeck's own which arrives after its handler gave up.

What decides whether a text is a private key is a parameter. Reads that a setting or the throttle
refuses are among the failures.
-/

namespace AnsiDeck

namespace SecretStore

open Lib (Dict Table)
open Lib.Url (Text)

/-- `Credential.kind`. -/
inductive CredentialKind
  | ssh
  | env
  | sshCert
  deriving DecidableEq

/-- A row's table and its id in it. -/
inductive RowId
  | credential (id : Nat)
  | vaultPassword (id : Nat)
  deriving DecidableEq

/-- A row of either table. `encrypted` is the encrypted column of its kind; a vault password has no
kind. -/
structure Row (τ : Type) where
  kind : Option CredentialKind
  project : ProjectId
  encrypted : Option τ := none
  envNames : Option (List Text) := none
  storePath : Option Text := none
  storeKey : Option Text := none

/-- `MoveToStore`. -/
structure MoveToStore where
  storePath : Text
  storeKey : Option Text := none

/-- `ReferenceUpdate`. -/
structure ReferenceUpdate where
  storePath : Option Text := none
  storeKey : Option Text := none

/-- The key of a value that was given none. -/
def defaultKey : RowId → Text
  | .credential _ => "private_key".toList
  | .vaultPassword _ => "password".toList

/-! ## What is read and checked -/

/-- `str.isspace`, of one character. -/
def isSpace (c : Char) : Bool :=
  let n := c.toNat
  (9 ≤ n && n ≤ 13) || (28 ≤ n && n ≤ 32) || n = 0x85 || n = 0xa0 || n = 0x1680
    || (0x2000 ≤ n && n ≤ 0x200a) || n = 0x2028 || n = 0x2029 || n = 0x202f || n = 0x205f
    || n = 0x3000

/-- What a reference of a row of this kind gives. -/
def readReference (store : Store) (kind : Option CredentialKind) (project : ProjectId)
    (path : Text) (key : Option Text) : Option Secret :=
  if kind = some .env then
    match readAllVersioned store project path with
    | .ok (data, _) => if (envProblem data).isNone then some (.env data) else none
    | .error _ => none
  else key.bind fun key => match readVersioned store project path key with
    | .ok (value, _) => some (.value value)
    | .error _ => none

/-- `resolve_credential`, `resolve_vault_password` and `resolve_env`, with the given keys. -/
def resolve {κ τ : Type} (f : Fernet κ τ) (keys : List κ) (store : Store) (row : Row τ) :
    Option Secret :=
  match row.storePath with
  | none => row.encrypted.bind (f.decryptAny keys)
  | some path => readReference store row.kind row.project path row.storeKey

/-- Whether the handlers' `check` lets a reference through. -/
def check (validKey : Text → Bool) (store : Store) (id : RowId) (project : ProjectId) (path : Text)
    (key : Option Text) : Bool :=
  match id, key with
  | .credential _, none => (readReference store (some .env) project path none).isSome
  | .credential _, some key => match readVersioned store project path key with
    | .ok (value, _) => validKey value
    | .error _ => false
  | .vaultPassword _, key => key.any fun key => match readVersioned store project path key with
    | .ok (value, _) => !value.all isSpace
    | .error _ => false

/-! ## A new row -/

/-- Whether `create_credential` or `create_vault_password` takes this secret. -/
def accepts (validKey : Text → Bool) : RowId → Option CredentialKind → Secret → Bool
  | .credential _, some .ssh, .value text => validKey text
  | .credential _, some .env, .env vars => (envProblem vars).isNone
  | .vaultPassword _, none, .value text => text ≠ []
  | _, _, _ => false

/-- `sorted(env)`. -/
def sortedNames (vars : Data) : List Text := vars.keys.insertionSort (· ≤ ·)

/-- A row whose secret is stored here. -/
def newRow {κ τ : Type} (f : Fernet κ τ) (kind : Option CredentialKind) (project : ProjectId)
    (key : κ) (random : Nat) (secret : Secret) : Row τ where
  kind := kind
  project := project
  encrypted := some (f.encrypt key random secret)
  envNames := match secret with
    | .env vars => some (sortedNames vars)
    | .value _ => none

/-- A row that refers to the store, before the store is read. -/
def newReference (τ : Type) (id : RowId) (kind : Option CredentialKind) (project : ProjectId)
    (path : Text) (storeKey : Option Text) : Option (Row τ) :=
  match id, kind with
  | .credential _, some .env =>
    if storeKey.isNone then some { kind := kind, project := project, storePath := some path }
    else none
  | .credential _, some .ssh | .vaultPassword _, none =>
    some { kind := kind, project := project, storePath := some path,
           storeKey := some (storeKey.getD (defaultKey id)) }
  | _, _ => none

/-! ## `move_to_store` -/

/-- What it keeps of the row after its first transaction. -/
structure Move (τ : Type) where
  id : RowId
  kind : Option CredentialKind
  project : ProjectId
  path : Text
  key : Option Text
  ciphertext : Option τ
  data : Data

/-- `values(row)`, of what the column decrypts to. -/
def values (key : Option Text) : Secret → Option Data
  | .env vars => if key.isNone then some vars else none
  | .value text => key.map fun key => (∅ : Data).set key (some text)

/-- Its first transaction; `none` when it refuses or can't decrypt the secret. -/
def beginMove {κ τ : Type} (f : Fernet κ τ) (keys : List κ) (id : RowId) (row : Row τ)
    (payload : MoveToStore) : Option (Move τ) :=
  if row.kind = some .sshCert || row.storePath.isSome then none
  else if row.kind = some .env && payload.storeKey.isSome then none
  else
    let key := if row.kind = some .env then none
      else some (payload.storeKey.getD (defaultKey id))
    if (checkPath payload.storePath).isNone || key.any (fun key => !isSegment key) then none
    else do
      let secret ← row.encrypted.bind (f.decryptAny keys)
      let data ← values key secret
      some ⟨id, row.kind, row.project, payload.storePath, key, row.encrypted, data⟩

/-- What its last transaction makes of the row. -/
def Move.moved {τ : Type} (m : Move τ) (row : Row τ) : Row τ :=
  { row with
    storePath := some m.path
    storeKey := m.key
    encrypted := none
    envNames := if m.kind = some .env then none else row.envNames }

/-! ## `edit_reference` -/

structure Edit where
  id : RowId
  kind : Option CredentialKind
  project : ProjectId
  before : Option Text × Option Text
  path : Text
  key : Option Text

/-- Its first transaction; `none` when it refuses. -/
def beginEdit {τ : Type} (id : RowId) (row : Row τ) (payload : ReferenceUpdate) : Option Edit :=
  if row.kind = some .sshCert then none
  else if row.kind = some .env && payload.storeKey.isSome then none
  else row.storePath.map fun before =>
    ⟨id, row.kind, row.project, (some before, row.storeKey), payload.storePath.getD before,
      if row.kind = some .env then none else payload.storeKey.or row.storeKey⟩

def Edit.edited {τ : Type} (e : Edit) (row : Row τ) : Row τ :=
  { row with storePath := some e.path, storeKey := e.key }

/-! ## `reencrypt_all` -/

/-- The order of its tables and their rows. -/
def RowId.before : RowId → RowId → Bool
  | .credential a, .credential b | .vaultPassword a, .vaultPassword b => a ≤ b
  | .credential _, .vaultPassword _ => true
  | .vaultPassword _, .credential _ => false

/-- The rows that its selects find. -/
def allRows {τ : Type} (rows : Table RowId (Row τ)) : List RowId :=
  (rows.entries.map Sigma.fst).insertionSort fun a b => a.before b = true

/-- The body of its loop; `none` is `RotationFailed`. -/
def reencrypted {κ τ : Type} (f : Fernet κ τ) (keys : List κ) (random : Nat) (row : Row τ) :
    Option (Row τ) :=
  match row.encrypted with
  | none => some row
  | some token =>
    if (keys.head?.bind fun current => f.decrypt current token).isSome then some row
    else (f.rotate keys random token).map fun token => { row with encrypted := some token }

/-! ## The system -/

/-- A handler at work. -/
inductive Work (κ τ : Type)
  /-- A new reference that could be read. -/
  | adding (id : RowId) (row : Row τ)
  | looking (m : Move τ)
  | creating (m : Move τ)
  | readingBack (m : Move τ) (version : Nat)
  | locking (m : Move τ)
  /-- The row is locked and changed. -/
  | moved (id : RowId) (row : Row τ)
  | checking (e : Edit)
  | checked (e : Edit)
  | edited (id : RowId) (row : Row τ)
  /-- Rows yet to be read, and the locked ones as they are to be. -/
  | rotating (keys : List κ) (todo : List RowId) (done : List (RowId × Row τ))

/-- The rows it has locked, as they are to be. -/
def Work.changed {κ τ : Type} : Work κ τ → List (RowId × Row τ)
  | .moved id row | .edited id row => [(id, row)]
  | .rotating _ _ done => done
  | _ => []

def Work.locks {κ τ : Type} (work : Work κ τ) : List RowId := work.changed.map Prod.fst

/-- Whether it comes to its last commit. -/
def Work.ready {κ τ : Type} : Work κ τ → Bool
  | .moved _ _ | .edited _ _ | .rotating _ [] _ => true
  | _ => false

def flush {τ : Type} (rows : Table RowId (Row τ)) (changed : List (RowId × Row τ)) :
    Table RowId (Row τ) := changed.foldl (fun rows e => rows.put e.1 e.2) rows

structure State (κ τ : Type) where
  /-- The keys that CREDENTIAL_ENCRYPTION_KEY listed so far. -/
  keys : List κ := []
  rows : Table RowId (Row τ) := ∅
  /-- The ids that the tables' sequences gave. -/
  ids : List RowId := []
  store : Store := ∅
  txs : Table Nat (Work κ τ) := ∅

inductive Label (κ : Type)
  | listKey (key : κ)
  | appears (project : ProjectId) (path : Text) (data : Data)
  -- new rows
  | create (id : RowId) (kind : Option CredentialKind) (project : ProjectId) (key : κ)
      (random : Nat) (secret : Secret)
  | createCert (id : Nat) (project : ProjectId)
  | refer (op : Nat) (id : RowId) (kind : Option CredentialKind) (project : ProjectId)
      (path : Text) (storeKey : Option Text)
  | insert (op : Nat)
  -- `move_to_store`
  | move (op : Nat) (id : RowId) (keys : List κ) (payload : MoveToStore)
  | read (op : Nat)
  | store (op : Nat) (answered : Bool)
  -- `edit_reference`
  | edit (op : Nat) (id : RowId) (payload : ReferenceUpdate)
  | check (op : Nat)
  -- the `FOR UPDATE` of either
  | lock (op : Nat)
  -- `reencrypt_all`
  | reencrypt (op : Nat) (keys : List κ)
  | rotate (op : Nat) (random : Nat)
  -- the end of any
  | commit (op : Nat)
  | fail (op : Nat)
  | delete (id : RowId)

section

variable {κ τ : Type} (f : Fernet κ τ) (validKey : Text → Bool)

/-- Whether a handler holds the row's lock. -/
def locked (s : State κ τ) (id : RowId) : Bool := s.txs.any fun _ work => work.locks.contains id

def setWork (s : State κ τ) (op : Nat) (work : Work κ τ) : State κ τ :=
  { s with txs := s.txs.put op work }

def drop (s : State κ τ) (op : Nat) : State κ τ := { s with txs := s.txs.remove op }

/-- A new handler. -/
def start (s : State κ τ) (op : Nat) (work : Work κ τ) : Option (State κ τ) :=
  if (s.txs.get? op).isNone then some (setWork s op work) else none

def insertRow (s : State κ τ) (id : RowId) (row : Row τ) : Option (State κ τ) :=
  if s.ids.contains id then none
  else some { s with rows := s.rows.put id row, ids := id :: s.ids }

/-- `move_to_store`'s reads of the store: nothing may be there, and then what was written. -/
def readStep (s : State κ τ) (op : Nat) : Work κ τ → Option (State κ τ)
  | .looking m => match readAllVersioned s.store m.project m.path with
    | .error .notFound => some (setWork s op (.creating m))
    | _ => some (drop s op)
  | .readingBack m version => match readAllVersioned s.store m.project m.path with
    | .ok (back, backVersion) =>
      if back = m.data ∧ backVersion = version then some (setWork s op (.locking m))
      else some (drop s op)
    | .error _ => some (drop s op)
  | _ => none

/-- `create_secret`, whose answer may not arrive. -/
def storeStep (s : State κ τ) (op : Nat) (answered : Bool) : Work κ τ → Option (State κ τ)
  | .creating m => match createSecret s.store m.project m.path m.data with
    | .error _ => some (drop s op)
    | .ok (store, version) =>
      if answered then some (setWork { s with store := store } op (.readingBack m version))
      else some (drop { s with store := store } op)
  | _ => none

def checkStep (s : State κ τ) (op : Nat) : Work κ τ → Option (State κ τ)
  | .checking e =>
    if check validKey s.store e.id e.project e.path e.key then some (setWork s op (.checked e))
    else some (drop s op)
  | _ => none

/-- `db.get(.., with_for_update=True)` and what comes of it; it waits for the row's lock. -/
def lockStep [DecidableEq τ] (s : State κ τ) (op : Nat) : Work κ τ → Option (State κ τ)
  | .locking m =>
    if locked s m.id then none
    else match s.rows.get? m.id with
      | none => some (drop s op)
      | some row =>
        if row.storePath.isSome ∨ row.encrypted ≠ m.ciphertext then some (drop s op)
        else some (setWork s op (.moved m.id (m.moved row)))
  | .checked e =>
    if locked s e.id then none
    else match s.rows.get? e.id with
      | none => some (drop s op)
      | some row =>
        if (row.storePath, row.storeKey) ≠ e.before then some (drop s op)
        else some (setWork s op (.edited e.id (e.edited row)))
  | _ => none

def rotateStep (s : State κ τ) (op : Nat) (random : Nat) : Work κ τ → Option (State κ τ)
  | .rotating keys (id :: todo) done =>
    if locked s id then none
    else match s.rows.get? id with
      | none => some (setWork s op (.rotating keys todo done))
      | some row => match reencrypted f keys random row with
        | none => some (drop s op)
        | some row => some (setWork s op (.rotating keys todo (done ++ [(id, row)])))
  | _ => none

def commitStep (s : State κ τ) (op : Nat) (work : Work κ τ) : Option (State κ τ) :=
  if work.ready then some (drop { s with rows := flush s.rows work.changed } op) else none

variable [DecidableEq κ] [DecidableEq τ]

def step (s : State κ τ) : Label κ → Option (State κ τ)
  | .listKey key => some { s with keys := key :: s.keys }
  | .appears project path data => match createSecret s.store project path data with
    | .ok (store, _) => some { s with store := store }
    | .error _ => none
  | .create id kind project key random secret =>
    if s.keys.contains key ∧ accepts validKey id kind secret = true then
      insertRow s id (newRow f kind project key random secret)
    else none
  | .createCert id project => insertRow s (.credential id) { kind := some .sshCert, project }
  | .refer op id kind project path storeKey => do
    let row ← newReference τ id kind project path storeKey
    if check validKey s.store id project path row.storeKey then start s op (.adding id row)
    else none
  | .insert op => match s.txs.get? op with
    | some (.adding id row) => insertRow (drop s op) id row
    | _ => none
  | .move op id keys payload => do
    let row ← s.rows.get? id
    let m ← beginMove f keys id row payload
    start s op (.looking m)
  | .read op => (s.txs.get? op).bind (readStep s op)
  | .store op answered => (s.txs.get? op).bind (storeStep s op answered)
  | .edit op id payload => do
    let row ← s.rows.get? id
    let e ← beginEdit id row payload
    start s op (.checking e)
  | .check op => (s.txs.get? op).bind (checkStep validKey s op)
  | .lock op => (s.txs.get? op).bind (lockStep s op)
  | .reencrypt op keys =>
    if keys.all fun key => s.keys.contains key then
      start s op (.rotating keys (allRows s.rows) [])
    else none
  | .rotate op random => (s.txs.get? op).bind (rotateStep f s op random)
  | .commit op => (s.txs.get? op).bind (commitStep s op)
  | .fail op => (s.txs.get? op).map fun _ => drop s op
  | .delete id =>
    if (s.rows.get? id).isSome ∧ locked s id = false then
      some { s with rows := s.rows.remove id }
    else none

/-- AnsiDeck without rows, before a store that may hold secrets. -/
def system : Lib.System (State κ τ) (Label κ) where
  init s := ∃ store, s = { store := store }
  step := step f validKey

end

end SecretStore

end AnsiDeck
