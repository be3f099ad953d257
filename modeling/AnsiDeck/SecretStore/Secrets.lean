import AnsiDeck.Lib.Dict
import AnsiDeck.Lib.Table
import AnsiDeck.SecretStore.Paths

/-!
# Secrets and where they are kept

`app.crypto`, `app.env_credentials`, and the reads and writes of `app.secret_store` as far as the
store answers them. It honours check-and-set 0, and a read gives what was written, an object's keys
in the same order.

Fernet is a parameter. Its plaintexts are the secrets themselves: that UTF-8 and JSON give back what
they encoded is left out.
-/

namespace AnsiDeck

namespace SecretStore

open Lib (Dict Table)
open Lib.Url (Text utf8)

/-- A secret in the store: its keys and values, `none` for one that isn't text. -/
abbrev Data := Dict Text (Option Text)

/-- What a credential or a vault password stands for. -/
inductive Secret
  | value (text : Text)
  | env (vars : Data)
  deriving DecidableEq

/-! ## Fernet -/

/-- What a key makes of a secret and some random bytes, and of a token: `none` is `InvalidToken`.
A token says one thing, whichever key it is read with. -/
structure Fernet (κ τ : Type) where
  encrypt : κ → Nat → Secret → τ
  decrypt : κ → τ → Option Secret
  decrypt_encrypt : ∀ key random secret, decrypt key (encrypt key random secret) = some secret
  genuine : ∀ key key' token secret secret', decrypt key token = some secret →
    decrypt key' token = some secret' → secret' = secret

namespace Fernet

variable {κ τ : Type} (f : Fernet κ τ)

/-- `MultiFernet(keys).decrypt(token)`. -/
def decryptAny (keys : List κ) (token : τ) : Option Secret :=
  keys.findSome? fun key => f.decrypt key token

/-- `MultiFernet(keys).rotate(token)`. -/
def rotate (keys : List κ) (random : Nat) (token : τ) : Option τ := do
  let secret ← f.decryptAny keys token
  let current ← keys.head?
  some (f.encrypt current random secret)

theorem decryptAny_eq_some {keys : List κ} {token : τ} {secret : Secret} :
    f.decryptAny keys token = some secret ↔ ∃ key ∈ keys, f.decrypt key token = some secret := by
  constructor
  · intro h
    exact List.exists_of_findSome?_eq_some h
  · rintro ⟨key, hmem, hkey⟩
    cases hany : f.decryptAny keys token with
    | none =>
      have hnone := List.findSome?_eq_none_iff.mp hany key hmem
      rw [hkey] at hnone
      exact absurd hnone (by simp)
    | some secret' =>
      obtain ⟨key', -, hkey'⟩ := List.exists_of_findSome?_eq_some hany
      rw [f.genuine key key' token secret secret' hkey hkey']

/-- More keys read the same. -/
theorem decryptAny_mono {keys keys' : List κ} (h : ∀ key ∈ keys, key ∈ keys') {token : τ}
    {secret : Secret} (hd : f.decryptAny keys token = some secret) :
    f.decryptAny keys' token = some secret := by
  obtain ⟨key, hmem, hkey⟩ := f.decryptAny_eq_some.mp hd
  exact f.decryptAny_eq_some.mpr ⟨key, h key hmem, hkey⟩

theorem rotate_eq_some {keys : List κ} {random : Nat} {token token' : τ}
    (h : f.rotate keys random token = some token') :
    ∃ secret current, f.decryptAny keys token = some secret ∧ current ∈ keys ∧
      token' = f.encrypt current random secret := by
  obtain ⟨secret, hany, h⟩ := Option.bind_eq_some_iff.mp h
  obtain ⟨current, hhead, h⟩ := Option.bind_eq_some_iff.mp h
  exact ⟨secret, current, hany, List.mem_of_mem_head? hhead, (Option.some.inj h).symm⟩

end Fernet

/-! ## The variables of an env credential -/

/-- `NAME.fullmatch`. -/
def isName : Text → Bool
  | [] => false
  | c :: rest => c.isUpper && rest.length ≤ 63 &&
      rest.all fun c => c.isUpper || c.isDigit || c = '_'

def maxVars : Nat := 32

def maxValueBytes : Nat := 32 * 1024

/-- `_DENIED`. -/
def denied : List String :=
  ["PATH", "HOME", "TMPDIR", "TMP", "TEMP", "SHELL", "USER", "LOGNAME", "LANG",
    "TZ", "BASH_ENV", "ENV", "IFS", "GCONV_PATH", "GLIBC_TUNABLES", "OPENSSL_CONF",
    "OPENSSL_MODULES", "NODE_OPTIONS", "SSH_AUTH_SOCK", "HOSTALIASES", "NETRC",
    "REQUESTS_CA_BUNDLE", "CURL_CA_BUNDLE", "AWS_CA_BUNDLE", "HTTP_PROXY", "HTTPS_PROXY",
    "NO_PROXY", "ALL_PROXY", "FTP_PROXY",
    "AWS_EC2_METADATA_DISABLED", "AWS_CONFIG_FILE", "AWS_SHARED_CREDENTIALS_FILE",
    "AWS_WEB_IDENTITY_TOKEN_FILE",
    "CREDENTIAL_ENCRYPTION_KEY", "DATABASE_URL", "AUTH_SECRET_KEY",
    "SECRETS_STORE_TOKEN_FILE", "SECRETS_STORE_SECRET_ID_FILE", "SECRETS_STORE_ROLE_ID",
    "VAULT_TOKEN", "BAO_TOKEN",
    "ARTIFACTS_DIR"]

/-- `_DENIED_PREFIXES`. -/
def deniedBeginnings : List String :=
  ["LC_", "LD_", "PYTHON", "ANSIBLE_", "SSL_", "WORKER_", "ANSIDECK_", "DYLD_",
    "AWS_CONTAINER_", "GIT_", "KRB5",
    "SSH_", "SUDO_"]

/-- What `env_problem` says is wrong, with the variable's name. -/
inductive EnvProblem
  | noVariables
  | tooMany
  | notAName (name : Text)
  | denied (name : Text)
  | notNonEmptyText (name : Text)
  | tooLongOrNul (name : Text)

def nameProblem (name : Text) : Option EnvProblem :=
  if !isName name then some (.notAName name)
  else if (denied.any fun d => d.toList = name)
      || deniedBeginnings.any fun d => d.toList.isPrefixOf name then some (.denied name)
  else none

/-- The body of `env_problem`'s loop. -/
def variableProblem (name : Text) (value : Option Text) : Option EnvProblem :=
  match nameProblem name, value with
  | some problem, _ => some problem
  | none, none => some (.notNonEmptyText name)
  | none, some value =>
    if value = [] then some (.notNonEmptyText name)
    else if value.contains '\x00' || maxValueBytes < (utf8 value).length then
      some (.tooLongOrNul name)
    else none

def envProblem (env : Data) : Option EnvProblem :=
  if env.entries = [] then some .noVariables
  else if maxVars < env.size then some .tooMany
  else env.entries.findSome? fun e => variableProblem e.1 e.2

/-! ## The store -/

/-- A path that has been written: the number of its latest version, and what that is unless it was
deleted. -/
structure Entry where
  version : Nat
  data : Option Data

/-- The secrets by project and path. -/
abbrev Store := Table (ProjectId × Text) Entry

/-- The kinds of `SecretStoreError` that an answering store leads to. -/
inductive StoreError
  | invalid
  | notFound
  | missingKey
  | badValue
  | exists
  deriving DecidableEq

/-- `read_all_versioned`. -/
def readAllVersioned (store : Store) (project : ProjectId) (path : Text) :
    Except StoreError (Data × Nat) :=
  if (checkPath path).isNone then .error .invalid
  else match store.get? (project, path) with
    | none => .error .notFound
    | some entry => match entry.data with
      | none => .error .notFound
      | some data => .ok (data, entry.version)

/-- `read_versioned`. -/
def readVersioned (store : Store) (project : ProjectId) (path key : Text) :
    Except StoreError (Text × Nat) :=
  if !isSegment key then .error .invalid
  else match readAllVersioned store project path with
    | .error e => .error e
    | .ok (data, version) => match data.get? key with
      | none => .error .missingKey
      | some none | some (some []) => .error .badValue
      | some (some value) => .ok (value, version)

/-- `create_secret`: check-and-set 0. -/
def createSecret (store : Store) (project : ProjectId) (path : Text) (data : Data) :
    Except StoreError (Store × Nat) :=
  if (checkPath path).isNone then .error .invalid
  else match store.get? (project, path) with
    | some _ => .error .exists
    | none => .ok (store.put (project, path) ⟨1, some data⟩, 1)

/-- Only secrets at new paths have come. -/
def Store.Grows (store store' : Store) : Prop :=
  ∀ at_ entry, store.get? at_ = some entry → store'.get? at_ = some entry

theorem readAllVersioned_eq_ok {store : Store} {project : ProjectId} {path : Text} {data : Data}
    {version : Nat} : readAllVersioned store project path = .ok (data, version) ↔
      (checkPath path).isSome = true ∧ store.get? (project, path) = some ⟨version, some data⟩ := by
  unfold readAllVersioned
  cases hcheck : checkPath path with
  | none => simp
  | some segments =>
    cases hget : store.get? (project, path) with
    | none => simp
    | some entry =>
      obtain ⟨v, d⟩ := entry
      cases d with
      | none => simp
      | some d => simp [and_comm]

theorem readVersioned_eq_ok {store : Store} {project : ProjectId} {path key value : Text}
    {version : Nat} : readVersioned store project path key = .ok (value, version) ↔
      isSegment key = true ∧ value ≠ [] ∧ ∃ data,
        readAllVersioned store project path = .ok (data, version) ∧
        data.get? key = some (some value) := by
  unfold readVersioned
  cases hkey : isSegment key with
  | false => simp
  | true =>
    cases hread : readAllVersioned store project path with
    | error e => simp
    | ok read =>
      obtain ⟨data, v⟩ := read
      cases hget : data.get? key with
      | none => simp [hget]
      | some found =>
        rcases found with _ | _ | ⟨c, text⟩
        · simp [hget]
        · simp [hget]
          grind
        · simp [hget]
          grind

theorem createSecret_eq_ok {store store' : Store} {project : ProjectId} {path : Text} {data : Data}
    {version : Nat} (h : createSecret store project path data = .ok (store', version)) :
    store.get? (project, path) = none ∧
      store' = store.put (project, path) ⟨version, some data⟩ := by
  unfold createSecret at h
  split at h
  · exact absurd h (by simp)
  · split at h
    · exact absurd h (by simp)
    · next hnone =>
      simp only [Except.ok.injEq, Prod.mk.injEq] at h
      obtain ⟨rfl, rfl⟩ := h
      exact ⟨hnone, rfl⟩

theorem Store.Grows.refl (store : Store) : store.Grows store := fun _ _ h => h

theorem Store.Grows.put {store : Store} {at_ : ProjectId × Text} (h : store.get? at_ = none)
    (entry : Entry) : store.Grows (store.put at_ entry) := by
  intro a e ha
  rw [Table.get?_put_of_ne]
  · exact ha
  · rintro rfl
    rw [h] at ha
    exact absurd ha (by simp)

theorem Store.Grows.readAll {store store' : Store} (h : store.Grows store') {project : ProjectId}
    {path : Text} {data : Data} {version : Nat}
    (hr : readAllVersioned store project path = .ok (data, version)) :
    readAllVersioned store' project path = .ok (data, version) := by
  obtain ⟨hpath, hget⟩ := readAllVersioned_eq_ok.mp hr
  exact readAllVersioned_eq_ok.mpr ⟨hpath, h _ _ hget⟩

theorem Store.Grows.read {store store' : Store} (h : store.Grows store') {project : ProjectId}
    {path key value : Text} {version : Nat}
    (hr : readVersioned store project path key = .ok (value, version)) :
    readVersioned store' project path key = .ok (value, version) := by
  obtain ⟨hkey, hne, data, hall, hget⟩ := readVersioned_eq_ok.mp hr
  exact readVersioned_eq_ok.mpr ⟨hkey, hne, data, h.readAll hall, hget⟩

end SecretStore

end AnsiDeck
