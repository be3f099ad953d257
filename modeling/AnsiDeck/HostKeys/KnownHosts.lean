import AnsiDeck.HostKeys.Names
import AnsiDeck.Lib.Base64
import AnsiDeck.Lib.Dict
import AnsiDeck.Scrub.Forms

/-!
# Reading known_hosts text

`parse_known_hosts` of `app.host_keys`: a key for each plain name of each line whose key is of a
known type and says so itself, the last one of a name and a type, with a warning for what was left
out.
-/

namespace AnsiDeck

namespace HostKeys

open Lib (Dict Str str decimal Unicode)

/-- What the interpreter and its libraries give: `repr` of a text, and SHA-256. -/
structure Python where
  unicode : Unicode
  repr : Str → Str
  sha256 : List Nat → List Nat

structure KnownHost where
  name : Str
  keyType : Str
  keyB64 : Str
  fingerprint : Str
  deriving DecidableEq

def keyTypes : List Str :=
  ["ssh-ed25519", "ssh-rsa", "ecdsa-sha2-nistp256", "ecdsa-sha2-nistp384", "ecdsa-sha2-nistp521",
    "sk-ssh-ed25519@openssh.com", "sk-ecdsa-sha2-nistp256@openssh.com"].map str

def maxKeyBytes : Nat := 16 * 1024

def maxLearnedLines : Nat := 200

section

variable (py : Python)

/-- The key's SHA256 fingerprint, as `ssh-keygen -l` shows it. -/
def fingerprint (blob : List Nat) : Str :=
  str "SHA256:" ++ (Lib.Base64.encode (py.sha256 blob)).rdropWhile (· = 61)

/-- A big-endian number of four bytes. -/
def unpackLength (blob : List Nat) : Nat := (blob.take 4).foldl (fun n b => 256 * n + b) 0

/-- The key's fingerprint, or the message of the `ValueError`. -/
def checkKey (keyType keyB64 : Str) : Except Str Str :=
  if keyType ∉ keyTypes then
    .error (str "unsupported key type " ++ py.repr (keyType.take 60))
  else if maxKeyBytes * 4 / 3 + 4 < keyB64.length then .error (str "the key is too long")
  else match Lib.Base64.decode keyB64 with
  | none => .error (str "the key is not valid base64")
  | some blob =>
    if blob.length < 4 then .error (str "the key is too short")
    else if (blob.drop 4).take (unpackLength blob) ≠ keyType then
      .error (str "the key's data isn't a " ++ keyType ++ str " key")
    else .ok (fingerprint py blob)

/-- The keys so far, by name and type, and the warnings. -/
structure Parsed where
  keys : Dict (Str × Str) KnownHost
  warnings : List Str

/-- One name of a line. -/
def readName (number : Nat) (keyType keyB64 found : Str) (parsed : Parsed)
    (rawName : Str) : Parsed :=
  match normaliseName py.unicode rawName with
  | some name =>
    { parsed with keys := parsed.keys.set (name, keyType) ⟨name, keyType, keyB64, found⟩ }
  | none =>
    let shown := rawName.take 60 ++ (if 60 < rawName.length then str "…" else [])
    let why := if rawName.head? = some 124 then str "hashed names" else py.repr shown
    { parsed with
      warnings := parsed.warnings ++ [str "line " ++ decimal number ++ str ": " ++ why ++
        str " can't be used (one plain name per key)"] }

def warn (number : Nat) (parsed : Parsed) (message : Str) : Parsed :=
  { parsed with warnings := parsed.warnings ++
    [str "line " ++ decimal number ++ str ": " ++ message] }

/-- `line.split()`. -/
def words (line : Str) : List Str := (line.splitOnP py.unicode.isSpace).filter (· ≠ [])

/-- One line, with its number. -/
def readLine (parsed : Parsed) (entry : Str × Nat) : Parsed :=
  let line := py.unicode.strip entry.1
  if line = [] || line.head? = some 35 then parsed
  else if line.head? = some 64 then
    warn entry.2 parsed (str "@cert-authority and @revoked lines aren't supported")
  else match words py line with
  | names :: keyType :: keyB64 :: _ =>
    match checkKey py keyType keyB64 with
    | .error message => warn entry.2 parsed message
    | .ok found => (names.splitOn 44).foldl (readName py entry.2 keyType keyB64 found) parsed
  | _ => warn entry.2 parsed (str "not a known_hosts line")

def parseKnownHosts (text : Str) (maxLines : Nat) : List KnownHost × List Str :=
  let lines := Scrub.splitlines text
  let warnings := if maxLines < lines.length then
    [str "only the first " ++ decimal maxLines ++ str " lines were read"] else []
  let parsed := ((lines.take maxLines).zipIdx 1).foldl (readLine py) ⟨∅, warnings⟩
  (parsed.keys.entries.map Prod.snd, parsed.warnings)

end

end HostKeys

end AnsiDeck
