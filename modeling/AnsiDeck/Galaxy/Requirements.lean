import AnsiDeck.Lib.Except
import AnsiDeck.Lib.Urlsplit
import Mathlib.Data.List.Lex
import Mathlib.Data.List.Sort

/-!
# The checks of Galaxy requirements

`validate_requirements` of `app.galaxy`, from the document that YAML was read as on. It raises
`RequirementsError` with a message, but other exceptions get through as well: `urlsplit` raises
`ValueError`, and so do `repr` and `str` of an integer of more than 4300 digits, which YAML takes in
hexadecimal. `$` in the patterns matches before a line break at the end, too.
-/

namespace AnsiDeck

namespace Galaxy

namespace Requirements

open Lib (Str str)
open Lib.Urlsplit (urlsplit)

/-- What `yaml.safe_load` returns. -/
inductive Yaml
  | null
  | bool (b : Bool)
  | int (n : Int)
  | float (shown : Str) (isZero : Bool)
  | str (s : Str)
  /-- A date, or bytes. -/
  | other (shown : Str) (truthy : Bool)
  | list (items : List Yaml)
  | set (items : List Yaml)
  | map (entries : List (Yaml × Yaml))

/-- `bool(v)`. -/
def Yaml.truthy : Yaml → Bool
  | .null => false
  | .bool b => b
  | .int n => n ≠ 0
  | .float _ isZero => !isZero
  | .str s => s ≠ []
  | .other _ truthy => truthy
  | .list items => !items.isEmpty
  | .set items => !items.isEmpty
  | .map entries => !entries.isEmpty

mutual

/-- `repr(v)` does not raise: no integer in it has more than 4300 digits. -/
def Yaml.prints : Yaml → Bool
  | .null => true
  | .bool _ => true
  | .int n => n.natAbs < 10 ^ Lib.Unicode.maxStrDigits
  | .float _ _ => true
  | .str _ => true
  | .other _ _ => true
  | .list items => printsItems items
  | .set items => printsItems items
  | .map entries => printsEntries entries

def printsItems : List Yaml → Bool
  | [] => true
  | v :: items => v.prints && printsItems items

def printsEntries : List (Yaml × Yaml) → Bool
  | [] => true
  | (k, v) :: entries => k.prints && v.prints && printsEntries entries

end

def Yaml.str? : Yaml → Option Str
  | .str s => some s
  | _ => none

abbrev Entries := List (Yaml × Yaml)

/-- `entry.get(key)`. -/
def get (entries : Entries) (key : String) : Option Yaml :=
  (entries.find? fun e => e.1.str? = some (str key)).map Prod.snd

/-- What a check raises. -/
inductive Raised
  /-- `RequirementsError(message)`. -/
  | requirements (message : Str)
  /-- Another `ValueError`. -/
  | value

abbrev Check := Except Raised Unit

def refuse (message : Str) : Check := .error (.requirements message)

/-- What the interpreter and its libraries give a check. -/
structure Python where
  unicode : Lib.Unicode
  nfkc : Str → Str
  /-- `repr(v)` and `str(v)`, where they don't raise. -/
  repr : Yaml → Str
  shown : Yaml → Str

/-! ## Patterns -/

/-- `re.match("^...$", s)`. -/
def matchesDollar (whole : Str → Bool) (s : Str) : Bool :=
  whole s || s.getLast? = some 10 && whole s.dropLast

def isLower (c : Nat) : Bool := 97 ≤ c && c ≤ 122
def isDigit (c : Nat) : Bool := 48 ≤ c && c ≤ 57

/-- `[A-Za-z0-9_]` -/
def isNameChar (c : Nat) : Bool := Lib.Urlsplit.isLetter c || isDigit c || c = 95

/-- `[a-z0-9_]+` -/
def isPart (s : Str) : Bool := s ≠ [] && s.all fun c => isLower c || isDigit c || c = 95

/-- The whole of `_FQCN`: `namespace.name`. -/
def isFqcn (s : Str) : Bool :=
  match Str.partition (str ".") s with
  | some (namespace', name) => isPart namespace' && isPart name
  | none => false

/-- `[A-Za-z0-9_]`, then such characters and others. -/
def isWordWith (others : Str) (s : Str) : Bool :=
  s.head?.any isNameChar && s.all fun c => isNameChar c || c ∈ others

/-- The whole of `_GALAXY_ROLE`. -/
def isGalaxyRole (s : Str) : Bool :=
  match Str.partition (str ".") s with
  | some (namespace', name) => isWordWith (str "-") namespace' && isWordWith (str ".-") name
  | none => false

/-- The whole of `_LOCAL_ROLE_DIRNAME`. -/
def isLocalRoleDirname (s : Str) : Bool := isWordWith (str ".-") s

/-- The whole of `_VERSION`. -/
def isVersion (s : Str) : Bool :=
  s.length ≤ 200 && s.head?.any (fun c => isNameChar c || c ∈ str ".+~<>=!*") &&
    s.tail.all fun c => isNameChar c || c ∈ str ".+~<>=!,*/ -"

/-! ## The checks -/

section

variable (py : Python)

/-- `f"{v!r}"`. -/
def repr (v : Yaml) : Except Raised Str := if v.prints then .ok (py.repr v) else .error .value

/-- `git+` before the URL is not part of it. -/
def candidate (allowGitPrefix : Bool) (value : Str) : Str :=
  if allowGitPrefix && (str "git+").isPrefixOf value then value.drop 4 else value

/-- `not x`, of a text or nothing. -/
def isBlank (s : Option Str) : Bool := s.all (· = [])

def checkHttpsUrl (value what : Str) (allowGitPrefix : Bool) : Check :=
  match urlsplit py.unicode py.nfkc (candidate allowGitPrefix value) with
  | none => .error .value
  | some parts =>
    if parts.scheme ≠ str "https" || isBlank (parts.hostname py.unicode)
        || value.any (fun c => py.unicode.isSpace c || c = 44) then
      refuse (what ++ str " must be an https:// URL (got " ++ py.repr (.str value) ++ str ")")
    else if !isBlank parts.userinfo.1 || !isBlank parts.userinfo.2 then
      refuse (what ++ str " must not embed credentials")
    else .ok ()

def checkVersion (entries : Entries) (what : Str) : Check :=
  match get entries "version" with
  | none => .ok ()
  | some (.str version) =>
    if matchesDollar isVersion version then .ok ()
    else refuse (what ++ str ": invalid version " ++ py.repr (.str version))
  | some _ => refuse (what ++ str ": version must be a quoted string (e.g. version: \"1.10.0\")")

/-- The keys a mapping may not have. -/
def unknownKeys (entries : Entries) (allowed : List String) : List Yaml :=
  (entries.map Prod.fst).filter fun k => k.str?.all fun s => s ∉ allowed.map str

/-- `', '.join(sorted(map(str, keys)))`. -/
def joined (keys : List Yaml) : Str :=
  (str ", ").intercalate ((keys.map py.shown).insertionSort (· ≤ ·))

/-- Refuses with a message that names the keys, if there are any. -/
def refuseKeys (unknown : List Yaml) (message : Str → Str) : Check :=
  if unknown = [] then .ok ()
  else if unknown.all Yaml.prints then refuse (message (joined py unknown))
  else .error .value

def checkKeys (entries : Entries) (allowed : List String) (what : Str) : Check :=
  refuseKeys py (unknownKeys entries allowed) fun keys =>
    what ++ str ": unsupported key(s): " ++ keys

/-- `ctype == text`. -/
def isText (v : Yaml) (text : String) : Bool := v.str? = some (str text)

def checkType (name what : Str) (ctype : Yaml) : Check :=
  if isText ctype "galaxy" then
    if matchesDollar isFqcn name then .ok ()
    else refuse (what ++ str ": must be a Galaxy name like namespace.name")
  else if isText ctype "url" || isText ctype "git" then
    checkHttpsUrl py name (what ++ str " name") (isText ctype "git")
  else do
    let shown ← repr py ctype
    refuse (what ++ str ": type " ++ shown ++ str (" is not allowed (only galaxy, url, git — " ++
      "local file/dir sources are rejected)"))

def checkSource (entries : Entries) (what : Str) : Check :=
  match get entries "source" with
  | none => .ok ()
  | some (.str source) => checkHttpsUrl py source (what ++ str " source") false
  | some _ => refuse (what ++ str ": source must be a string")

/-- The rest of a collection mapping, whose keys are allowed. -/
def checkNamed (allowLocal : Bool) (entries : Entries) (what : Str) : Check :=
  match get entries "name" with
  | some (.str name) =>
    if name = [] then refuse (str "each collection mapping needs a string 'name'")
    else do
      checkVersion py entries what
      if allowLocal then .ok ()
      else do
        checkType py name what ((get entries "type").getD (.str (str "galaxy")))
        checkSource py entries what
  | _ => refuse (str "each collection mapping needs a string 'name'")

def validateCollection (allowLocal : Bool) : Yaml → Check
  | .str s =>
    if !allowLocal && !matchesDollar isFqcn s then
      refuse (str "collection " ++ py.repr (.str s) ++
        str (" must be a Galaxy name like namespace.name " ++
          "(use a mapping with type: url or git for URLs)"))
    else .ok ()
  | .map entries => do
    let what := str "collection " ++ (← repr py ((get entries "name").getD .null))
    checkKeys py entries ["name", "version", "type", "source"] what
    checkNamed py allowLocal entries what
  | _ => refuse (str "each collection must be a name string or a mapping")

def checkRoleSrc (src what : Str) : Check :=
  if matchesDollar isGalaxyRole src then .ok ()
  else if (str "https://").isPrefixOf src || (str "git+https://").isPrefixOf src then
    checkHttpsUrl py src (what ++ str " src") true
  else refuse (what ++ str (": src must be a Galaxy name like namespace.role " ++
    "or an https:// / git+https:// URL"))

/-- `a or b`. -/
def orElse (a b : Yaml) : Yaml := if a.truthy then a else b

/-- The `src`, or the name without one, which is a text then; a `src` that is null is none. -/
def checkRoleTarget (what : Str) (name src : Yaml) : Check :=
  match src with
  | .null =>
    match name with
    | .str name => checkRoleSrc py name what
    | _ => .ok ()
  | .str s => do
    checkRoleSrc py s what
    match name with
    | .null => .ok ()
    | .str name =>
      if matchesDollar isLocalRoleDirname name then .ok ()
      else refuse (what ++ str ": name may only contain letters, digits, _ . -")
    | _ => refuse (what ++ str ": name may only contain letters, digits, _ . -")
  | _ => refuse (what ++ str ": src must be a string")

def checkScm (entries : Entries) (what : Str) : Check :=
  if isText ((get entries "scm").getD (.str (str "git"))) "git" then .ok ()
  else refuse (what ++ str ": only scm: git is supported")

/-- The rest of a role mapping, whose keys and version are allowed. -/
def checkTargeted (allowLocal : Bool) (entries : Entries) (what : Str) : Check :=
  let name := (get entries "name").getD .null
  let src := (get entries "src").getD .null
  match orElse name src with
  | .str s =>
    if s = [] then refuse (str "each role mapping needs a string 'name' or 'src'")
    else if allowLocal then .ok ()
    else do
      checkRoleTarget py what name src
      checkScm entries what
  | _ => refuse (str "each role mapping needs a string 'name' or 'src'")

def validateRole (allowLocal : Bool) : Yaml → Check
  | .str s =>
    if allowLocal then .ok () else checkRoleSrc py s (str "role " ++ py.repr (.str s))
  | .map entries => do
    let name := (get entries "name").getD .null
    let src := (get entries "src").getD .null
    let what := str "role " ++ (← repr py (orElse name src))
    checkKeys py entries ["name", "src", "version", "scm"] what
    checkVersion py entries what
    checkTargeted py allowLocal entries what
  | _ => refuse (str "each role must be a name string or a mapping")

def maxEntries : Nat := 100

/-- `parsed.get(key) or []`. -/
def listAt (entries : Entries) (key : String) : Yaml :=
  match get entries key with
  | some v => if v.truthy then v else .list []
  | none => .list []

def checkTopLevel (entries : Entries) : Check :=
  refuseKeys py (unknownKeys entries ["collections", "roles"]) fun keys =>
    str "unsupported top-level key(s): " ++ keys ++
      str " (only 'collections' and 'roles' are allowed)"

/-- The two loops over the entries. -/
def checkLists (allowLocal : Bool) : Yaml → Yaml → Except Raised (List Yaml × List Yaml)
  | .list collections, .list roles =>
    if maxEntries < collections.length + roles.length then
      .error (.requirements (str "too many entries (max 100)"))
    else do
      collections.forM (validateCollection py allowLocal)
      roles.forM (validateRole py allowLocal)
      pure (collections, roles)
  | _, _ => .error (.requirements (str "'collections' and 'roles' must each be a list"))

/-- The collections and the roles that are accepted. -/
def validateRequirements (allowLocal : Bool) : Yaml → Except Raised (List Yaml × List Yaml)
  | .null => .ok ([], [])
  | .map entries => do
    checkTopLevel py entries
    checkLists py allowLocal (listAt entries "collections") (listAt entries "roles")
  | _ => .error (.requirements
      (str "requirements must be a mapping with 'collections:' and/or 'roles:'"))

end

end Requirements

end Galaxy

end AnsiDeck
