import AnsiDeck.InventoryRender.Names
import AnsiDeck.JsonLimits
import AnsiDeck.Lib.CycleSearch

/-!
# Reading what a source found

`parse_output` of `app.inventory_sources`: the JSON that `ansible-inventory --list --export` writes,
as a graph of hosts and groups. A plugin is third-party code, so nothing about its output is taken
for granted. Hosts are added as they are met: with their variables in `_meta`, then as members.
-/

namespace AnsiDeck

namespace InventorySources

namespace Parse

open Lib (Dict Json Str str decimal)
open InventoryRender (Ansible Unhashable hostnameProblem groupProblem)

def maxVarsDepth : Nat := 32

def maxEdges : Nat := 200000

def maxWarnings : Nat := 20

/-- What is read besides the output: the settings, Ansible's own checks of an address, `repr` of a
text and how deep the interpreter lets `json.loads` recurse. -/
structure Env where
  maxOutputMb : Nat
  maxHosts : Nat
  maxGroups : Nat
  ansible : Ansible
  repr : Str → Str
  recursion : Nat

/-- `SourceError`, the `_Vaulted` that is caught on the way, or `TypeError`. -/
inductive Raised
  | sourceError (message : Str)
  | vaulted
  | typeError (error : Unhashable)
  deriving DecidableEq

def unexpected : Raised := .sourceError (str "unexpected output from ansible-inventory")

def nestedDeeper : Raised :=
  .sourceError (str "a value is nested deeper than " ++ decimal maxVarsDepth ++ str " levels")

/-- `entries.get(key)`. -/
def get (entries : List (Str × Json)) (key : String) : Option Json := entries.lookup (str key)

/-- `value or {}`. -/
def orEmpty : Option Json → Json
  | none | some .null | some (.bool false) | some (.int 0) | some (.str []) |
      some (.arr []) => .obj []
  | some (.float x) =>
    match x with
    | .finite _ 0 _ _ => .obj []
    | x => .float x
  | some v => v

def warn (warnings : List Str) (message : Str) : List Str :=
  if warnings.length < maxWarnings then warnings ++ [message.take 300]
  else if warnings.length = maxWarnings then warnings ++ [str "… more warnings not shown"]
  else warnings

/-! ## Values -/

def hasVault (entries : List (Str × Json)) : Bool :=
  entries.any fun e => e.1 = str "__ansible_vault"

/-- The value of an object whose only key is `__ansible_unsafe`. -/
def unsafeValue : List (Str × Json) → Option Json
  | [(key, inner)] => if key = str "__ansible_unsafe" then some inner else none
  | _ => none

mutual

/-- `_unwrap`. -/
def unwrap (depth : Nat) : Json → Except Raised Json
  | .obj entries =>
    if maxVarsDepth < depth then .error nestedDeeper
    else if hasVault entries then .error .vaulted
    else match unsafeValue entries with
    | some (.str s) => .ok (.str s)
    | some _ => .error unexpected
    | none => (unwrapEntries (depth + 1) entries).map .obj
  | .arr items =>
    if maxVarsDepth < depth then .error nestedDeeper
    else (unwrapItems (depth + 1) items).map .arr
  | value => if maxVarsDepth < depth then .error nestedDeeper else .ok value

def unwrapItems (depth : Nat) : List Json → Except Raised (List Json)
  | [] => .ok []
  | v :: vs => do
    let w ← unwrap depth v
    let ws ← unwrapItems depth vs
    pure (w :: ws)

def unwrapEntries (depth : Nat) : List (Str × Json) → Except Raised (List (Str × Json))
  | [] => .ok []
  | (key, v) :: es => do
    let w ← unwrap depth v
    let ws ← unwrapEntries depth es
    pure ((key, w) :: ws)

end

/-- One variable of `_parse_vars`. -/
def parseVar (place : Str) (out : Vars × List Str) (entry : Str × Json) :
    Except Raised (Vars × List Str) :=
  match unwrap 1 entry.2 with
  | .ok item => .ok (out.1.set entry.1 item, out.2)
  | .error .vaulted =>
    .ok (out.1, warn out.2
      (place ++ str ": dropped " ++ entry.1 ++ str ", a vault-encrypted value"))
  | .error e => .error e

def parseVars (value : Json) (place : Str) (warnings : List Str) :
    Except Raised (Vars × List Str) :=
  match value with
  | .obj entries => entries.foldlM (parseVar place) (∅, warnings)
  | _ => .error (.sourceError (place ++ str ": vars must be a mapping"))

/-- `_names`: a group's host or child names. -/
def names : Option Json → Except Raised (List Str)
  | none | some .null => .ok []
  | some (.arr items) => items.mapM fun
    | .str s => .ok s
    | _ => .error unexpected
  | some _ => .error unexpected

section

variable (env : Env)

/-! ## Hosts -/

/-- The hosts so far, the names that were skipped and the warnings. -/
structure Reading where
  hosts : Dict Str Vars
  skipped : List Str
  warnings : List Str

def skippedWarning (what name problem : Str) : Str :=
  str "skipped " ++ what ++ str " " ++ env.repr (name.take 100) ++ str ": its name " ++ problem

def addHost (r : Reading) (name : Str) : Except Raised (Bool × Reading) :=
  if r.hosts.contains name then .ok (true, r)
  else if name ∈ r.skipped then .ok (false, r)
  else match hostnameProblem env.ansible name with
  | some problem =>
    .ok (false, { r with
      skipped := name :: r.skipped
      warnings := warn r.warnings (skippedWarning env (str "host") name problem) })
  | none =>
    if env.maxHosts ≤ r.hosts.size then
      .error (.sourceError (str "more than " ++ decimal env.maxHosts ++ str " hosts"))
    else .ok (true, { r with hosts := r.hosts.set name ∅ })

/-- `[h for h in names if add_host(h)]`. -/
def addHosts (r : Reading) : List Str → Except Raised (List Str × Reading)
  | [] => .ok ([], r)
  | name :: names => do
    let (added, r) ← addHost env r name
    let (members, r) ← addHosts r names
    pure (if added then name :: members else members, r)

/-- A host of `hostvars`. -/
def readHost (r : Reading) (entry : Str × Json) : Except Raised Reading := do
  let (added, r) ← addHost env r entry.1
  if added then
    let (vars, warnings) ← parseVars entry.2 (str "host " ++ entry.1) r.warnings
    pure { r with hosts := r.hosts.set entry.1 vars, warnings := warnings }
  else pure r

/-! ## Groups -/

/-- After the first pass over the groups. -/
structure Sections where
  reading : Reading
  allVars : Vars
  rawGroups : Dict Str (List (Str × Json))

def readSection (s : Sections) (entry : Str × Json) : Except Raised Sections :=
  match entry.2 with
  | .obj group =>
    if entry.1 = str "all" then do
      let (vars, warnings) ← parseVars (orEmpty (get group "vars"))
        (str "group all") s.reading.warnings
      pure { s with allVars := vars, reading := { s.reading with warnings := warnings } }
    else if entry.1 = str "ungrouped" then do
      let hosts ← names (get group "hosts")
      let (_, reading) ← addHosts env s.reading hosts
      pure { s with reading := reading }
    else match groupProblem entry.1 with
    | some problem =>
      let message := skippedWarning env (str "group") entry.1 problem
      .ok { s with reading := { s.reading with warnings := warn s.reading.warnings message } }
    | none => .ok { s with rawGroups := s.rawGroups.set entry.1 group }
  | _ => .error unexpected

/-- In the second pass. -/
structure Groups where
  reading : Reading
  edges : Nat
  groups : Dict Str SourceGroup

def readGroup (rawGroups : Dict Str (List (Str × Json))) (g : Groups)
    (entry : Str × List (Str × Json)) : Except Raised Groups := do
  let hosts ← names (get entry.2 "hosts")
  let (members, reading) ← addHosts env g.reading hosts
  let children := (← names (get entry.2 "children")).filter fun c => rawGroups.contains c
  let edges := g.edges + members.length + children.length
  if maxEdges < edges then
    .error (.sourceError (str "more than " ++ decimal maxEdges ++ str " group memberships"))
  else
    let (vars, warnings) ← parseVars (orEmpty (get entry.2 "vars")) (str "group " ++ entry.1)
      reading.warnings
    pure {
      reading := { reading with warnings := warnings }
      edges := edges
      groups := g.groups.set entry.1 ⟨InventoryRender.fromKeys members [],
        InventoryRender.fromKeys children [], vars⟩ }

/-- `groups[name]["children"]`; each child is a group here. -/
def childrenOf (groups : Dict Str SourceGroup) (name : Str) : List Str :=
  ((groups.get? name).map SourceGroup.children).getD []

def refuseCycles (groups : Dict Str SourceGroup) : Except Raised Unit :=
  match Lib.CycleSearch.search (childrenOf groups) groups.keys with
  | .ok _ => .ok ()
  | .error child => .error (.sourceError (str "group " ++ env.repr child ++ str " contains itself"))

/-! ## The output -/

/-- `_meta`, and the groups. -/
def sections : Json → Option (List (Str × Json) × List (Str × Json))
  | .obj entries =>
    match (get entries "_meta").getD (.obj []) with
    | .obj found => some (found, entries.filter fun e => e.1 ≠ str "_meta")
    | _ => none
  | _ => none

/-- `meta.get("profile") == "inventory_legacy"`. -/
def isLegacy (found : List (Str × Json)) : Bool :=
  match get found "profile" with
  | some (.str s) => s = str "inventory_legacy"
  | _ => false

/-- `parse_output` of the value that the JSON is. -/
def readOutput (data : Json) : Except Raised (SourceGraph × List Str) :=
  match sections data with
  | none => .error unexpected
  | some (found, rest) =>
    if !isLegacy found then
      .error (.sourceError (str "unexpected output format from ansible-inventory"))
    else match orEmpty (get found "hostvars") with
    | .obj hostvars => do
      let reading ← hostvars.foldlM (readHost env) ⟨∅, [], []⟩
      let s ← rest.foldlM (readSection env) ⟨reading, ∅, ∅⟩
      if env.maxGroups < s.rawGroups.size then
        .error (.sourceError (str "more than " ++ decimal env.maxGroups ++ str " groups"))
      else
        let g ← s.rawGroups.entries.foldlM (readGroup env s.rawGroups) ⟨s.reading, 0, ∅⟩
        refuseCycles env g.groups
        pure (⟨s.allVars, g.reading.hosts, g.groups⟩, g.reading.warnings)
    | _ => .error unexpected

def loadOutput (raw : Bytes) : Except Raised Json :=
  if env.maxOutputMb * 1024 * 1024 < raw.length then
    .error (.sourceError
      (str "the output is larger than " ++ decimal env.maxOutputMb ++ str " MiB"))
  else match JsonLimits.loadsBounded env.recursion (.bytes raw) (maxVarsDepth + 8) with
  | .error .tooDeep => .error nestedDeeper
  | .error .invalid => .error (.sourceError (str "the output is not valid JSON"))
  | .ok data => .ok data

def parseOutput (raw : Bytes) : Except Raised (SourceGraph × List Str) := do
  readOutput env (← loadOutput env raw)

end

end Parse

end InventorySources

end AnsiDeck
