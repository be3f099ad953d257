import AnsiDeck.Models
import AnsiDeck.Lib.Unicode

/-!
# The inventory a run sees

`app.inventory_render`: the inventory's own hosts and groups, merged with its sources' snapshot.
Static data wins: a static host's variables override a source's key by key, and static group
membership is the inventory's own. Every string that came from a source is marked unsafe, so
that a template in it is never evaluated.

A variable whose value is a list or an object can't be looked up in a set; the code raises
`TypeError` there (`Unhashable`), and whoever called it gets no graph.
-/

namespace AnsiDeck

namespace InventoryRender

open Lib (Dict Json Double Str str lowerAscii)

/-- `TypeError: unhashable type`. -/
inductive Unhashable
  | list
  | dict
  deriving DecidableEq, Repr

def sourceConnectionVars : List Str :=
  ["ansible_host", "ansible_port", "ansible_user", "ansible_ssh_host", "ansible_ssh_port",
    "ansible_ssh_user", "ansible_network_os", "ansible_connection"].map str

/-- `SOURCE_CONNECTIONS`, sorted. -/
def sourceConnections : List String :=
  ["httpapi", "netconf", "network_cli", "psrp", "ssh", "winrm"]

/-- `value in SOURCE_CONNECTIONS`. -/
def isSourceConnection : Json → Except Unhashable Bool
  | .str s => .ok ((sourceConnections.map str).contains s)
  | .arr _ => .error .list
  | .obj _ => .error .dict
  | _ => .ok false

/-- Why a variable from a dynamic source can't be passed to runs, or `none`. No letter outside
ASCII becomes one of `ansible_` in lower case, so ASCII's is the whole of `lower()` here. -/
def sourceVarProblem (key : Str) (value : Json) : Except Unhashable (Option String) :=
  if !((str "ansible_").isPrefixOf (key.map lowerAscii)) then .ok none
  else if !sourceConnectionVars.contains key then
    .ok (some "is an Ansible setting sources may not set")
  else if key = str "ansible_connection" then do
    if ← isSourceConnection value then pure none
    else
      let connections := ", ".intercalate sourceConnections
      pure (some s!"may only be one of {connections}")
  else .ok none

/-- The variables that may be passed on. -/
def sourceVars (vars : Vars) : Except Unhashable Vars := do
  let _ ← vars.entries.mapM fun e => sourceVarProblem e.1 e.2
  pure (vars.filter fun key value => match sourceVarProblem key value with
    | .ok none => true
    | _ => false)

/-- A string, and whether it is rendered `!unsafe`. -/
structure Text where
  text : Str
  isUnsafe : Bool

/-- A variable's value in a merged inventory. -/
inductive Value
  | null
  | bool (b : Bool)
  | int (n : Int)
  | float (x : Double)
  | str (s : Text)
  | arr (items : List Value)
  | obj (entries : List (Text × Value))

mutual

/-- The value with all its strings marked: `mark_unsafe` of what a source said, a deep copy of
what the inventory itself says. -/
def marked (isUnsafe : Bool) : Json → Value
  | .null => .null
  | .bool b => .bool b
  | .int n => .int n
  | .float x => .float x
  | .str s => .str ⟨s, isUnsafe⟩
  | .arr items => .arr (markedList isUnsafe items)
  | .obj entries => .obj (markedEntries isUnsafe entries)

def markedList (isUnsafe : Bool) : List Json → List Value
  | [] => []
  | item :: items => marked isUnsafe item :: markedList isUnsafe items

def markedEntries (isUnsafe : Bool) : List (Str × Json) → List (Text × Value)
  | [] => []
  | (key, value) :: entries => (⟨key, isUnsafe⟩, marked isUnsafe value) ::
      markedEntries isUnsafe entries

end

/-- A variable of a merged inventory; its name too may have come from a source. -/
structure Var where
  unsafeName : Bool
  value : Value

abbrev MergedVars := Dict Str Var

def markUnsafe (vars : Vars) : MergedVars := vars.mapValues fun _ value => ⟨true, marked true value⟩

/-- `merged.update(host_vars)`: a name that is there already stays the string it is. -/
def overlay (merged : MergedVars) (vars : Vars) : MergedVars :=
  vars.entries.foldl (fun m e =>
    m.set e.1 ⟨((m.get? e.1).map Var.unsafeName).getD false, marked false e.2⟩) merged

structure Group where
  hosts : List Str
  children : List Str
  vars : MergedVars

structure Graph where
  vars : MergedVars
  hosts : Dict Str MergedVars
  groups : Dict Str Group

/-- `list({**dict.fromkeys(names), **dict.fromkeys(more)})`. -/
def fromKeys (names more : List Str) : List Str :=
  (Dict.ofList ((names ++ more).map fun n => (n, ()))).keys

/-- The snapshot's part of `merge`: its hosts that are not `gone`, and of a group that is also the
inventory's own (`static`) only the members that never were the inventory's own hosts. -/
def fromSnapshot (static : StaticData) (snapshot : SnapshotData) : Except Unhashable Graph := do
  let gone := snapshot.staticHosts.filter fun h => !static.hosts.contains h
  let vars ← sourceVars snapshot.vars
  let hosts ← (snapshot.hosts.entries.filter fun e => !gone.contains e.1).mapM fun e => do
    pure (e.1, markUnsafe (← sourceVars e.2))
  let groups ← snapshot.groups.entries.mapM fun e => do
    let skip := if static.groups.contains e.1 then gone ++ snapshot.staticHosts else gone
    pure (e.1, {
      hosts := fromKeys (e.2.hosts.filter fun h => !skip.contains h) []
      children := e.2.children
      vars := markUnsafe (← sourceVars e.2.vars) : Group })
  pure ⟨markUnsafe vars, Dict.ofList hosts, Dict.ofList groups⟩

def merge (static : StaticData) (snapshot : Option SnapshotData) : Except Unhashable Graph := do
  let graph ← match snapshot with
    | none => pure ⟨∅, ∅, ∅⟩
    | some snapshot => fromSnapshot static snapshot
  let hosts := static.hosts.entries.foldl (fun hosts e =>
    hosts.set e.1 (overlay ((hosts.get? e.1).getD ∅) e.2)) graph.hosts
  let groups := static.groups.entries.foldl (fun groups e =>
    let group := (groups.get? e.1).getD ⟨[], [], ∅⟩
    groups.set e.1 { group with hosts := fromKeys group.hosts e.2 }) graph.groups
  pure ⟨graph.vars, hosts, groups⟩

end InventoryRender

end AnsiDeck
