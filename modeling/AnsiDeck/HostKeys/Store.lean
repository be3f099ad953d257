import AnsiDeck.HostKeys.Addresses
import AnsiDeck.HostKeys.KnownHosts
import AnsiDeck.Lib.System
import AnsiDeck.Models
import Mathlib.Data.List.Lex
import Mathlib.Data.List.Sort

/-!
# The host keys of inventories

`app.host_key_store`, and the endpoints that confirm and remove keys: each call is one step. A row
of `inventory_host_keys` has an id, from a counter. `record_learned` reads the addresses of the
run's hosts from its merged inventory, with the variables that Ansible combines for each host; that
may raise (`none`), and then nothing is learned.
-/

namespace AnsiDeck

namespace HostKeys

open Lib (Str str decimal)

/-- At most so many keys an inventory. -/
def maxKeys : Nat := 2000

inductive Source
  | scan
  | paste
  | learned
  deriving DecidableEq

structure InventoryHostKey where
  id : Nat
  inventoryId : InventoryId
  name : Str
  keyType : Str
  keyB64 : Str
  fingerprint : Str
  source : Source
  confirmed : Bool := true
  /-- The run that learned it. -/
  runId : Option RunId := none
  createdBy : Str
  createdAt : Time
  confirmedBy : Option Str := none
  confirmedAt : Option Time := none

structure Keys where
  rows : List InventoryHostKey := []
  nextId : Nat := 1

def Keys.of (s : Keys) (inventory : InventoryId) : List InventoryHostKey :=
  s.rows.filter fun k => k.inventoryId = inventory

/-! ## What a job is given -/

/-- `ORDER BY name, key_type`. -/
def keyOrder (a b : InventoryHostKey) : Prop := a.name < b.name ∨ a.name = b.name ∧
    a.keyType ≤ b.keyType

instance : DecidableRel keyOrder := fun a b =>
  inferInstanceAs (Decidable (a.name < b.name ∨ a.name = b.name ∧ a.keyType ≤ b.keyType))

def line (k : InventoryHostKey) : Str :=
  k.name ++ str " " ++ k.keyType ++ str " " ++ k.keyB64 ++ str "\n"

/-- The rows of `known_hosts_text`. -/
def jobKeys (s : Keys) (inventory : InventoryId) (confirmedOnly : Bool) : List InventoryHostKey :=
  ((s.of inventory).filter fun k => !confirmedOnly || k.confirmed).insertionSort keyOrder

def knownHostsText (s : Keys) (inventory : InventoryId) (confirmedOnly : Bool) : Str :=
  (jobKeys s inventory confirmedOnly).flatMap line

/-- The mode and the known_hosts of a run that checks host keys. -/
def jobHostKeys (s : Keys) (run : Run) : Option (String × Str) := do
  let mode ← run.hostKeyChecking
  let inventory ← run.inventoryId
  if mode = "accept_new" ∨ mode = "strict" then
    some (mode, knownHostsText s inventory (mode = "strict"))
  else none

/-! ## Learning -/

section

variable (py : Python)

/-- `owners`: the first host of each address. -/
def owners (hosts : List (Str × Vars)) : List (Str × Str) :=
  (hosts.filterMap fun h => (addressOf py.unicode h.1 h.2).name.map fun name => (name, h.1)).foldl
    (fun owners e => if owners.any (·.1 = e.1) then owners else owners ++ [e]) []

/-- What was stored, for the audit log. -/
structure StoredKey where
  name : Str
  host : Str
  fingerprint : Str

/-- The loop of `record_learned`. -/
structure Learning where
  keys : Keys
  known : List Str
  count : Nat
  stored : List StoredKey

def learnedKey (inventory : InventoryId) (run : RunId) (now : Time) (id : Nat) (key : KnownHost) :
    InventoryHostKey where
  id := id
  inventoryId := inventory
  name := key.name
  keyType := key.keyType
  keyB64 := key.keyB64
  fingerprint := key.fingerprint
  source := .learned
  confirmed := false
  runId := some run
  createdBy := str "run #" ++ decimal run
  createdAt := now

def learnKey (owners : List (Str × Str)) (inventory : InventoryId) (run : RunId) (now : Time)
    (l : Learning) (key : KnownHost) : Learning :=
  match owners.lookup key.name with
  | none => l
  | some host =>
    if key.name ∈ l.known ∨ maxKeys ≤ l.count then l
    else {
      keys := ⟨l.keys.rows ++ [learnedKey inventory run now l.keys.nextId key], l.keys.nextId + 1⟩
      known := key.name :: l.known
      count := l.count + 1
      stored := l.stored ++ [⟨key.name, host, key.fingerprint⟩] }

/-- What a run reports to `record_learned`, and what that reads besides: the run's project, its
inventory's, if there is one, and its hosts with their variables, unless that raises. -/
structure Report where
  runId : RunId
  run : Run
  project : Nat
  inventoryProject : Option Nat
  lines : List Str
  hosts : Option (List (Str × Vars))
  now : Time

/-- The keys, what was stored and `run.host_keys_learned`, where it is set. -/
def recordLearned (s : Keys) (r : Report) : Keys × List StoredKey × Option Nat :=
  match r.run.inventoryId with
  | none => (s, [], none)
  | some inventory =>
    if r.run.hostKeyChecking ≠ some "accept_new" then (s, [], none)
    else if r.lines = [] ∨ r.inventoryProject ≠ some r.project then (s, [], some 0)
    else
      let learned := (parseKnownHosts py ((str "\n").intercalate (r.lines.take maxLearnedLines))
        maxLearnedLines).1
      match r.hosts with
      | none => (s, [], some 0)
      | some hosts =>
        let known := (s.of inventory).map InventoryHostKey.name
        let l := learned.foldl (learnKey (owners py hosts) inventory r.runId r.now)
          ⟨s, known, (s.of inventory).length, []⟩
        (l.keys, l.stored, some l.stored.length)

end

/-! ## Trusting -/

/-- A change, for the audit log. -/
structure Change where
  name : Str
  keyType : Str
  fingerprint : Str
  previous : Option Str
  confirmed : Bool := false

/-- `TooManyKeys`. -/
structure TooManyKeys where

/-- Who trusts keys of which inventory, where they come from and when. -/
structure Trust where
  inventory : InventoryId
  source : Source
  username : Str
  now : Time

def isKey (inventory : InventoryId) (name keyType : Str) (k : InventoryHostKey) : Bool :=
  k.inventoryId = inventory && k.name = name && k.keyType = keyType

def confirm (username : Str) (now : Time) (k : InventoryHostKey) : InventoryHostKey :=
  { k with confirmed := true, confirmedBy := some username, confirmedAt := some now }

/-- What `trust` sets of a row, new or not. -/
def replaceKey (c : Trust) (key : KnownHost) (k : InventoryHostKey) : InventoryHostKey :=
  { k with
    keyB64 := key.keyB64
    fingerprint := key.fingerprint
    source := c.source
    confirmed := true
    runId := none
    createdBy := c.username
    createdAt := c.now
    confirmedBy := some c.username
    confirmedAt := some c.now }

def newKey (c : Trust) (id : Nat) (key : KnownHost) : InventoryHostKey where
  id := id
  inventoryId := c.inventory
  name := key.name
  keyType := key.keyType
  keyB64 := key.keyB64
  fingerprint := key.fingerprint
  source := c.source
  createdBy := c.username
  createdAt := c.now
  confirmedBy := some c.username
  confirmedAt := some c.now

/-- The row that is the inventory's key of this name and type changes. -/
def Keys.modify (s : Keys) (c : Trust) (key : KnownHost) (f : InventoryHostKey → InventoryHostKey) :
    Keys :=
  { s with rows := s.rows.map fun k => if isKey c.inventory key.name key.keyType k then f k else k }

def trustKey (c : Trust) (s : Keys × List Change) (key : KnownHost) : Keys × List Change :=
  match s.1.rows.find? (isKey c.inventory key.name key.keyType) with
  | some row =>
    if row.keyB64 = key.keyB64 then
      if row.confirmed then s
      else (s.1.modify c key (confirm c.username c.now),
        s.2 ++ [⟨key.name, key.keyType, key.fingerprint, none, true⟩])
    else (s.1.modify c key (replaceKey c key),
      s.2 ++ [⟨key.name, key.keyType, key.fingerprint, some row.fingerprint, false⟩])
  | none => (⟨s.1.rows ++ [newKey c s.1.nextId key], s.1.nextId + 1⟩,
      s.2 ++ [⟨key.name, key.keyType, key.fingerprint, none, false⟩])

def InventoryHostKey.pair (k : InventoryHostKey) : Str × Str := (k.name, k.keyType)

def KnownHost.pair (k : KnownHost) : Str × Str := (k.name, k.keyType)

/-- The names and types that `trust` would add. -/
def newPairs (s : Keys) (inventory : InventoryId) (keys : List KnownHost) : List (Str × Str) :=
  ((keys.map KnownHost.pair).dedup).filter fun p =>
    p ∉ (s.of inventory).map InventoryHostKey.pair

def trust (s : Keys) (c : Trust) (keys : List KnownHost) :
    Except TooManyKeys (Keys × List Change) :=
  if maxKeys < (s.of c.inventory).length + (newPairs s c.inventory keys).length then .error ⟨⟩
  else .ok (keys.foldl (trustKey c) (s, []))

/-! ## Confirming and removing -/

def confirmHostKeys (s : Keys) (inventory : InventoryId) (ids : List Nat) (username : Str)
    (now : Time) : Keys :=
  { s with rows := s.rows.map fun k =>
      if k.inventoryId = inventory ∧ k.id ∈ ids ∧ k.confirmed = false then confirm username now k
      else k }

def removeHostKey (s : Keys) (inventory : InventoryId) (id : Nat) : Keys :=
  { s with rows := s.rows.filter fun k => !(k.id = id && k.inventoryId = inventory) }

/-! ## Steps -/

inductive Call
  | learned (report : Report)
  | trust (by_ : Trust) (keys : List KnownHost)
  | confirm (inventory : InventoryId) (ids : List Nat) (username : Str) (now : Time)
  | remove (inventory : InventoryId) (id : Nat)

/-- A call that raises is rolled back. -/
def step (py : Python) (s : Keys) : Call → Keys
  | .learned report => (recordLearned py s report).1
  | .trust c keys =>
    match trust s c keys with
    | .ok r => r.1
    | .error _ => s
  | .confirm inventory ids username now => confirmHostKeys s inventory ids username now
  | .remove inventory id => removeHostKey s inventory id

def system (py : Python) : Lib.System Keys Call where
  init s := s = {}
  step s call := some (step py s call)

end HostKeys

end AnsiDeck
