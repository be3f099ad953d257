import AnsiDeck.Lib.System
import AnsiDeck.Lib.Table
import AnsiDeck.Queue

/-!
# The host key scans, statement by statement

`enqueue_scan` calls and scan claims in any number, as transactions in flight (`txs`). A call
looks for a scan of its inventory that is queued or running (`look`) and inserts one when its
statement saw none (`insert`); a claim's one statement picks the first candidate whose row nobody
has locked (`claim`). Each ends with a commit or a rollback. A statement sees what is committed
when it starts; a row's lock is held to the transaction's end, and nothing else makes two of these
transactions wait for each other: the table has no unique index besides its key.

Scans also end, by their worker's report or the reaper, and ended ones are pruned.
-/

namespace AnsiDeck

namespace HostKeyScans

open Lib (Table)

/-! ## `app.host_key_scans` -/

def timeoutSeconds : Nat := 90

/-- What a user asks to scan. -/
structure Request where
  inventory : InventoryId
  username : String
  targets : List ScanTarget

/-- `status in (queued, running)`, of this inventory. -/
def busy (inventory : InventoryId) (scan : HostKeyScan) : Bool :=
  scan.inventoryId = inventory && scan.status.active

/-- The row `enqueue_scan` inserts. -/
def queuedScan (now : Time) (request : Request) : HostKeyScan where
  inventoryId := request.inventory
  requestedBy := request.username
  targets := request.targets
  status := .queued
  queuedAt := now
  timeoutSeconds := timeoutSeconds

/-- Records the outcome; the claim goes. -/
def endScan (now : Time) (status : RunStatus) (error : Option String)
    (results : Option (List ScannedKey)) (scan : HostKeyScan) : HostKeyScan :=
  { scan with
    status := status
    finishedAt := some now
    leaseExpiresAt := none
    claimTokenHash := none
    jobTokenHash := none
    jobTokenExpiresAt := none
    error := (error.filter (· ≠ "")).map (clip 1000)
    results := match results with
      | some keys => some keys
      | none => scan.results }

def retentionSeconds : Nat := 3600

/-- What `prune_scans` deletes. -/
def expired (now : Time) (scan : HostKeyScan) : Bool :=
  scan.finishedAt.any fun finished => finished + retentionSeconds < now

/-! ## The claim statement -/

/-- `_CLAIM_KEYSCAN`'s `UPDATE .. SET`. -/
def claimedScan (lease : Nat) (started : Time) (by_ : Claimant) (scan : HostKeyScan) :
    HostKeyScan :=
  { scan with
    status := .running
    claimedAt := some started
    heartbeatAt := some started
    leaseExpiresAt := some (started + lease)
    workerId := some (clip 255 by_.workerId)
    claimTokenHash := some by_.claimHash
    jobTokenHash := some by_.jobHash
    jobTokenExpiresAt := some (started + jobTokenSeconds) }

/-- A transaction in flight. -/
inductive Work
  | looking (request : Request)
  /-- Its select saw no busy scan. -/
  | free (request : Request)
  /-- It returns that scan instead. -/
  | found (scan : ScanId)
  | inserted (scan : ScanId) (row : HostKeyScan)
  | claim (scan : ScanId) (started : Time) (by_ : Claimant)

/-- The committed row whose lock it holds. -/
def Work.locks : Work → Option ScanId
  | .claim scan _ _ => some scan
  | _ => none

structure State where
  now : Time := 0
  scans : Table ScanId HostKeyScan := ∅
  txs : Table Nat Work := ∅

inductive Label
  | tick (seconds : Nat)
  -- a call of `enqueue_scan`
  | enqueue (tx : Nat) (request : Request)
  | look (tx : Nat)
  | insert (tx : Nat) (started : Time) (id : ScanId)
  -- a claim's statement
  | claim (tx : Nat) (started : Time) (id : ScanId) (by_ : Claimant)
  | commit (tx : Nat)
  | rollback (tx : Nat)
  -- the rest
  | finish (id : ScanId) (started : Time) (status : RunStatus) (error : Option String)
      (results : Option (List ScannedKey))
  | prune (started : Time)

section

variable (lease : Nat)

def locked (s : State) (id : ScanId) : Bool := s.txs.any fun _ work => work.locks = some id

/-- The candidate's `WHERE`. -/
def eligible (s : State) (scan : HostKeyScan) : Bool :=
  scan.status = .queued && !(s.scans.any fun _ other =>
    other.inventoryId = scan.inventoryId && other.status = .running)

/-- `(a.queued_at, a.id) < (b.queued_at, b.id)`. -/
def before (ka : ScanId) (a : HostKeyScan) (kb : ScanId) (b : HostKeyScan) : Bool :=
  a.queuedAt < b.queuedAt || (a.queuedAt = b.queuedAt && ka < kb)

/-- `ORDER BY queued_at, id LIMIT 1 FOR UPDATE SKIP LOCKED`. -/
def picks (s : State) (id : ScanId) (scan : HostKeyScan) : Bool :=
  eligible s scan && !locked s id && s.scans.all fun k other =>
    !(eligible s other && !locked s k && before k other id scan)

/-- An id no row has, committed or not. -/
def unused (s : State) (id : ScanId) : Bool :=
  (s.scans.get? id).isNone && s.txs.all fun _ work => match work with
    | .inserted id' _ => id' ≠ id
    | _ => true

def setWork (s : State) (tx : Nat) (work : Work) : State := { s with txs := s.txs.put tx work }

def commitWork (s : State) (tx : Nat) : Work → Option State
  | .found _ => some { s with txs := s.txs.remove tx }
  | .inserted id row => some { s with scans := s.scans.put id row, txs := s.txs.remove tx }
  | .claim id started by_ => some { s with
      scans := s.scans.modify id (claimedScan lease started by_)
      txs := s.txs.remove tx }
  | .looking _ | .free _ => none

def step (s : State) : Label → Option State
  | .tick seconds => some { s with now := s.now + seconds }
  | .enqueue tx request =>
    if (s.txs.get? tx).isNone then some (setWork s tx (.looking request)) else none
  | .look tx => match s.txs.get? tx with
    | some (.looking request) =>
      match s.scans.entries.find? fun e => busy request.inventory e.2 with
      | some e => some (setWork s tx (.found e.1))
      | none => some (setWork s tx (.free request))
    | _ => none
  | .insert tx started id => match s.txs.get? tx with
    | some (.free request) =>
      if started ≤ s.now ∧ unused s id = true then
        some (setWork s tx (.inserted id (queuedScan started request)))
      else none
    | _ => none
  | .claim tx started id by_ => do
    let scan ← s.scans.get? id
    if (s.txs.get? tx).isNone = true ∧ started ≤ s.now ∧ picks s id scan = true then
      some (setWork s tx (.claim id started by_))
    else none
  | .commit tx => (s.txs.get? tx).bind (commitWork lease s tx)
  | .rollback tx => (s.txs.get? tx).map fun _ => { s with txs := s.txs.remove tx }
  | .finish id started status error results => do
    let scan ← s.scans.get? id
    if scan.status.active = true ∧ locked s id = false ∧ status.finished = true then
      some { s with scans := s.scans.put id (endScan started status error results scan) }
    else none
  | .prune started => some { s with scans := s.scans.deleteWhere fun _ => expired started }

/-- The database, from one without scans. -/
def system : Lib.System State Label where
  init s := s = {}
  step := step lease

end

end HostKeyScans

end AnsiDeck
