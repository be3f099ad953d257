import AnsiDeck.Lib.System
import AnsiDeck.InternalApi.Refreshes
import AnsiDeck.Reaper

/-!
# One refresh, from its claim to its end

The refresh `id` under the claim `claim`, and whatever is done about the sources meanwhile. Its job
is fetched once; whoever holds the claim uploads, reports and completes (with any bodies); its lease
is renewed or the reaper ends it. Sources are created, edited and deleted by anyone, each edit
followed by `_sources_changed` in a transaction of its own. What else happens to runs, inventories,
snapshots and other refreshes (`others`) is anything at all.

A step is a transaction; one that raises (HTTP 500) changes nothing and is no step. The staged files
are removed once the refresh has ended.
-/

namespace AnsiDeck

namespace RefreshReport

open Lib (Table)
open InventorySources (Db SourcesDb Outputs)
open InternalApi

structure State where
  now : Time := 0
  db : SourcesDb := {}
  staged : Staged := ∅
  /-- The sources the job calls, once it is handed out. -/
  calls : List SourceId := []

/-- What fetching the job comes to. -/
inductive JobOutcome
  /-- It is handed out; `unreadable` are the git sources whose files can't be read, and why. -/
  | built (unreadable : SourceId → Option String)
  | fails (error : String)
  /-- The secret store is down. -/
  | waits (waitingFor : String)

inductive Label
  | tick (seconds : Nat)
  | others (db : Db)
  | createSource (id : SourceId) (source : InventorySource)
  | updateSource (id : SourceId) (new : InventorySource)
  | deleteSource (id : SourceId)
  | sourcesChanged (inventory : InventoryId) (new : RefreshId) (scope : Finset SourceId)
  | heartbeat (lease : Nat)
  | reap (rule : Reaper.RefreshRule)
  | job (how : JobOutcome)
  | output (offset : Nat) (part : Part) (chunk : Bytes)
  | report (results : List RefreshSourceResultIn) (combined : Except CombineError SnapshotData)
      (new : SnapshotId)
  | complete (body : RefreshCompleteIn) (combined : Except CombineError SnapshotData)
      (new : SnapshotId)

/-- Whether the claim's holder makes the step. -/
def Label.ofWorker : Label → Bool
  | .job _ | .output _ _ _ | .report _ _ _ | .complete _ _ _ => true
  | _ => false

section

variable {ε : Type} (out : Outputs) (fmt : EventFormat ε) (id : RefreshId) (claim : Digest)

/-- The other tables as `db` has them, with this refresh as it was. -/
def otherwise (s : State) (db : Db) : SourcesDb :=
  { s.db with
    toDb := { db with refreshes := match s.db.refreshes.get? id with
      | some row => db.refreshes.put id row
      | none => db.refreshes.remove id } }

def setDb (s : State) (db : SourcesDb) : State := { s with db := db }

/-- Ends the refresh, and removes its staged files. -/
def endWith (s : State) (row : InventoryRefresh) (status : RunStatus) (error : String) :
    Option State :=
  (endRefresh fmt s.now s.db id row status (some error) .gone).map fun o =>
    { s with db := o.db, staged := ∅ }

/-- `refresh_job`, once the tokens are checked. -/
def fetchJob (s : State) (row : InventoryRefresh) : JobOutcome → Option State
  | .built unreadable =>
    if (s.db.orderedSources row.inventoryId).isEmpty then
      endWith fmt id s row .failed "the inventory has no enabled sources"
    else
      let row := { row with
        jobTokenHash := none, jobTokenExpiresAt := none, startedAt := some s.now }
      let (calls, db) := s.db.buildRefreshJob out s.now id row unreadable
      some { s with db := db, calls := calls }
  | .fails error => endWith fmt id s row .failed error
  | .waits waitingFor =>
    some (setDb s { s.db with toDb := s.db.toDb.requeueRefresh s.now id row waitingFor })

/-- What a report or a completion leaves. -/
def after (s : State) (o : RefreshOutcome) : State :=
  { s with db := o.db, staged := if o.ended then ∅ else s.staged }

def step (s : State) : Label → Option State
  | .tick seconds => some { s with now := s.now + seconds }
  | .others db => some (setDb s (otherwise id s db))
  | .createSource source row =>
    if (s.db.sources.get? source).isNone && row.lastQueuedAt.isNone then
      some (setDb s { s.db with sources := s.db.sources.put source row })
    else none
  | .updateSource source new => do
    let row ← s.db.sources.get? source
    some (setDb s (s.db.updateSource source row new))
  | .deleteSource source => some (setDb s (s.db.deleteSource source))
  | .sourcesChanged inventory new scope =>
    if (s.db.refreshes.get? new).isNone then
      some (setDb s (s.db.sourcesChanged s.now inventory new scope))
    else none
  | .heartbeat lease => do
    let row ← lockedRefresh s.db id claim
    some (setDb s { s.db with refreshes := s.db.refreshes.put id { row with
      heartbeatAt := some s.now, leaseExpiresAt := some (s.now + lease) } })
  | .reap rule => do
    let row ← s.db.refreshes.get? id
    if Reaper.refreshApplies rule s.now row then
      let (status, error) := Reaper.refreshVerdict fmt rule row
      endWith fmt id s row status error
    else none
  | .job how => do
    let row ← lockedRefresh s.db id claim
    if row.jobTokenHash.isSome then fetchJob out fmt id s row how else none
  | .output offset part chunk =>
    some { s with staged := (appendOutput out s.db s.staged id claim offset part chunk).2 }
  | .report results combined new =>
    if (s.db.snapshots.get? new).isNone then
      (refreshSources out fmt s.now s.db s.staged id claim results combined new).map (after s)
    else none
  | .complete body combined new =>
    if body.ends && (s.db.snapshots.get? new).isNone then
      (refreshComplete out fmt s.now s.db s.staged id claim body combined new).map (after s)
    else none

/-- Whether the refresh has just been claimed: its job isn't fetched, and nothing ran. -/
def claimed (s : State) : Bool :=
  ((lockedRefresh s.db id claim).any fun row => row.stage.isNone && row.jobTokenHash.isSome &&
    row.snapshotId.isNone) && (s.db.refreshSources.get? id).isNone && s.calls.isEmpty

def system : Lib.System State Label where
  init s := claimed id claim s = true
  step := step out fmt id claim

end

end RefreshReport

end AnsiDeck
