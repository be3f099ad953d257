import AnsiDeck.Lib.Table
import AnsiDeck.InventoryRender
import AnsiDeck.InventorySources

/-!
# How a refresh ends

`app.inventory_sources`: a refresh ends with a snapshot or an error, in one transaction with the
runs that waited for it. They get the snapshot it stored (their target group looked up in it), or
fail. What they read and write is several tables at once (`Db`).

Looking a target group up may raise (`Unhashable`); the transaction is rolled back then, which is
`none` here.
-/

namespace AnsiDeck

namespace InventorySources

open Lib (Table str)
open InventoryRender (Unhashable merge)

structure Db where
  runs : Table RunId Run := ∅
  refreshes : Table RefreshId InventoryRefresh := ∅
  inventories : Table InventoryId Inventory := ∅
  snapshots : Table SnapshotId InventorySnapshot := ∅

def keepSnapshots : Nat := 5

/-- The refresh's status from what its sources did: failed if any of them failed. -/
def sourcesOutcome (rows : List InventoryRefreshSource) : RunStatus × Option String :=
  let errors := (rows.filter (·.status = some .failed)).map fun r =>
    let error := match r.error with
      | some e => if e = "" then "failed" else e
      | none => "failed"
    s!"source '{r.name}': {error}"
  if errors = [] then (.success, none) else (.failed, some (clip 1000 ("\n".intercalate errors)))

/-- Whether to keep the inventory's current snapshot rather than store a combined one; `withOutput`
is the sources that have an output of their own. -/
def keepCurrentSnapshot (current : Option InventorySnapshot) (withOutput : List SourceId)
    (rows : List InventoryRefreshSource) : Bool :=
  let ran := rows.filter (·.ran)
  if ran ≠ [] && !(ran.any fun r => r.status = some .success || r.status = some .stale) then true
  else match current with
    | none => false
    | some current => rows.any fun r => r.status = some .failed &&
        r.sourceId.any fun id => current.sources.contains id && !withOutput.contains id

namespace Db

variable {ε : Type} (fmt : EventFormat ε) (now : Time)

/-- `previous.superseded_at = func.now()`. -/
def supersede (snapshots : Table SnapshotId InventorySnapshot) (previous : Option SnapshotId) :
    Table SnapshotId InventorySnapshot :=
  snapshots.mapRows fun k s => if previous = some k then { s with supersededAt := some now } else s

/-- Makes it the inventory's current snapshot. -/
def storeSnapshot (db : Db) (id : RefreshId) (refresh : InventoryRefresh) (new : SnapshotId)
    (data : SnapshotData) : Db :=
  let previous := (db.inventories.get? refresh.inventoryId).bind Inventory.currentSnapshotId
  { db with
    snapshots := (supersede now db.snapshots previous).put new
      { inventoryId := refresh.inventoryId
        refreshId := some id
        data := data
        sources := refresh.sources
        createdAt := now }
    inventories := db.inventories.modify refresh.inventoryId fun i =>
      { i with currentSnapshotId := some new }
    refreshes := db.refreshes.modify id fun r => { r with snapshotId := some new } }

/-- Whether a queued or running run has pinned the snapshot. -/
def pinned (db : Db) (id : SnapshotId) : Bool :=
  db.runs.any fun _ run => run.status.active && run.inventorySnapshotId = some id

/-- A superseded snapshot beyond the last few of its inventory that nothing has pinned. -/
def doomed (db : Db) (id : SnapshotId) (snapshot : InventorySnapshot) : Bool :=
  let rank := db.snapshots.count fun k s =>
    s.inventoryId = snapshot.inventoryId && s.supersededAt.isSome && id ≤ k
  snapshot.supersededAt.isSome && keepSnapshots ≤ rank && !db.pinned id

/-- A reference after the rows `gone` are deleted (`ON DELETE SET NULL`). -/
def orphaned (gone : SnapshotId → Bool) (reference : Option SnapshotId) : Option SnapshotId :=
  reference.filter fun id => !gone id

def pruneSnapshots (db : Db) : Db :=
  let gone id := (db.snapshots.get? id).any (db.doomed id)
  { runs := db.runs.mapRows fun _ run =>
      { run with inventorySnapshotId := orphaned gone run.inventorySnapshotId }
    refreshes := db.refreshes.mapRows fun _ r =>
      { r with snapshotId := orphaned gone r.snapshotId }
    inventories := db.inventories.mapRows fun _ i =>
      { i with currentSnapshotId := orphaned gone i.currentSnapshotId }
    snapshots := db.snapshots.deleteWhere db.doomed }

/-! ## Releasing the runs that wait -/

/-- `text.splitlines()[0]`, of a text that isn't empty. -/
def firstLine (text : String) : String :=
  String.ofList (text.toList.takeWhile fun c =>
    !("\n\r\x0b\x0c\x1c\x1d\x1e\x85\u2028\u2029".toList.contains c))

/-- `error or status`, the status with its words apart. -/
def why (status : RunStatus) (error : Option String) : String :=
  match error with
  | some e => if e = "" then status.value.replace "_" " " else e
  | none => status.value.replace "_" " "

/-- Whether the run's target group is in the graph it would see with the snapshot. -/
def targets (pin : Pin) (snapshot : SnapshotData) : Except Unhashable Bool := do
  let graph ← merge (pin.static.getD ⟨∅, ∅⟩) (some snapshot)
  pure (pin.groupName.all fun group => graph.groups.contains (str group))

/-- What a waiting run becomes; `snapshot` is what its refresh made, if it succeeded. -/
def release (status : RunStatus) (error : Option String)
    (snapshot : Option (SnapshotId × InventorySnapshot)) (run : Run) : Except Unhashable Run :=
  match snapshot with
  | none =>
    let cause := clip 300 (firstLine (why status error))
    .ok (failRun fmt now run .failed s!"not run: the inventory refresh failed: {cause}").1
  | some (id, snapshot) => do
    if ← targets run.pin snapshot.data then
      pure { run with
        inventorySnapshotId := some id
        inventorySnapshotAt := some snapshot.createdAt
        inventorySnapshotHosts := some snapshot.hostCount }
    else
      let group := fmt.repr (shown run.groupName)
      pure (failRun fmt now run .failed
        s!"not run: its target group {group} is not in the refreshed inventory").1

def waitsFor (refresh : RefreshId) (run : Run) : Bool :=
  run.waitingRefreshId = some refresh && run.status = .queued

/-- The snapshot that a refresh which succeeded made. -/
def made (db : Db) (refresh : InventoryRefresh) (status : RunStatus) :
    Option (SnapshotId × InventorySnapshot) :=
  if status = .success then
    refresh.snapshotId.bind fun id => (db.snapshots.get? id).map fun s => (id, s)
  else none

/-- What any run becomes: only those that wait are looked at. -/
def releaseRun (db : Db) (id : RefreshId) (refresh : InventoryRefresh) (status : RunStatus)
    (error : Option String) (run : Run) : Option Run :=
  if waitsFor id run then (release fmt now status error (db.made refresh status) run).toOption
  else some run

/-- `_release_waiting_runs`. -/
def releaseWaitingRuns (db : Db) (id : RefreshId) (refresh : InventoryRefresh) (status : RunStatus)
    (error : Option String) : Option Db :=
  let released := db.releaseRun fmt now id refresh status error
  if db.runs.all fun _ run => (released run).isSome then
    some { db with runs := db.runs.mapRows fun _ run => (released run).getD run }
  else none

/-- `end_refresh`'s update of the row. -/
def ended (status : RunStatus) (error : Option String) (refresh : InventoryRefresh) :
    InventoryRefresh :=
  { refresh with
    status := status
    error := (error.filter (· ≠ "")).map (clip 1000)
    finishedAt := some now
    leaseExpiresAt := none
    claimTokenHash := none
    jobTokenHash := none }

/-- Ends a refresh, with the runs that wait for it. -/
def endRefresh (db : Db) (id : RefreshId) (refresh : InventoryRefresh) (status : RunStatus)
    (error : Option String) : Option Db :=
  releaseWaitingRuns fmt now { db
    with refreshes := db.refreshes.put id (ended now status error refresh) }
    id refresh status error

/-- `internal_api._finish_refresh`: stores the combined snapshot, unless the current one is to be
kept, and ends the refresh with what its sources did. -/
def finishRefresh (db : Db) (id : RefreshId) (refresh : InventoryRefresh) (new : SnapshotId)
    (data : SnapshotData) (withOutput : List SourceId) (rows : List InventoryRefreshSource) :
    Option Db :=
  let current := ((db.inventories.get? refresh.inventoryId).bind Inventory.currentSnapshotId).bind
    db.snapshots.get?
  let (status, error) := sourcesOutcome rows
  if keepCurrentSnapshot current withOutput rows then
    endRefresh fmt now db id refresh status error
  else
    endRefresh fmt now (db.storeSnapshot now id refresh new data) id
      { refresh with snapshotId := some new } status error

/-- The queued refresh of the inventory. -/
def queuedRefresh? (db : Db) (inventory : InventoryId) : Option (RefreshId × InventoryRefresh) :=
  (db.refreshes.entries.find? fun e =>
    e.2.inventoryId = inventory && e.2.status = .queued).map fun e => (e.1, e.2)

/-- `enqueue_refresh`, in a transaction of its own: the refresh that will serve the request, a new
row with the id `new` unless one is queued. -/
def enqueueRefresh (db : Db) (inventory : InventoryId) (new : RefreshId)
    (scope : Option (Finset SourceId)) : RefreshId × Db :=
  match db.queuedRefresh? inventory with
  | some (id, refresh) => (id, { db with
      refreshes := db.refreshes.put id { refresh with scope := widen refresh.scope scope } })
  | none => (new, { db with
      refreshes := db.refreshes.put new (queuedRefresh inventory now scope) })

/-- `requeue_refresh`. -/
def requeueRefresh (db : Db) (id : RefreshId) (refresh : InventoryRefresh) (waitingFor : String) :
    Db :=
  match db.queuedRefresh? refresh.inventoryId with
  | none => { db with refreshes := db.refreshes.put id (unclaimed .queued refresh) }
  | some (other, row) => { db with
      refreshes := (db.refreshes.put other (absorbing row refresh)).put id
        (mergedInto other waitingFor now refresh)
      runs := db.runs.mapRows fun _ run =>
        if run.waitingRefreshId = some id then { run with waitingRefreshId := some other }
        else run }

end Db

end InventorySources

end AnsiDeck
