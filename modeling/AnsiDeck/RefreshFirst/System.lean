import AnsiDeck.Lib.System
import AnsiDeck.InventorySources.Snapshots
import AnsiDeck.RunQueue.Moves

/-!
# Runs that refresh the inventory first

The runs, refreshes, inventories and snapshots of the whole database, one transaction a step. A
run may be triggered to wait for a refresh of its inventory (`_refresh_for_run`); refreshes are
claimed, requeued, ended by their worker's reports or by the reaper, and old snapshots are pruned.
The runs themselves are claimed, served (`RunQueue.Call`) and requeued as in the run queue; what
else their claims look at only allows fewer of them.

What a refresh's sources did (`rows`, `withOutput`) and the combined snapshot are the step's own.

Ghosts: `askedFor`, the refresh each run first waited for, and `merged`, the refreshes that were
merged into others.
-/

namespace AnsiDeck

namespace RefreshFirst

open Lib (Table)
open InventorySources (Db)

structure State where
  now : Time := 0
  db : Db := {}
  askedFor : Table RunId RefreshId := ∅
  merged : List (RefreshId × RefreshId) := []

/-- What else a run is triggered with. -/
structure Request where
  playbookSnapshot : Option String := some ""
  playbookId : Option Nat := some 1
  credentialId : Option Nat := some 1
  envCredentialIds : List Nat := []
  groupId : Option Nat := none
  vaultPasswordId : Option Nat := none
  vaultPasswordName : Option String := none
  gitCommit : Option String := none
  gitSnapshotId : Option GitSnapshotId := none
  timeoutSeconds : Nat := 7200

inductive Label (ε : Type)
  | tick (seconds : Nat)
  | createInventory (id : InventoryId) (inventory : Inventory)
  /-- Queues a run; with `refreshFirst`, it waits for the queued refresh, or for a new one. -/
  | trigger (id : RunId) (inventory : InventoryId) (refreshFirst hasSources : Bool)
      (static : StaticData) (groupName : Option String) (new : RefreshId) (request : Request := {})
  | enqueueRefresh (inventory : InventoryId) (new : RefreshId) (scope : Option (Finset SourceId))
  | claimRefresh (id : RefreshId) (by_ : Claimant)
  | refreshJob (id : RefreshId) (claim : Digest)
  | requeueRefresh (id : RefreshId) (claim : Digest) (waitingFor : String)
  | combine (id : RefreshId) (claim : Digest)
  | finishRefresh (id : RefreshId) (claim : Digest) (new : SnapshotId) (data : SnapshotData)
      (withOutput : List SourceId) (rows : List InventoryRefreshSource)
  | failRefresh (id : RefreshId) (claim : Digest) (status : RunStatus) (error : Option String)
  | reapRefresh (id : RefreshId) (rule : Reaper.RefreshRule)
  | pruneSnapshots
  | claimRun (id : RunId) (by_ : Claimant)
  | callRun (id : RunId) (call : RunQueue.Call ε)
  | storeDown (id : RunId) (claimToken : Token) (reason : String) (waitOver : Option String)

section

variable {ε : Type} (cfg : RunQueue.Settings) (fmt : EventFormat ε)

/-- `_locked_refresh`: the refresh, if this claim still owns it. -/
def lockedRefresh (s : State) (id : RefreshId) (claim : Digest) : Option InventoryRefresh :=
  (s.db.refreshes.get? id).filter fun r => r.status = .running && r.claimTokenHash = some claim

/-- `_pin_inventory`: what a new run pins, or `none` when it is refused. -/
def pinInventory (s : State) (inventory : Inventory) (refreshing hasSources : Bool)
    (static : StaticData) (groupName : Option String) :
    Option (Option (SnapshotId × InventorySnapshot)) := do
  let snapshot ← if hasSources && !refreshing then
      inventory.currentSnapshotId.bind fun id =>
        (s.db.snapshots.get? id).map fun snapshot => some (id, snapshot)
    else some none
  let graph ← (InventoryRender.merge static (snapshot.map fun e => e.2.data)).toOption
  if refreshing || groupName.all (fun group => graph.groups.contains (Lib.str group))
    then some snapshot else none

/-- The run as it is inserted. -/
def queuedRun (s : State) (inventory : InventoryId) (static : StaticData)
    (groupName : Option String) (snapshot : Option (SnapshotId × InventorySnapshot))
    (waiting : Option RefreshId) (request : Request) : Run where
  inventoryId := some inventory
  queuedAt := s.now
  groupName := groupName
  inventoryStatic := some static
  inventorySnapshotId := snapshot.map Prod.fst
  inventorySnapshotAt := snapshot.map fun e => e.2.createdAt
  inventorySnapshotHosts := snapshot.map fun e => e.2.hostCount
  waitingRefreshId := waiting
  playbookSnapshot := request.playbookSnapshot
  playbookId := request.playbookId
  credentialId := request.credentialId
  envCredentialIds := request.envCredentialIds
  groupId := request.groupId
  vaultPasswordId := request.vaultPasswordId
  vaultPasswordName := request.vaultPasswordName
  gitCommit := request.gitCommit
  gitSnapshotId := request.gitSnapshotId
  timeoutSeconds := request.timeoutSeconds

def trigger (s : State) (id : RunId) (inventory : InventoryId) (refreshFirst hasSources : Bool)
    (static : StaticData) (groupName : Option String) (new : RefreshId) (request : Request) :
    Option State := do
  let row ← s.db.inventories.get? inventory
  let refreshing := refreshFirst && hasSources
  let snapshot ← pinInventory s row refreshing hasSources static groupName
  if refreshing then
    let (refresh, db) := s.db.enqueueRefresh s.now inventory new none
    let run := queuedRun s inventory static groupName snapshot (some refresh) request
    some { s with
      db := { db with runs := db.runs.put id run }
      askedFor := s.askedFor.put id refresh }
  else
    let run := queuedRun s inventory static groupName snapshot none request
    some { s with db := { s.db with runs := s.db.runs.put id run } }

/-- The claim statement's conditions on runs and refreshes. -/
def claimable (s : State) (run : Run) : Bool :=
  run.status = .queued &&
  !(s.db.runs.any fun _ busy => RunQueue.sameInventory busy run && busy.status = .running) &&
  !((run.waitingRefreshId.bind s.db.refreshes.get?).any fun r => r.status.active)

def setDb (s : State) (db : Option Db) : Option State := db.map fun db => { s with db := db }

def putRefresh (s : State) (id : RefreshId) (row : InventoryRefresh) : State :=
  { s with db := { s.db with refreshes := s.db.refreshes.put id row } }

def putRun (s : State) (id : RunId) (run : Run) : State :=
  { s with db := { s.db with runs := s.db.runs.put id run } }

/-- The reaper locks the runs its rule applies to; any other call, the run it is about. -/
def finds (now : Time) (run : Run) : RunQueue.Call ε → Bool
  | .reap rule => Reaper.applies rule now run
  | _ => true

def step (s : State) : Label ε → Option State
  | .tick seconds => some { s with now := s.now + seconds }
  | .createInventory id inventory =>
    if (s.db.inventories.get? id).isNone && inventory.currentSnapshotId.isNone then
      some { s with db := { s.db with inventories := s.db.inventories.put id inventory } }
    else none
  | .trigger id inventory refreshFirst hasSources static groupName new request =>
    if (s.db.runs.get? id).isNone && (s.db.refreshes.get? new).isNone then
      trigger s id inventory refreshFirst hasSources static groupName new request
    else none
  | .enqueueRefresh inventory new scope =>
    if (s.db.refreshes.get? new).isNone then
      some { s with db := (s.db.enqueueRefresh s.now inventory new scope).2 }
    else none
  | .claimRefresh id by_ => do
    let row ← s.db.refreshes.get? id
    if row.status = .queued && !(s.db.refreshes.any fun _ busy =>
        busy.inventoryId = row.inventoryId && busy.status = .running) then
      some (putRefresh s id (claimedRefresh cfg.runLeaseSeconds s.now by_ row))
    else none
  | .refreshJob id claim => do
    let row ← lockedRefresh s id claim
    if row.jobTokenHash.isSome then
      some (putRefresh s id { row with
        jobTokenHash := none, jobTokenExpiresAt := none, startedAt := some s.now, stage :=
          some "sources" })
    else none
  | .requeueRefresh id claim waitingFor => do
    let row ← lockedRefresh s id claim
    some { s with
      db := s.db.requeueRefresh s.now id row waitingFor
      merged := match s.db.queuedRefresh? row.inventoryId with
        | some (other, _) => (id, other) :: s.merged
        | none => s.merged }
  | .combine id claim => do
    let row ← lockedRefresh s id claim
    if row.stage = some "sources" then some (putRefresh s id { row with stage := some "combine" })
    else none
  | .finishRefresh id claim new data withOutput rows => do
    let row ← lockedRefresh s id claim
    if row.stage.isSome && (s.db.snapshots.get? new).isNone then
      setDb s (s.db.finishRefresh fmt s.now id row new data withOutput rows)
    else none
  | .failRefresh id claim status error => do
    let row ← lockedRefresh s id claim
    if status.finished && status ≠ .success then
      setDb s (s.db.endRefresh fmt s.now id row status error)
    else none
  | .reapRefresh id rule => do
    let row ← s.db.refreshes.get? id
    if Reaper.refreshApplies rule s.now row then
      let (status, error) := Reaper.refreshVerdict fmt rule row
      setDb s (s.db.endRefresh fmt s.now id row status (some error))
    else none
  | .pruneSnapshots => some { s with db := s.db.pruneSnapshots }
  | .claimRun id by_ => do
    let run ← s.db.runs.get? id
    if claimable s run then
      let inventory := run.inventoryId.bind s.db.inventories.get?
      some (putRun s id (RunQueue.settled fmt s.now
        (claimedRun cfg.runLeaseSeconds s.now by_ inventory run)))
    else none
  | .callRun id call => do
    let run ← s.db.runs.get? id
    match call.handle cfg fmt s.now run with
    | .answer h => if finds s.now run call then some (putRun s id h.run) else none
    | .storeDown _ => none
  | .storeDown id claimToken reason waitOver => do
    let run ← s.db.runs.get? id
    some (putRun s id
      (InternalApi.storeDown cfg.hashToken fmt s.now run claimToken reason waitOver).run)

/-- The database, from an empty one. -/
def system : Lib.System State (Label ε) where
  init s := s = {}
  step := step cfg fmt

end

end RefreshFirst

end AnsiDeck
