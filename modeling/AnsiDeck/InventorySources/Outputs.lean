import AnsiDeck.InventorySources.Snapshots
import AnsiDeck.RunLog
import Mathlib.Data.List.Sort

/-!
# Sources and their outputs

`app.inventory_sources`: building a refresh's job (one row and one call a source), and what becomes
of each source's output: it is stored as the source's last good one, unless it can't be used (the
source failed) or the source changed since the job was built (`stale`).

How an output is parsed and how digests are made do not matter here: everything is over `Outputs`.
-/

namespace AnsiDeck

namespace InventorySources

open Lib (Table)

/-- How outputs are parsed and digests made, opaque otherwise. -/
structure Outputs where
  /-- `input_sha256`. -/
  inputSha256 : SourceInput → Digest
  /-- `hashlib.sha256(raw).hexdigest()`. -/
  sha256 : Bytes → Digest
  /-- `parse_output`: the graph with its warnings, or why it can't be used. -/
  parseOutput : Bytes → Except String (SourceGraph × List String)
  /-- `inventory_max_output_mb * 1024 * 1024`. -/
  maxOutputBytes : Nat

/-- `Db` with the sources, their last good outputs, and what each did in each refresh, in the order
of the rows' ids. -/
structure SourcesDb extends Db where
  sources : Table SourceId InventorySource := ∅
  outputs : Table SourceId InventorySourceOutput := ∅
  refreshSources : Table RefreshId (List InventoryRefreshSource) := ∅

def isConstructed (source : InventorySource) : Bool :=
  source.plugin = "constructed" || source.plugin = "ansible.builtin.constructed"

/-- Whether a refresh of this scope runs the source: it is for it, or nothing ran the source since
it was added or changed. -/
def runsIn (scope : Option (Finset SourceId)) (id : SourceId) (source : InventorySource) : Bool :=
  !isConstructed source && (scope.all (id ∈ ·) || source.lastQueuedAt.isNone)

def scrubbedWarning : String := "a credential's value appeared in the output and was redacted"

def maxWarnings : Nat := 20

/-- `_warn`. -/
def warn (warnings : List String) (message : String) : List String :=
  if warnings.length < maxWarnings then warnings ++ [clip 300 message]
  else if warnings.length = maxWarnings then warnings ++ ["… more warnings not shown"]
  else warnings

namespace SourcesDb

variable (out : Outputs) (now : Time)

/-- `inventory.sources`. -/
def sourcesOf (db : SourcesDb) (inventory : InventoryId) : List (SourceId × InventorySource) :=
  ((db.sources.entries.map fun e => (e.1, e.2)).filter fun e =>
    e.2.inventoryId = inventory).insertionSort fun a b => a.2.position ≤ b.2.position

/-- The enabled sources in the order they are read, constructed ones last. -/
def orderedSources (db : SourcesDb) (inventory : InventoryId) :
    List (SourceId × InventorySource) :=
  let enabled := (db.sourcesOf inventory).filter fun e => e.2.enabled
  (enabled.filter fun e => !isConstructed e.2) ++ enabled.filter fun e => isConstructed e.2

def hasSources (db : SourcesDb) (inventory : InventoryId) : Bool :=
  db.sources.any fun _ s => s.inventoryId = inventory && s.enabled

/-- `refresh_rows`. -/
def refreshRows (db : SourcesDb) (id : RefreshId) : List InventoryRefreshSource :=
  (db.refreshSources.get? id).getD []

def putRows (db : SourcesDb) (id : RefreshId) (rows : List InventoryRefreshSource) : SourcesDb :=
  { db with refreshSources := db.refreshSources.put id rows }

/-- A transaction that only touches the other tables; `none` when it raises. -/
def lift (db : SourcesDb) (f : Db → Option Db) : Option SourcesDb :=
  (f db.toDb).map fun d => { db with toDb := d }

/-! ## What a source did -/

/-- Whether the row's source is still what it was when the job was built. -/
def unchanged (db : SourcesDb) (row : InventoryRefreshSource) :
    Option (SourceId × InventorySource) :=
  row.sourceId.bind fun id => ((db.sources.get? id).filter fun source =>
    row.inputSha256 = some (out.inputSha256 source.toSourceInput)).map fun source => (id, source)

/-- The source keeps its last good output; its error shows until it works again. -/
def recordSourceFailure (db : SourcesDb) (row : InventoryRefreshSource) (error : String) :
    InventoryRefreshSource × SourcesDb :=
  let row := { row with status := some .failed, error := some (clip 1000 error) }
  match db.unchanged out row with
  | none => (row, db)
  | some (id, source) => (row, { db with
      sources := db.sources.put id
        { source with lastError := row.error, lastFinishedAt := some now } })

/-- The output a source's row gets. -/
def sourceOutput (id : RefreshId) (row : InventoryRefreshSource) (raw : Bytes) (scrubbed : Bool)
    (graph : SourceGraph) (warnings : List String) (previous : Option InventorySourceOutput)
    (inventory : InventoryId) : InventorySourceOutput :=
  let warnings := if scrubbed then scrubbedWarning :: warnings else warnings
  { inventoryId := inventory
    refreshId := some id
    data := graph
    hostCount := graph.hosts.size
    groupCount := graph.groups.size
    outputBytes := raw.length
    warnings := match previous with
      | some previous =>
        if previous.hostCount ≠ 0 ∧ graph.hosts.size * 2 < previous.hostCount then
          warn warnings (s!"{graph.hosts.size} hosts, down from {previous.hostCount} last time: " ++
            "check its filters and credential")
        else warnings
      | none => warnings
    inputSha256 := row.inputSha256
    refreshedAt := now }

/-- A source's output from this refresh becomes its last good output, unless it can't be used (the
source failed) or the source changed since the job was built (stale). -/
def storeSourceOutput (db : SourcesDb) (id : RefreshId) (row : InventoryRefreshSource)
    (raw : Bytes) (scrubbed : Bool) : InventoryRefreshSource × SourcesDb :=
  match out.parseOutput raw with
  | .error message => db.recordSourceFailure out now row message
  | .ok (graph, warnings) =>
    match db.unchanged out row with
    | none => ({ row with status := some .stale }, db)
    | some (source, kept) =>
      ({ row with status := some .success, error := none, hostCount := some graph.hosts.size },
        { db with
          outputs := db.outputs.put source (sourceOutput now id row raw scrubbed graph warnings
            (db.outputs.get? source) kept.inventoryId)
          sources := db.sources.put source
            { kept with lastError := none, lastFinishedAt := some now } })

/-! ## The job -/

/-- What `build_refresh_job` does about one source, the rows and calls it has made so far.
`unreadable` says why a git source's file can't be read. -/
def buildCall (scope : Option (Finset SourceId)) (unreadable : SourceId → Option String)
    (id : SourceId) (source : InventorySource)
    (acc : List InventoryRefreshSource × List SourceId × SourcesDb) :
    List InventoryRefreshSource × List SourceId × SourcesDb :=
  let (rows, calls, db) := acc
  let row : InventoryRefreshSource :=
    { sourceId := some id
      name := source.name
      ran := runsIn scope id source
      inputSha256 := some (out.inputSha256 source.toSourceInput) }
  if !row.ran then (rows ++ [row], calls, db)
  else
    let db := { db with sources := db.sources.put id { source with lastQueuedAt := some now } }
    match (if source.kind = .plugin then none else unreadable id) with
    | some error =>
      let (row, db) := db.recordSourceFailure out now row error
      (rows ++ [row], calls, db)
    | none => (rows ++ [row], calls ++ [id], db)

/-- Stage one of a refresh: its rows and the sources it calls. -/
def buildRefreshJob (db : SourcesDb) (id : RefreshId) (refresh : InventoryRefresh)
    (unreadable : SourceId → Option String) : List SourceId × SourcesDb :=
  let sources := db.orderedSources refresh.inventoryId
  let (rows, calls, db) := sources.foldl
    (fun acc e => buildCall out now refresh.scope unreadable e.1 e.2 acc) ([], [], db)
  (calls, { db.putRows id rows with
    refreshes := db.refreshes.put id
      { refresh with stage := some "sources", sources := sources.map Prod.fst } })

/-- Whether the combine runs in a worker. -/
def needsCombineJob (db : SourcesDb) (inventory : InventoryId) : Bool :=
  (db.orderedSources inventory).any fun e => isConstructed e.2

/-! ## Edits -/

/-- Whether an edit makes the source run in the next refresh. -/
def rerun (source new : InventorySource) : Bool :=
  new.config ≠ source.config || new.credentialId ≠ source.credentialId ||
  new.gitSourceId ≠ source.gitSourceId || new.path ≠ source.path ||
  (new.enabled && !source.enabled)

/-- `update_source`: the values in `new`, of those a request can change. -/
def updateSource (db : SourcesDb) (id : SourceId) (source new : InventorySource) : SourcesDb :=
  { db with
    sources := db.sources.put id { new with
      inventoryId := source.inventoryId
      kind := source.kind
      lastQueuedAt := if rerun source new then none else source.lastQueuedAt
      lastError := source.lastError
      lastFinishedAt := source.lastFinishedAt } }

def orphanedRow (id : SourceId) (row : InventoryRefreshSource) : InventoryRefreshSource :=
  if row.sourceId = some id then { row with sourceId := none } else row

/-- `delete_source`'s first commit: its output goes with it, and the rows of the refreshes lose
their reference (`ON DELETE SET NULL`). -/
def deleteSource (db : SourcesDb) (id : SourceId) : SourcesDb :=
  { db with
    sources := db.sources.remove id
    outputs := db.outputs.remove id
    refreshSources := db.refreshSources.mapRows fun _ rows => rows.map (orphanedRow id) }

/-- `_sources_changed`: after an edit's commit, queues a refresh of the sources in `scope`, under
the id `new` unless one is queued. Without any source, the inventory has no snapshot. -/
def sourcesChanged (db : SourcesDb) (inventory : InventoryId) (new : RefreshId)
    (scope : Finset SourceId) : SourcesDb :=
  if db.hasSources inventory then
    { db with
      toDb := (db.toDb.enqueueRefresh now inventory new (some scope)).2
      sources := db.sources.mapRows fun id source =>
        if source.inventoryId = inventory && id ∈ scope then
          { source with lastQueuedAt := some now }
        else source }
  else
    { db with inventories := db.inventories.modify inventory fun i =>
        { i with currentSnapshotId := none } }

end SourcesDb

/-- The smallest: a source's input is told by its config, an output holds nothing but its length. -/
def plainOutputs : Outputs where
  inputSha256 input := input.config.getD ""
  sha256 raw := if raw = [] then "" else "raw"
  parseOutput _ := .ok (⟨∅, ∅, ∅⟩, [])
  maxOutputBytes := 100

end InventorySources

end AnsiDeck
