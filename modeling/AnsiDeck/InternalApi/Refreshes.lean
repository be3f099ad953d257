import AnsiDeck.InventorySources.Outputs

/-!
# The internal API's handlers of a refresh

`app.internal_api`, `/internal/refreshes/..`: the outputs a refresh's worker uploads chunk by chunk,
its report of what each source's call did (`/sources`), and the end (`/complete`). The staged files
are those of one refresh, by their part.

An answer that isn't a 200 leaves the database as it was, unless the refresh ended with it. What
combining the sources' outputs comes to is the caller's (`combined`), and so is the id a new
snapshot gets.
-/

namespace AnsiDeck

namespace InternalApi

open Lib (Table)
open InventorySources (Outputs SourcesDb)

/-- `X-Part`. -/
inductive Part
  | source (id : SourceId)
  | combined
  deriving DecidableEq

/-- The refresh's staged files. -/
abbrev Staged := Table Part Bytes

/-- `_locked_refresh`: the refresh, if this claim still owns it. -/
def lockedRefresh (db : SourcesDb) (id : RefreshId) (claim : Digest) : Option InventoryRefresh :=
  (db.refreshes.get? id).filter fun r => r.status = .running && r.claimTokenHash = some claim

/-! ## Uploads -/

inductive OutputAnswer
  | gone
  /-- 409: "Not an output of this refresh now". -/
  | notNow
  /-- 409: the offset to resend from. -/
  | behind (expectedOffset : Nat)
  /-- 413. -/
  | tooLarge
  | taken (offset : Nat)
  deriving DecidableEq

/-- `_ran_rows`: the rows of the sources this refresh's job ran. -/
def ranRows (rows : List InventoryRefreshSource) : List InventoryRefreshSource :=
  rows.filter fun row => row.ran && row.sourceId.isSome

/-- `source_id in _ran_rows`. -/
def ranSource (rows : List InventoryRefreshSource) (id : SourceId) : Bool :=
  (ranRows rows).any (·.sourceId = some id)

def partAllowed (db : SourcesDb) (id : RefreshId) (refresh : InventoryRefresh) : Part → Bool
  | .combined => refresh.stage = some "combine"
  | .source source => refresh.stage = some "sources" && ranSource (db.refreshRows id) source

/-- What a staged file holds: one that isn't there is empty. -/
def stagedBytes (staged : Staged) (part : Part) : Bytes := (staged.get? part).getD []

/-- Appends a chunk at its offset: a resent chunk is accepted again, and a gap refused with the
offset to resend from. -/
def appendOutput (out : Outputs) (db : SourcesDb) (staged : Staged) (id : RefreshId)
    (claim : Digest) (offset : Nat) (part : Part) (chunk : Bytes) : OutputAnswer × Staged :=
  match lockedRefresh db id claim with
  | none => (.gone, staged)
  | some refresh =>
    if !partAllowed db id refresh part then (.notNow, staged)
    else
      let file := stagedBytes staged part
      if file.length < offset then (.behind file.length, staged)
      else if out.maxOutputBytes < offset + chunk.length then (.tooLarge, staged)
      else (.taken (offset + chunk.length), staged.put part (file.take offset ++ chunk))

/-- An uploaded output, if it matches the worker's size and hash. -/
def readPart (out : Outputs) (staged : Staged) (part : Part) (size : Nat)
    (sha256 : Option Digest) : Option Bytes :=
  let raw := stagedBytes staged part
  if raw.length = size ∧ some (out.sha256 raw) = sha256 then some raw else none

/-! ## The report -/

structure RefreshSourceResultIn where
  sourceId : SourceId
  status : RunStatus
  bytes : Nat := 0
  sha256 : Option Digest := none
  error : Option String := none
  scrubbed : Bool := false

/-- The answer to `/sources` and `/complete`. -/
inductive RefreshAnswer
  /-- 410: the claim is over, or the refresh ended without using the report. -/
  | gone
  /-- 409. -/
  | conflict (detail : String)
  /-- The combine job. -/
  | combine
  | done
  deriving DecidableEq

structure RefreshOutcome where
  answer : RefreshAnswer
  db : SourcesDb
  /-- `_end_refresh` removed the staged files. -/
  ended : Bool := false

/-- Why combining gives no snapshot, or no combine job. -/
inductive CombineError
  /-- `SourceError` or `SecretStoreError`: the refresh fails with it. -/
  | stops (error : String)
  /-- Anything else: HTTP 500. -/
  | raises

/-- `error or default`. -/
def orElse (error : Option String) (default : String) : String :=
  match error with
  | some e => if e = "" then default else e
  | none => default

section

variable {ε : Type} (out : Outputs) (fmt : EventFormat ε) (now : Time)

/-- `{result.source_id: result for result in body.results}`. -/
def reported (results : List RefreshSourceResultIn) (id : SourceId) :
    Option RefreshSourceResultIn :=
  results.reverse.find? (·.sourceId = id)

/-- `_store_results` of one row. -/
def storeResult (staged : Staged) (id : RefreshId) (results : List RefreshSourceResultIn)
    (row : InventoryRefreshSource) (db : SourcesDb) :
    Except String (InventoryRefreshSource × SourcesDb) :=
  match row.sourceId with
  | none => .ok (row, db)
  | some source =>
    -- one that is settled was so when the job was built (e.g. its file is gone)
    if !row.ran || row.status.isSome then .ok (row, db)
    else match reported results source with
      | none => .ok (db.recordSourceFailure out now row "the worker reported no result")
      | some result =>
        if result.status ≠ .success then
          .ok (db.recordSourceFailure out now row (orElse result.error "ansible-inventory failed"))
        else match readPart out staged (.source source) result.bytes result.sha256 with
          | none => .error s!"The output of source {source} doesn't match its size and hash"
          | some raw => .ok (db.storeSourceOutput out now id row raw result.scrubbed)

def storeRows (staged : Staged) (id : RefreshId) (results : List RefreshSourceResultIn) :
    List InventoryRefreshSource → SourcesDb →
      Except String (List InventoryRefreshSource × SourcesDb)
  | [], db => .ok ([], db)
  | row :: rows, db => do
    let (row, db) ← storeResult out now staged id results row db
    let (rows, db) ← storeRows staged id results rows db
    pure (row :: rows, db)

/-- Records what each source did; the detail of a conflict when the report is wrong. -/
def storeResults (db : SourcesDb) (staged : Staged) (id : RefreshId)
    (results : List RefreshSourceResultIn) : Except String SourcesDb :=
  let rows := db.refreshRows id
  if results.any fun result => !ranSource rows result.sourceId then
    .error "Results for sources this refresh didn't run"
  else do
    let (rows, db) ← storeRows out now staged id results rows db
    pure (db.putRows id rows)

/-- `_end_refresh`. -/
def endRefresh (db : SourcesDb) (id : RefreshId) (refresh : InventoryRefresh) (status : RunStatus)
    (error : Option String) (answer : RefreshAnswer) : Option RefreshOutcome :=
  (db.lift fun d => d.endRefresh fmt now id refresh status error).map fun db => ⟨answer, db, true⟩

/-- The sources that have an output of their own. -/
def withOutput (db : SourcesDb) (inventory : InventoryId) : List SourceId :=
  (db.outputs.entries.filter fun e => e.2.inventoryId = inventory).map fun e => e.1

/-- `_finish_refresh`. -/
def finishRefresh (db : SourcesDb) (id : RefreshId) (refresh : InventoryRefresh)
    (new : SnapshotId) (data : SnapshotData) : Option RefreshOutcome :=
  (db.lift fun d => d.finishRefresh fmt now id refresh new data
    (withOutput db refresh.inventoryId) (db.refreshRows id)).map fun db => ⟨.done, db, true⟩

/-- `/sources` once the results are stored: combines them here, or hands out the combine job. -/
def combineSources (db : SourcesDb) (id : RefreshId) (refresh : InventoryRefresh)
    (combined : Except CombineError SnapshotData) (new : SnapshotId) : Option RefreshOutcome :=
  match combined with
  | .error .raises => none
  | .error (.stops error) => endRefresh fmt now db id refresh .failed (some error) .gone
  | .ok data =>
    if db.needsCombineJob refresh.inventoryId then
      some ⟨.combine, { db with
        refreshes := db.refreshes.put id { refresh with stage := some "combine" } }, false⟩
    else finishRefresh fmt now db id refresh new data

/-- What each source's call did: their outputs become the sources' last good outputs, then they are
combined. `none` is HTTP 500, with nothing committed. -/
def refreshSources (db : SourcesDb) (staged : Staged) (id : RefreshId) (claim : Digest)
    (results : List RefreshSourceResultIn) (combined : Except CombineError SnapshotData)
    (new : SnapshotId) : Option RefreshOutcome :=
  match lockedRefresh db id claim with
  | none => some ⟨.gone, db, false⟩
  | some refresh =>
    if (db.inventories.get? refresh.inventoryId).isNone then
      endRefresh fmt now db id refresh .failed (some "the inventory was deleted") .gone
    else if refresh.stage = some "sources" then
      match storeResults out now db staged id results with
      | .error detail => some ⟨.conflict detail, db, false⟩
      | .ok stored => combineSources fmt now stored id refresh combined new
    -- asked again after the sources: the same combine job
    else if refresh.stage = some "combine" then
      combineSources fmt now db id refresh combined new
    else some ⟨.conflict "The refresh isn't running its sources", db, false⟩

/-! ## The end -/

structure RefreshCompleteIn where
  status : RunStatus
  bytes : Nat := 0
  sha256 : Option Digest := none
  error : Option String := none

/-- The statuses the body may have. -/
def RefreshCompleteIn.ends (body : RefreshCompleteIn) : Bool :=
  body.status = .success || body.status = .failed || body.status = .timedOut

/-- The combine's output, `combined` once normalised, or why the worker stopped. -/
def refreshComplete (db : SourcesDb) (staged : Staged) (id : RefreshId) (claim : Digest)
    (body : RefreshCompleteIn) (combined : Except CombineError SnapshotData) (new : SnapshotId) :
    Option RefreshOutcome :=
  match lockedRefresh db id claim with
  | none => some ⟨.gone, db, false⟩
  | some refresh =>
    if body.status ≠ .success then
      let error := orElse body.error (body.status.value.replace "_" " ")
      endRefresh fmt now db id refresh body.status (some error) .done
    else if refresh.stage ≠ some "combine" then
      some ⟨.conflict "Report the sources first", db, false⟩
    else if (readPart out staged .combined body.bytes body.sha256).isNone then
      some ⟨.conflict "The output doesn't match its size and hash", db, false⟩
    else if (db.inventories.get? refresh.inventoryId).isNone then
      endRefresh fmt now db id refresh .failed (some "the inventory was deleted") .done
    else match combined with
      | .error .raises => none
      | .error (.stops error) =>
        let error := s!"applying the constructed sources: {error}"
        endRefresh fmt now db id refresh .failed (some error) .done
      | .ok data => finishRefresh fmt now db id refresh new data

end

end InternalApi

end AnsiDeck
