import AnsiDeck.Lib.System
import AnsiDeck.Lib.Table
import AnsiDeck.Models
import Mathlib.Data.Finset.Erase

/-!
# Git snapshots, statement by statement

`app.git_sync` and `routers.runs.pin_snapshot`: a sync points its source at the snapshot of the
commit it fetched, an old one again or a new one; a trigger pins its source's current snapshot; and
`prune_snapshots` deletes those that nobody needs. A transaction in flight is a row of `txs` and
each of its statements a step, which reads what is committed then. It keeps the row locks it took
until it ends, and waits for those of others: an `UPDATE` or `DELETE` of a snapshot for any, the
`SELECT .. FOR SHARE` of a trigger for all but another trigger's, a foreign key's check for a
`DELETE` only. What a transaction wrote is visible once it commits; `SET NULL` of a deleted
snapshot's references is part of that.

The tars are no part of any transaction. A sync that finds no row, or no file, writes the tar before
its row; pruning removes the tar after it deleted the row, and before it commits.

`fetch`, what is in the repository and the playbooks are the environment's. Jobs are the rows of
`runs` and `lint_jobs`: other transactions claim, requeue and end them.
-/

namespace AnsiDeck

namespace GitSync

open Lib (Table)

def pruneAfterSeconds : Nat := 600

/-- A snapshot `prune_snapshots` found to be stale. -/
structure Stale where
  id : GitSnapshotId
  sourceId : GitSourceId
  commit : String
  deriving DecidableEq

/-- A snapshot as a sync loaded it. -/
structure Loaded where
  id : GitSnapshotId
  supersededAt : Option Time

/-- How far a sync is, and what it knows. -/
inductive SyncPhase
  /-- It has fetched the branch. -/
  | fetched
  /-- The commit's snapshot, if there is one. -/
  | looked (found : Option Loaded)
  /-- There is none, or its tar is missing. -/
  | building (found : Option Loaded)
  /-- Its tar is there; `changed` when it was written anew and differs. -/
  | built (found : Option Loaded) (changed : Bool)
  /-- It has the source's row lock and flushed the snapshot: a row it inserted, or one there was,
  which it locked if anything changed. -/
  | flushed (snapshot : Option GitSnapshotId) (locked : Bool)
  /-- It marked the source's previous snapshot. -/
  | superseded (snapshot : Option GitSnapshotId) (locked : Bool) (previous : Option GitSnapshotId)

inductive Tx
  | sync (source : GitSourceId) (began : Time) (commit : String) (phase : SyncPhase)
  /-- It read the source's current snapshot; `pinned` once it has locked the row. -/
  | trigger (snapshot : GitSnapshotId) (pinned : Option String)
  /-- `deleted` so far; `unlinking` the tar of the last one. -/
  | prune (todo : List Stale) (deleted : List GitSnapshotId) (unlinking : Option Stale)

structure State where
  now : Time := 0
  sources : Table GitSourceId GitSource := ∅
  snapshots : Table GitSnapshotId GitSnapshot := ∅
  /-- The next id of a snapshot. -/
  seq : GitSnapshotId := 1
  /-- `{source}/{commit}.tar`. -/
  tars : Finset (GitSourceId × String) := ∅
  runs : Table RunId Run := ∅
  lints : Table LintId LintJob := ∅
  txs : Table Nat Tx := ∅

inductive Label
  | tick (seconds : Nat)
  | createSource (id : GitSourceId)
  -- a sync
  | sync (tx : Nat) (source : GitSourceId) (commit : String) (began : Time)
  | look (tx : Nat)
  | checkTar (tx : Nat)
  | buildSnapshot (tx : Nat) (changed : Bool)
  | flush (tx : Nat)
  | supersede (tx : Nat)
  | commitSync (tx : Nat)
  -- a trigger
  | trigger (tx : Nat) (source : GitSourceId)
  | pin (tx : Nat)
  | queueRun (tx : Nat) (id : RunId) (run : Run)
  | queueLint (tx : Nat) (id : LintId) (lint : LintJob)
  /-- Another transaction claims, requeues or ends it. -/
  | setRun (id : RunId) (status : RunStatus)
  | setLint (id : LintId) (status : RunStatus)
  -- pruning
  | prune (tx : Nat) (began : Time)
  | delete (tx : Nat)
  | unlink (tx : Nat)
  | commitPrune (tx : Nat)
  | rollback (tx : Nat)

def snapshotPath (snapshot : GitSnapshot) : GitSourceId × String :=
  (snapshot.sourceId, snapshot.commit)

/-- Whether a source points at the snapshot. -/
def current (s : State) (id : GitSnapshotId) : Bool :=
  s.sources.any fun _ source => source.currentSnapshotId = some id

/-- Whether a queued or running run or check is pinned to it. -/
def pinned (s : State) (id : GitSnapshotId) : Bool :=
  (s.runs.any fun _ run => run.status.active && run.gitSnapshotId = some id) ||
  s.lints.any fun _ lint => lint.status.active && lint.gitSnapshotId = some id

/-- `prune_snapshots`' `SELECT`. -/
def stale (s : State) (began : Time) : List Stale :=
  (s.snapshots.entries.filter fun e =>
    e.2.supersededAt.any (· + pruneAfterSeconds < began) && !pinned s e.1 && !current s e.1).map
      fun e => ⟨e.1, e.2.sourceId, e.2.commit⟩

/-! ## Locks -/

/-- Whether the transaction has deleted the snapshot. -/
def Tx.deletes : Tx → GitSnapshotId → Bool
  | .prune _ deleted _, id => id ∈ deleted
  | _, _ => false

/-- Whether it has any lock on the snapshot's row. -/
def Tx.locks : Tx → GitSnapshotId → Bool
  | .sync _ _ _ (.flushed snapshot locked), id => locked && snapshot = some id
  | .sync _ _ _ (.superseded snapshot locked previous), id =>
    locked && snapshot = some id || previous = some id
  | .trigger snapshot (some _), id => snapshot = id
  | tx, id => tx.deletes id

def Tx.isTrigger : Tx → Bool
  | .trigger _ _ => true
  | _ => false

/-- Whether nobody else has a lock on the row. -/
def lockable (s : State) (tx : Nat) (id : GitSnapshotId) : Bool :=
  s.txs.all fun k other => k = tx || !other.locks id

/-- Whether nobody else has a lock on it but to share. -/
def shareable (s : State) (tx : Nat) (id : GitSnapshotId) : Bool :=
  s.txs.all fun k other => k = tx || other.isTrigger || !other.locks id

/-- Whether nobody else has deleted it. -/
def referable (s : State) (tx : Nat) (id : GitSnapshotId) : Bool :=
  s.txs.all fun k other => k = tx || !other.deletes id

/-- Whether it has the source's advisory lock. -/
def Tx.syncs : Tx → GitSourceId → Bool
  | .sync source _ _ _, id => source = id
  | _, _ => false

/-! ## Statements -/

def putTx (s : State) (tx : Nat) (row : Tx) : State := { s with txs := s.txs.put tx row }

def endTx (s : State) (tx : Nat) : State := { s with txs := s.txs.remove tx }

/-- `SELECT .. WHERE source_id = .. AND commit = ..` -/
def findSnapshot (s : State) (source : GitSourceId) (commit : String) : Option Loaded :=
  (s.snapshots.entries.find? fun e => e.2.sourceId = source && e.2.commit = commit).map
    fun e => ⟨e.1, e.2.supersededAt⟩

/-- `db.flush()`: inserts the snapshot, which the unique key must allow, or updates what changed of
it. -/
def flushSnapshot (s : State) (tx : Nat) (source : GitSourceId) (commit : String)
    (found : Option Loaded) (changed : Bool) : Option SyncPhase :=
  match found with
  | none => if (findSnapshot s source commit).isNone then some (.flushed none false) else none
  | some loaded =>
    if loaded.supersededAt.isSome || changed then
      if (s.snapshots.get? loaded.id).isSome && lockable s tx loaded.id then
        some (.flushed (some loaded.id) true)
      else none
    else some (.flushed (some loaded.id) false)

/-- `_apply` marks the source's previous snapshot; the `UPDATE` finds no row when it is gone. -/
def previousOf (s : State) (tx : Nat) (source : GitSource) (snapshot : Option GitSnapshotId) :
    Option (Option GitSnapshotId) :=
  match source.currentSnapshotId with
  | none => some none
  | some id =>
    if some id = snapshot || (s.snapshots.get? id).isNone then some none
    else if lockable s tx id then some (some id) else none

def markSuperseded (at_ : Option Time) (snapshot : GitSnapshot) : GitSnapshot :=
  { snapshot with supersededAt := at_ }

def pointAt (id : GitSnapshotId) (source : GitSource) : GitSource :=
  { source with currentSnapshotId := some id }

/-- What a sync commits for a snapshot there was. -/
def applySync (s : State) (source : GitSourceId) (began : Time) (id : GitSnapshotId) (locked : Bool)
    (previous : Option GitSnapshotId) : State :=
  let snapshots := match previous with
    | some old => s.snapshots.modify old (markSuperseded (some began))
    | none => s.snapshots
  { s with
    snapshots := if locked then snapshots.modify id (markSuperseded none) else snapshots
    sources := s.sources.modify source (pointAt id) }

/-- And for a new one. -/
def insertSync (s : State) (source : GitSourceId) (began : Time) (commit : String)
    (previous : Option GitSnapshotId) : State :=
  let inserted := { s with
    snapshots := s.snapshots.put s.seq { sourceId := source, commit := commit }
    seq := s.seq + 1 }
  applySync inserted source began s.seq false previous

/-- `ON DELETE SET NULL`. -/
def setNull (deleted : List GitSnapshotId) (reference : Option GitSnapshotId) :
    Option GitSnapshotId :=
  reference.filter fun id => id ∉ deleted

/-- What pruning commits. -/
def applyPrune (s : State) (deleted : List GitSnapshotId) : State :=
  { s with
    snapshots := s.snapshots.deleteWhere fun id _ => id ∈ deleted
    sources := s.sources.mapRows fun _ source =>
      { source with currentSnapshotId := setNull deleted source.currentSnapshotId }
    runs := s.runs.mapRows fun _ run =>
      { run with gitSnapshotId := setNull deleted run.gitSnapshotId }
    lints := s.lints.mapRows fun _ lint =>
      { lint with gitSnapshotId := setNull deleted lint.gitSnapshotId } }

@[grind =] def step (s : State) : Label → Option State
  | .tick seconds => some { s with now := s.now + seconds }
  | .createSource id =>
    if (s.sources.get? id).isNone then some { s with sources := s.sources.put id {} } else none
  | .sync tx source commit began =>
    if (s.txs.get? tx).isNone && s.txs.all (fun _ other => !other.syncs source) &&
        (s.sources.get? source).isSome && began ≤ s.now then
      some (putTx s tx (.sync source began commit .fetched))
    else none
  | .look tx => match s.txs.get? tx with
    | some (.sync source began commit .fetched) =>
      some (putTx s tx (.sync source began commit (.looked (findSnapshot s source commit))))
    | _ => none
  | .checkTar tx => match s.txs.get? tx with
    | some (.sync source began commit (.looked found)) =>
      let phase := if found.isNone || (source, commit) ∉ s.tars then .building found
        else .built found false
      some (putTx s tx (.sync source began commit phase))
    | _ => none
  | .buildSnapshot tx changed => match s.txs.get? tx with
    | some (.sync source began commit (.building found)) =>
      some { putTx s tx (.sync source began commit (.built found changed)) with
        tars := insert (source, commit) s.tars }
    | _ => none
  | .flush tx => match s.txs.get? tx with
    | some (.sync source began commit (.built found changed)) => do
      let _ ← s.sources.get? source
      let phase ← flushSnapshot s tx source commit found changed
      some (putTx s tx (.sync source began commit phase))
    | _ => none
  | .supersede tx => match s.txs.get? tx with
    | some (.sync source began commit (.flushed snapshot locked)) => do
      let row ← s.sources.get? source
      let previous ← previousOf s tx row snapshot
      some (putTx s tx (.sync source began commit (.superseded snapshot locked previous)))
    | _ => none
  | .commitSync tx => match s.txs.get? tx with
    | some (.sync source began _ (.superseded (some id) locked previous)) => do
      let row ← s.sources.get? source
      -- the foreign key's check, when the reference changes
      if row.currentSnapshotId = some id ||
          (s.snapshots.get? id).isSome && referable s tx id then
        some (endTx (applySync s source began id locked previous) tx)
      else none
    | some (.sync source began commit (.superseded none _ previous)) =>
      if (findSnapshot s source commit).isNone then
        some (endTx (insertSync s source began commit previous) tx)
      else none
    | _ => none
  | .trigger tx source => do
    let row ← s.sources.get? source
    let id ← row.currentSnapshotId
    if (s.txs.get? tx).isNone then some (putTx s tx (.trigger id none)) else none
  | .pin tx => match s.txs.get? tx with
    | some (.trigger id none) => do
      let row ← s.snapshots.get? id
      -- it reads the playbook from the tar
      if shareable s tx id && snapshotPath row ∈ s.tars then
        some (putTx s tx (.trigger id (some row.commit)))
      else none
    | _ => none
  | .queueRun tx id run => match s.txs.get? tx with
    | some (.trigger snapshot (some commit)) =>
      if (s.runs.get? id).isNone then
        let run := { run with
          status := .queued, gitSnapshotId := some snapshot, gitCommit := some commit }
        some { endTx s tx with runs := s.runs.put id run }
      else none
    | _ => none
  | .queueLint tx id lint => match s.txs.get? tx with
    | some (.trigger snapshot (some commit)) =>
      if (s.lints.get? id).isNone then
        let lint := { lint with
          status := .queued, gitSnapshotId := some snapshot, gitCommit := some commit }
        some { endTx s tx with lints := s.lints.put id lint }
      else none
    | _ => none
  | .setRun id status => do
    let run ← s.runs.get? id
    if run.status.active then some { s with runs := s.runs.put id { run with status := status } }
    else none
  | .setLint id status => do
    let lint ← s.lints.get? id
    if lint.status.active then
      some { s with lints := s.lints.put id { lint with status := status } }
    else none
  | .prune tx began =>
    if (s.txs.get? tx).isNone && began ≤ s.now then
      some (putTx s tx (.prune (stale s began) [] none))
    else none
  | .delete tx => match s.txs.get? tx with
    | some (.prune (next :: todo) deleted none) =>
      match s.snapshots.get? next.id with
      | none => some (putTx s tx (.prune todo deleted (some next)))
      | some _ =>
        if lockable s tx next.id then
          some (putTx s tx (.prune todo (next.id :: deleted) (some next)))
        else none
    | _ => none
  | .unlink tx => match s.txs.get? tx with
    | some (.prune todo deleted (some last)) =>
      some { putTx s tx (.prune todo deleted none) with
        tars := s.tars.erase (last.sourceId, last.commit) }
    | _ => none
  | .commitPrune tx => match s.txs.get? tx with
    | some (.prune [] deleted none) => some (endTx (applyPrune s deleted) tx)
    | _ => none
  | .rollback tx => do
    let _ ← s.txs.get? tx
    some (endTx s tx)

/-- The database and the snapshot directories, empty. -/
def system : Lib.System State Label where
  init s := s = {}
  step := step

end GitSync

end AnsiDeck
