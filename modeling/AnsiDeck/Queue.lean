import AnsiDeck.RunLog

/-!
# What ends or requeues a run

`app.queue`: the functions that change a run's row on AnsiDeck's own behalf. Their caller holds
the row's lock and commits.
-/

namespace AnsiDeck

/-- Ends a run for AnsiDeck's own reasons. -/
def failRun {ε : Type} (fmt : EventFormat ε) (now : Time) (run : Run) (status : RunStatus)
    (reason : String) : Run × LogWrite :=
  let run := { run with
    status := status
    statusReason := some (clip 500 reason)
    finishedAt := some now
    leaseExpiresAt := none
    claimTokenHash := none
    jobTokenHash := none }
  RunLog.appendStatusLine fmt run s!"AnsiDeck: {reason}"

/-- Puts a claimed run whose job wasn't handed out back in the queue, in its old place
(`queuedAt` stays). Never writes a log line. -/
def requeueRun (run : Run) : Run :=
  { run with
    status := .queued
    claimedAt := none
    workerId := none
    heartbeatAt := none
    leaseExpiresAt := none
    claimTokenHash := none
    jobTokenHash := none
    jobTokenExpiresAt := none
    hostKeyChecking := none
    egressRestricted := none }

/-- `jobs.unrunnable_reason`: why a queued run can no longer run as it was triggered (something
it needs was deleted since). -/
def unrunnableReason (run : Run) : Option String :=
  if run.playbookSnapshot.isNone then some "its playbook snapshot is missing"
  else if run.playbookId.isNone then some "its playbook was deleted"
  else if run.inventoryId.isNone then some "its inventory was deleted"
  else if run.credentialId.isNone then some "its credential was deleted"
  else if run.groupName.isSome && run.groupId.isNone && run.inventoryStatic.isNone then
    some s!"its inventory group '{shown run.groupName}' was deleted"
  else if run.vaultPasswordName.isSome && run.vaultPasswordId.isNone then
    some "its vault password was deleted"
  else if run.gitCommit.isSome && run.gitSnapshotId.isNone then
    some "its git source (and the commit it was to run) was deleted"
  else none

def jobTokenSeconds : Nat := 60

/-- Who claims something, with the digests of the fresh tokens it is given. -/
structure Claimant where
  workerId : String
  claimHash : Digest
  jobHash : Digest

/-- `_CLAIM_REFRESH`'s `UPDATE .. SET`, with a lease of `lease` seconds. -/
def claimedRefresh (lease : Nat) (started : Time) (by_ : Claimant) (refresh : InventoryRefresh) :
    InventoryRefresh :=
  { refresh with
    status := .running
    claimedAt := some started
    heartbeatAt := some started
    leaseExpiresAt := some (started + lease)
    workerId := some (clip 255 by_.workerId)
    claimTokenHash := some by_.claimHash
    jobTokenHash := some by_.jobHash
    jobTokenExpiresAt := some (started + jobTokenSeconds) }

/-- `_CLAIM`'s, with the inventory as the statement finds it. -/
def claimedRun (lease : Nat) (started : Time) (by_ : Claimant) (inventory : Option Inventory)
    (run : Run) : Run :=
  { run with
    status := .running
    claimedAt := some started
    heartbeatAt := some started
    leaseExpiresAt := some (started + lease)
    workerId := some (clip 255 by_.workerId)
    claimTokenHash := some by_.claimHash
    jobTokenHash := some by_.jobHash
    jobTokenExpiresAt := some (started + jobTokenSeconds)
    hostKeyChecking := inventory.map Inventory.hostKeyChecking
    egressRestricted := inventory.map Inventory.egressRestricted }

/-- `_CLAIM_LINT`'s. -/
def claimedLint (lease : Nat) (started : Time) (by_ : Claimant) (lint : LintJob) : LintJob :=
  { lint with
    status := .running
    claimedAt := some started
    heartbeatAt := some started
    leaseExpiresAt := some (started + lease)
    workerId := some (clip 255 by_.workerId)
    claimTokenHash := some by_.claimHash
    jobTokenHash := some by_.jobHash
    jobTokenExpiresAt := some (started + jobTokenSeconds) }

section

variable {ε : Type} (fmt : EventFormat ε) (now : Time) (run : Run) (status : RunStatus)
  (reason : String)

@[simp] theorem failRun_status : (failRun fmt now run status reason).1.status = status := rfl

@[simp] theorem failRun_claimTokenHash :
    (failRun fmt now run status reason).1.claimTokenHash = none := rfl

@[simp] theorem failRun_jobTokenHash :
    (failRun fmt now run status reason).1.jobTokenHash = none := rfl

@[simp] theorem failRun_inventoryId :
    (failRun fmt now run status reason).1.inventoryId = run.inventoryId := rfl

@[simp] theorem failRun_queuedAt :
    (failRun fmt now run status reason).1.queuedAt = run.queuedAt := rfl

@[simp] theorem failRun_logSeq : (failRun fmt now run status reason).1.logSeq = run.logSeq + 1 :=
  rfl

/-- The status line, under the next sequence number. -/
def statusLine (run : Run) (reason : String) : Bytes :=
  RunLog.lines fmt [fmt.statusEvent (run.logSeq + 1) s!"AnsiDeck: {reason}"]

theorem failRun_write : (failRun fmt now run status reason).2
    = ⟨run.logBytes, statusLine fmt run reason⟩ := rfl

theorem failRun_logBytes : (failRun fmt now run status reason).1.logBytes
    = run.logBytes + (statusLine fmt run reason).length := rfl

@[simp] theorem requeueRun_status : (requeueRun run).status = .queued := rfl

@[simp] theorem requeueRun_claimTokenHash : (requeueRun run).claimTokenHash = none := rfl

@[simp] theorem requeueRun_jobTokenHash : (requeueRun run).jobTokenHash = none := rfl

@[simp] theorem requeueRun_inventoryId : (requeueRun run).inventoryId = run.inventoryId := rfl

@[simp] theorem requeueRun_queuedAt : (requeueRun run).queuedAt = run.queuedAt := rfl

end

end AnsiDeck
