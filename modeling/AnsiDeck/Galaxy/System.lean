import AnsiDeck.Lib.System
import AnsiDeck.Lib.Table
import AnsiDeck.Reaper

/-!
# Galaxy installs and the gate

`app.galaxy` and the claims of `app.queue`, transaction by transaction. An install changes the
collections that runs, refreshes and checks load, so it starts only when none of them runs, and
none is claimed while an install waits or runs: a claim holds the advisory lock `GALAXY_GATE_KEY`
shared until it commits, and starting an install takes it exclusive. Claims of checks also hold
`LINT_CLAIM_KEY`.

A transaction that holds the gate is a row of `txs`, and each of its statements is a step that
reads what is committed then. Which of the queued rows a claim may take is restricted further for
runs and refreshes; that makes no difference here. What other transactions do to such a row is a
`write` or a `delete`: none of them sets a row running, and they wait for the one a claim has
locked.

An install's commands run in a thread of the API process (`run_install`), outside any transaction
but with one open, which records the outcome at the end: its `now()` is when the thread began. The
process may go away at any moment, and its commands, which have a session of their own, may then
still run.
-/

namespace AnsiDeck

namespace Galaxy

open Lib (Table)

structure Settings where
  runLeaseSeconds : Nat := 60
  lintMaxRunning : Nat := 2

inductive Kind
  | run
  | refresh
  | lint
  deriving DecidableEq

/-- A row that runs. -/
inductive Row
  | run (id : RunId)
  | refresh (id : RefreshId)
  | lint (id : LintId)
  | install (id : InstallId)
  deriving DecidableEq

/-- A new version of a row. -/
inductive Write
  | run (id : RunId) (row : Run)
  | refresh (id : RefreshId) (row : InventoryRefresh)
  | lint (id : LintId) (row : LintJob)

def Write.row : Write → Row
  | .run id _ => .run id
  | .refresh id _ => .refresh id
  | .lint id _ => .lint id

/-- How far a claim is. -/
inductive ClaimPhase
  /-- It has the gate. -/
  | gate
  /-- No install was pending. -/
  | clear
  /-- A check's: it has `LINT_CLAIM_KEY`. -/
  | lintLock
  /-- A check's: its claim statement began, and sees these. -/
  | statement (lints : Table LintId LintJob)
  /-- It has locked a row and written it. -/
  | claimed (write : Write)

/-- How far `try_start_install` is: what its statements so far found. -/
inductive InstallPhase
  | gate
  | noneRunning
  | queued (id : InstallId)
  | noRun (id : InstallId)
  | noRefresh (id : InstallId)
  | noLint (id : InstallId)

inductive Tx
  | claim (kind : Kind) (began : Time) (phase : ClaimPhase)
  | install (began : Time) (phase : InstallPhase)

/-- `run_install`'s thread. -/
inductive Thread
  | starting
  | installing (began : Time)
  /-- Its commands have ended; no return code when it failed otherwise. -/
  | done (began : Time) (returnCode : Option Int)
  /-- Its process went away, but not its commands. -/
  | orphaned

structure State where
  now : Time := 0
  runs : Table RunId Run := ∅
  refreshes : Table RefreshId InventoryRefresh := ∅
  lints : Table LintId LintJob := ∅
  installs : Table InstallId GalaxyInstall := ∅
  txs : Table Nat Tx := ∅
  threads : Table InstallId Thread := ∅

/-- What happens; a transaction with a `started` began then, and may have waited since. -/
inductive Label
  | tick (seconds : Nat)
  -- other transactions
  | write (write : Write)
  | delete (row : Row)
  -- a claim
  | claim (tx : Nat) (kind : Kind) (started : Time)
  | checkInstalls (tx : Nat)
  | lockLints (tx : Nat)
  | lintStatement (tx : Nat)
  | claimRun (tx : Nat) (id : RunId) (inventory : Option Inventory) (by_ : Claimant)
  | claimRefresh (tx : Nat) (id : RefreshId) (by_ : Claimant)
  | claimLint (tx : Nat) (id : LintId) (by_ : Claimant)
  | commit (tx : Nat)
  | rollback (tx : Nat)
  -- an install
  | createInstall (id : InstallId)
  | tryStart (tx : Nat) (started : Time)
  | nextStatement (tx : Nat)
  | boot (id : InstallId)
  | commandsEnd (id : InstallId) (returnCode : Option Int)
  | record (id : InstallId)
  | renew (id : InstallId) (started : Time)
  | crash (id : InstallId)
  | reap (id : InstallId) (started : Time)

section

variable {ε : Type} (cfg : Settings) (fmt : EventFormat ε)

/-- `install_pending`. -/
def installPending (s : State) : Bool := s.installs.any fun _ install => install.status.active

/-- Whether the row is committed as running. -/
def isRunning (s : State) : Row → Bool
  | .run id => (s.runs.get? id).any fun row => row.status = .running
  | .refresh id => (s.refreshes.get? id).any fun row => row.status = .running
  | .lint id => (s.lints.get? id).any fun row => row.status = .running
  | .install id => (s.installs.get? id).any fun row => row.status = .running

/-- The row a transaction has locked. -/
def Tx.locks : Tx → Option Row
  | .claim _ _ (.claimed write) => some write.row
  | _ => none

def unlocked (s : State) (row : Row) : Bool := s.txs.all fun _ tx => tx.locks ≠ some row

/-- Whether it has `LINT_CLAIM_KEY`. -/
def Tx.holdsLints : Tx → Bool
  | .claim _ _ .lintLock | .claim _ _ (.statement _) | .claim _ _ (.claimed (.lint _ _)) => true
  | _ => false

def Tx.isInstall : Tx → Bool
  | .install _ _ => true
  | _ => false

def put (s : State) : Write → State
  | .run id row => { s with runs := s.runs.put id row }
  | .refresh id row => { s with refreshes := s.refreshes.put id row }
  | .lint id row => { s with lints := s.lints.put id row }

/-- Whether a transaction other than a claim may write that. -/
def calm (s : State) : Write → Bool
  | .run id row => row.status ≠ .running || isRunning s (.run id)
  | .refresh id row => row.status ≠ .running || isRunning s (.refresh id)
  | .lint id row => row.status ≠ .running || (s.lints.get? id).any fun old =>
      old.status = .running && old.requestedByUserId = row.requestedByUserId

def delete (s : State) : Row → State
  | .run id => { s with runs := s.runs.remove id }
  | .refresh id => { s with refreshes := s.refreshes.remove id }
  | .lint id => { s with lints := s.lints.remove id }
  -- nothing deletes an install
  | .install _ => s

def putTx (s : State) (tx : Nat) (row : Tx) : State := { s with txs := s.txs.put tx row }

def endTx (s : State) (tx : Nat) : State := { s with txs := s.txs.remove tx }

/-- What the claim of a run commits: a run that can't run any more is failed at once. -/
def claimRow (began : Time) (by_ : Claimant) (inventory : Option Inventory) (run : Run) : Run :=
  let run := claimedRun cfg.runLeaseSeconds began by_ inventory run
  match unrunnableReason run with
  | none => run
  | some reason => (failRun fmt began run .failed s!"not run: {reason}").1

/-- The oldest queued install. -/
def oldestQueued (s : State) : Option InstallId :=
  ((s.installs.entries.filter fun e => e.2.status = .queued).map fun e => e.1).min?

/-- The next statement of `try_start_install`; `none` when it returns without starting one. -/
def InstallPhase.next (s : State) : InstallPhase → Option InstallPhase
  | .gate => if s.installs.any fun _ row => row.status = .running then none else some .noneRunning
  | .noneRunning => (oldestQueued s).map .queued
  | .queued id => if s.runs.any fun _ row => row.status = .running then none else some (.noRun id)
  | .noRun id =>
    if s.refreshes.any fun _ row => row.status = .running then none else some (.noRefresh id)
  | .noRefresh id =>
    if s.lints.any fun _ row => row.status = .running then none else some (.noLint id)
  | .noLint id => some (.noLint id)

/-- `try_start_install` marks the install running. -/
def startedInstall (began : Time) (install : GalaxyInstall) : GalaxyInstall :=
  { install with
    status := .running
    startedAt := some began
    leaseExpiresAt := some (began + cfg.runLeaseSeconds) }

/-- Whether `_renew_install_lease` goes on beside it. -/
def Thread.renews : Thread → Bool
  | .installing _ | .done _ _ => true
  | _ => false

/-- How the thread ends its install. -/
def outcome (returnCode : Option Int) : RunStatus :=
  if returnCode = some 0 then .success else .failed

/-- The `finally` of `run_install`. -/
def recorded (began : Time) (returnCode : Option Int) (install : GalaxyInstall) : GalaxyInstall :=
  { install with
    status := outcome returnCode
    returnCode := returnCode <|> install.returnCode
    finishedAt := some began
    leaseExpiresAt := none }

/-- `_renew_install_lease`. -/
def renewed (started : Time) (install : GalaxyInstall) : GalaxyInstall :=
  if install.status = .running then
    { install with leaseExpiresAt := some (started + cfg.runLeaseSeconds) }
  else install

/-- The reaper's. -/
def interrupted (started : Time) (install : GalaxyInstall) : GalaxyInstall :=
  { install with
    status := .failed
    statusReason := some "interrupted: the API process running it went away"
    finishedAt := some started
    leaseExpiresAt := none }

def putInstall (s : State) (id : InstallId) (install : GalaxyInstall) : State :=
  { s with installs := s.installs.put id install }

def putThread (s : State) (id : InstallId) (thread : Thread) : State :=
  { s with threads := s.threads.put id thread }

def endThread (s : State) (id : InstallId) : State := { s with threads := s.threads.remove id }

/-- The claim of a check: nobody else's check of the requester runs, and fewer than allowed in
all, as the statement sees it; the row as it is once locked. -/
def claimsLint (seen : Table LintId LintJob) (id : LintId) (lint : LintJob) : Bool :=
  (seen.get? id).any (fun row => row.status = .queued) && lint.status = .queued &&
  !(seen.any fun _ busy =>
    busy.requestedByUserId = lint.requestedByUserId && busy.status = .running) &&
  seen.count (fun _ row => row.status = .running) < cfg.lintMaxRunning

@[grind =] def step (s : State) : Label → Option State
  | .tick seconds => some { s with now := s.now + seconds }
  | .write write => if unlocked s write.row && calm s write then some (put s write) else none
  | .delete row => if unlocked s row then some (delete s row) else none
  | .claim tx kind started =>
    if (s.txs.get? tx).isNone && s.txs.all (fun _ other => !other.isInstall) && started ≤ s.now then
      some (putTx s tx (.claim kind started .gate))
    else none
  | .checkInstalls tx => match s.txs.get? tx with
    | some (.claim kind began .gate) =>
      some (if installPending s then endTx s tx else putTx s tx (.claim kind began .clear))
    | _ => none
  | .lockLints tx => match s.txs.get? tx with
    | some (.claim .lint began .clear) =>
      if s.txs.all fun _ other => !other.holdsLints then
        some (putTx s tx (.claim .lint began .lintLock))
      else none
    | _ => none
  | .lintStatement tx => match s.txs.get? tx with
    | some (.claim .lint began .lintLock) =>
      some (putTx s tx (.claim .lint began (.statement s.lints)))
    | _ => none
  | .claimRun tx id inventory by_ => match s.txs.get? tx, s.runs.get? id with
    | some (.claim .run began .clear), some run =>
      if run.status = .queued && unlocked s (.run id) then
        let row := claimRow cfg fmt began by_ inventory run
        some (putTx s tx (.claim .run began (.claimed (.run id row))))
      else none
    | _, _ => none
  | .claimRefresh tx id by_ => match s.txs.get? tx, s.refreshes.get? id with
    | some (.claim .refresh began .clear), some refresh =>
      if refresh.status = .queued && unlocked s (.refresh id) then
        let row := claimedRefresh cfg.runLeaseSeconds began by_ refresh
        some (putTx s tx (.claim .refresh began (.claimed (.refresh id row))))
      else none
    | _, _ => none
  | .claimLint tx id by_ => match s.txs.get? tx, s.lints.get? id with
    | some (.claim .lint began (.statement seen)), some lint =>
      if claimsLint cfg seen id lint && unlocked s (.lint id) then
        let row := claimedLint cfg.runLeaseSeconds began by_ lint
        some (putTx s tx (.claim .lint began (.claimed (.lint id row))))
      else none
    | _, _ => none
  | .commit tx => match s.txs.get? tx with
    | some (.claim _ _ (.claimed write)) => some (endTx (put s write) tx)
    | some (.install began (.noLint id)) => do
      let install ← s.installs.get? id
      some (putThread (putInstall (endTx s tx) id (startedInstall cfg began install)) id .starting)
    | _ => none
  | .rollback tx => do
    let _ ← s.txs.get? tx
    some (endTx s tx)
  | .createInstall id =>
    if (s.installs.get? id).isNone then some (putInstall s id {}) else none
  | .tryStart tx started =>
    if s.txs.all (fun _ _ => false) && started ≤ s.now then
      some (putTx s tx (.install started .gate))
    else none
  | .nextStatement tx => match s.txs.get? tx with
    | some (.install began phase) => match phase.next s with
      | some phase => some (putTx s tx (.install began phase))
      | none => some (endTx s tx)
    | _ => none
  | .boot id => match s.threads.get? id with
    | some .starting => some (putThread s id (.installing s.now))
    | _ => none
  | .commandsEnd id returnCode => match s.threads.get? id with
    | some (.installing began) => some (putThread s id (.done began returnCode))
    | some .orphaned => some (endThread s id)
    | _ => none
  | .record id => match s.threads.get? id, s.installs.get? id with
    | some (.done began returnCode), some install =>
      some (endThread (putInstall s id (recorded began returnCode install)) id)
    | _, _ => none
  | .renew id started => do
    let install ← s.installs.get? id
    if (s.threads.get? id).any Thread.renews && started ≤ s.now then
      some (putInstall s id (renewed cfg started install))
    else none
  | .crash id => match s.threads.get? id with
    | some (.installing _) => some (putThread s id .orphaned)
    | some .orphaned | none => none
    | some _ => some (endThread s id)
  | .reap id started => do
    let install ← s.installs.get? id
    if install.status = .running && install.leaseExpiresAt.any (· < started) &&
        started ≤ s.now then
      some (putInstall s id (interrupted started install))
    else none

/-- The database, the API's processes and their threads, from an empty queue. -/
def system : Lib.System State Label where
  init s := s = {}
  step := step cfg fmt

end

end Galaxy

end AnsiDeck
