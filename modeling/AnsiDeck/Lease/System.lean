import AnsiDeck.Lib.System
import AnsiDeck.Lib.Table
import AnsiDeck.Reaper
import AnsiDeck.RunQueue.System

/-!
# Leases and the worker's own fence, on one clock

The server leases a run to the worker that claimed it and renews the lease with each heartbeat; the
reaper ends a run whose lease ran out. A worker that hears nothing stops its runs by itself, before
that: it notes when each was last renewed (`RunTask.renewed`) and its heartbeat loop stops those it
couldn't renew for `fenceSeconds`.

Time is the number of seconds, one clock for all: only differences of a worker's own times are ever
compared. A request is processed by the server at some moment, or never, and its answer arrives at
some later moment, or never. The client's timeouts are for each operation of a request (connecting,
writing, every read), so no number of seconds bounds how long one takes. What can't wait bounds how
far the clock may go on (`patient`): the heartbeat loop wakes up every `heartbeatSeconds` after its
last beat, and a process that was told to stop is killed after `stopGraceSeconds`.

A claim is a row of `tasks`, by its token. A job whose task was told to stop before its process
started is never run: `attach` stops the process as it starts.
-/

namespace AnsiDeck

namespace Lease

open Lib (Table)

/-- The server's `run_lease_seconds`, and the worker's settings, as they are by default. -/
def runLeaseSeconds : Nat := 60

def fenceSeconds : Nat := 45

def heartbeatSeconds : Nat := 5

/-- `_WORKER_STOP_GRACE_SECONDS`: then the process is killed. -/
def stopGraceSeconds : Nat := 10

/-- How far a worker is with a run it claimed. -/
inductive Phase
  /-- The claim's answer is on its way. -/
  | answering
  | claimed
  /-- The server handed the job out. -/
  | fetched
  | executing
  | stopping (since : Time)
  | ended
  deriving DecidableEq

structure Task where
  worker : String
  run : RunId
  claimedAt : Time
  /-- The fence's clock. -/
  renewed : Time := 0
  phase : Phase := .answering

/-- Whether the run's process is there. -/
def Task.alive (task : Task) : Bool :=
  match task.phase with
  | .executing | .stopping _ => true
  | _ => false

/-- Whether the job was handed to it, and its process runs or may still be started. -/
def Task.working (task : Task) : Bool :=
  match task.phase with
  | .fetched | .executing | .stopping _ => true
  | _ => false

/-- Whether `_tasks` has it. -/
def Task.listed (task : Task) : Bool :=
  match task.phase with
  | .answering | .ended => false
  | _ => true

/-- A worker's heartbeat loop: between two beats, or in one that began at `began` with the tasks
there were then; `answers` is what the server has made of it. -/
inductive Heart
  | waiting (since : Time)
  | posting (began : Time) (tasks : List Token) (answers : List (Token × InternalApi.Beat))

structure State where
  now : Time := 0
  runs : Table RunId Run := ∅
  tasks : Table Token Task := ∅
  workers : Table String Heart := ∅

inductive Label
  | tick (seconds : Nat)
  | trigger (run : RunId) (inventory : InventoryId)
  | startWorker (worker : String)
  /-- The server processes a claim; then its answer arrives. -/
  | claim (worker : String) (run : RunId) (token jobToken : Token)
  | answer (token : Token)
  /-- The server processes a job request; `lost` when its answer never arrives. -/
  | job (token jobToken : Token) (lost : Bool)
  | start (token : Token)
  /-- The run's timeout or a shutdown. -/
  | stop (token : Token)
  | exit (token : Token)
  | complete (token : Token) (status : RunStatus)
  | cancel (run : RunId) (user : String)
  -- the heartbeat loop
  | beat (worker : String)
  | deliver (worker : String) (token : Token)
  | answered (worker : String)
  | unanswered (worker : String)
  /-- The server processes a heartbeat whose client has given up. -/
  | late (token : Token)
  | reap (run : RunId)

section

variable {ε : Type} (hashToken : Token → Digest) (fmt : EventFormat ε)

/-- `RunTask.stop`. -/
def stopTask (now : Time) (task : Task) : Task :=
  match task.phase with
  | .claimed | .fetched => { task with phase := .ended }
  | .executing => { task with phase := .stopping now }
  | _ => task

/-- What the heartbeat's answer for the task changes. -/
def hear (now began : Time) (answers : List (Token × InternalApi.Beat)) (token : Token)
    (task : Task) : Task :=
  match (answers.find? fun a => a.1 = token).map Prod.snd with
  | none => task
  | some .gone => stopTask now task
  | some .ok => { task with renewed := began }
  | some .cancel => stopTask now { task with renewed := began }

/-- The end of `beat`: a task that couldn't be renewed for too long is stopped. -/
def fence (now : Time) (task : Task) : Task :=
  if task.renewed + fenceSeconds < now then stopTask now task else task

/-- Whether the clock may go on that far. -/
def patient (s : State) (seconds : Nat) : Bool :=
  (s.workers.all fun _ heart => match heart with
    | .waiting since => s.now + seconds ≤ since + heartbeatSeconds
    | .posting .. => true) &&
  s.tasks.all fun _ task => match task.phase with
    | .stopping since => s.now + seconds ≤ since + stopGraceSeconds
    | _ => true

def putRun (s : State) (id : RunId) (run : Run) : State := { s with runs := s.runs.put id run }

def putTask (s : State) (token : Token) (task : Task) : State :=
  { s with tasks := s.tasks.put token task }

/-- The end of a beat, with the answers that arrived. -/
def endBeat (s : State) (worker : String) (began : Time) (tasks : List Token)
    (answers : List (Token × InternalApi.Beat)) : State :=
  { s with
    workers := s.workers.put worker (.waiting s.now)
    tasks := s.tasks.mapRows fun token task =>
      if task.worker = worker ∧ token ∈ tasks then fence s.now (hear s.now began answers token task)
      else task }

@[grind =] def step (s : State) : Label → Option State
  | .tick seconds => if patient s seconds then some { s with now := s.now + seconds } else none
  | .trigger id inventory =>
    if (s.runs.get? id).isNone then
      some (putRun s id { inventoryId := some inventory, queuedAt := s.now })
    else none
  | .startWorker worker =>
    if (s.workers.get? worker).isNone then
      some { s with workers := s.workers.put worker (.waiting s.now) }
    else none
  | .claim worker id token jobToken => do
    let run ← s.runs.get? id
    let _ ← s.workers.get? worker
    if run.status = .queued && !(s.runs.any fun _ busy =>
        RunQueue.sameInventory busy run && busy.status = .running) &&
        s.tasks.all (fun other _ => hashToken other ≠ hashToken token) then
      let claimant := ⟨worker, hashToken token, hashToken jobToken⟩
      some (putTask (putRun s id (claimedRun runLeaseSeconds s.now claimant none run)) token
        { worker := worker, run := id, claimedAt := s.now })
    else none
  | .answer token => do
    let task ← s.tasks.get? token
    if task.phase = .answering then
      -- `self.renewed = time.monotonic()`
      some (putTask s token { task with phase := .claimed, renewed := s.now })
    else none
  | .job token jobToken lost => do
    let task ← s.tasks.get? token
    let run ← s.runs.get? task.run
    if task.phase = .claimed then
      match InternalApi.job hashToken fmt s.now run token jobToken .built with
      | .answer h =>
        let phase := if lost then task.phase else if h.answer = .payload then .fetched else .ended
        some (putTask (putRun s task.run h.run) token { task with phase := phase })
      | .storeDown _ => none
    else none
  | .start token => do
    let task ← s.tasks.get? token
    if task.phase = .fetched then some (putTask s token { task with phase := .executing }) else none
  | .stop token => do
    let task ← s.tasks.get? token
    some (putTask s token (stopTask s.now task))
  | .exit token => do
    let task ← s.tasks.get? token
    if task.alive then some (putTask s token { task with phase := .ended }) else none
  | .complete token status => do
    let task ← s.tasks.get? token
    let run ← s.runs.get? task.run
    if task.phase = .ended then
      some (putRun s task.run
        (InternalApi.complete hashToken s.now run token ⟨run.logSeq, status, none, none⟩).run)
    else none
  | .cancel id user => do
    let run ← s.runs.get? id
    some (putRun s id (InternalApi.cancelRun fmt s.now run user).run)
  | .beat worker => match s.workers.get? worker with
    | some (.waiting since) =>
      if since + heartbeatSeconds ≤ s.now then
        let tasks := (s.tasks.entries.filter fun e => e.2.worker = worker && e.2.listed).map
          fun e => e.1
        some { s with workers := s.workers.put worker (.posting s.now tasks []) }
      else none
    | _ => none
  | .deliver worker token => match s.workers.get? worker with
    | some (.posting began tasks answers) => do
      let task ← s.tasks.get? token
      let run ← s.runs.get? task.run
      if token ∈ tasks then
        let (run, beat) := InternalApi.heartbeat hashToken s.now runLeaseSeconds run token
        some { putRun s task.run run with
          workers := s.workers.put worker (.posting began tasks ((token, beat) :: answers)) }
      else none
    | _ => none
  | .answered worker => match s.workers.get? worker with
    | some (.posting began tasks answers) =>
      if tasks.all fun token => answers.any fun a => a.1 = token then
        some (endBeat s worker began tasks answers)
      else none
    | _ => none
  | .unanswered worker => match s.workers.get? worker with
    | some (.posting began tasks _) => some (endBeat s worker began tasks [])
    | _ => none
  | .late token => do
    let task ← s.tasks.get? token
    let run ← s.runs.get? task.run
    some (putRun s task.run (InternalApi.heartbeat hashToken s.now runLeaseSeconds run token).1)
  | .reap id => do
    let run ← s.runs.get? id
    if Reaper.applies .lost s.now run then some (putRun s id (Reaper.reap fmt s.now .lost run).1)
    else none

/-- The server and its workers, from an empty queue. -/
def system : Lib.System State Label where
  init s := s = {}
  step := step hashToken fmt

end

end Lease

end AnsiDeck
