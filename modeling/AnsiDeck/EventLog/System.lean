import AnsiDeck.Lib.System
import AnsiDeck.Reaper
import AnsiDeck.Worker.EventSender

/-!
# A run's worker and the API, with messages in flight

The system around one claimed run whose job was handed out: the worker that executes it (its main
thread, its `EventSender`'s thread and its stop reason), the API's handlers on the run's row and
log file, and every request the worker ever sent. A request may reach the API at any time after it
was sent, any number of times or never, and so may its answers; a request counts as lost by never
being delivered, its answer by never being received.

Each delivery is one transaction, whole because the handler holds the row's lock from its first
statement to its commit. It may also fail after the handler wrote to the file (`deliverLost`,
`reapLost`): then the row stays as it was and the file does not.

The worker's stop reasons are not tied to what the API answers to heartbeats: it may be stopped
for any reason at any time, which allows more than its heartbeat thread does.

`produced`, `acked` and `ended` are ghosts: the events the worker numbered, how far its sender
took them for acknowledged, and what ended the run.
-/

namespace AnsiDeck

namespace EventLog

open InternalApi (EventsIn CompleteIn)
open Worker (EventSender StopReason)

/-- Where the sender's thread is. -/
inductive Thread
  /-- At the top of its loop. -/
  | idle
  /-- Posted a request, by its position in `State.sent`. -/
  | waiting (request : Nat)
  | finished
  deriving DecidableEq

/-- Where the worker's `_execute` is, from the job's arrival on. -/
inductive Stage
  /-- Restricting the slot's network and fetching the repository: no events yet. -/
  | preparing
  /-- Its process runs and emits events. -/
  | running
  /-- In `sender.close()`; `heed` unless the run never began, where the result is not looked at. -/
  | closing (heed : Bool)
  /-- Posting the outcome, as often as it takes. -/
  | reporting
  | done
  deriving DecidableEq

inductive Request (ε : Type)
  | events (body : EventsIn ε)
  | complete (body : CompleteIn)

/-- What ended the run. -/
inductive Ending
  /-- `/complete`: its worker's report. -/
  | reported
  /-- AnsiDeck itself, with this reason. -/
  | byAnsiDeck (reason : String)

structure State (ε : Type) where
  now : Time
  run : Run
  file : Bytes
  sender : EventSender ε := {}
  thread : Thread := .idle
  stopReason : Option StopReason := none
  stage : Stage := .preparing
  sent : List (Request ε) := []
  /-- The API's answers, each with its request. -/
  answers : List (Nat × Answer) := []
  produced : List ε := []
  acked : Nat := 0
  ended : Option Ending := none

inductive Label (ε : Type)
  | tick (seconds : Nat)
  -- the worker
  | prepared
  | notRun
  | event (e : ε)
  | processEnded
  | joined
  | poll
  | transportError
  | receive (answer : Answer)
  /-- An answer that is not the API's own: another HTTP status. -/
  | otherStatus (code : Nat)
  | stop (reason : StopReason)
  | report (status : RunStatus) (returnCode : Option Int) (reason : Option String)
  | reportOver
  -- the API
  | deliver (request : Nat)
  | deliverLost (request : Nat)
  | heartbeat
  | egress (report : String)
  | cancel (user : String)
  | reap (rule : Reaper.Rule)
  | reapLost (rule : Reaper.Rule)

section

variable {ε : Type} (hashToken : Token → Digest) (fmt : EventFormat ε) (claimToken : Token)
  (lease : Nat)

/-- The handler of a request, on the locked row. -/
def handle (s : State ε) : Request ε → Handled
  | .events body => InternalApi.events hashToken fmt s.run claimToken body
  | .complete body => InternalApi.complete hashToken s.now s.run claimToken body

/-- What a request that is answered with `answer` ended. -/
def endingOf : Request ε → Answer → Option Ending
  | .complete _, .done => some .reported
  | _, _ => none

/-- The write took place. -/
def written (file : Bytes) : Option LogWrite → Bytes
  | some w => w.apply file
  | none => file

/-- The thread takes an answer to the batch it posted. -/
def react (s : State ε) (body : EventsIn ε) (answer : Answer) : State ε :=
  let r := s.sender.onAnswer body answer
  { s with
    sender := r.sender
    thread := if r.finished then .finished else .idle
    stopReason := match r.stop with
      | some reason => Worker.stop s.stopReason reason
      | none => s.stopReason
    acked := max s.acked (r.acked.getD 0) }

/-- The batch the thread waits for. -/
def posted (s : State ε) : Option (Nat × EventsIn ε) :=
  match s.thread with
  | .waiting request => match s.sent[request]? with
    | some (.events body) => some (request, body)
    | _ => none
  | _ => none

@[grind =] def step (s : State ε) : Label ε → Option (State ε)
  | .tick seconds => some { s with now := s.now + seconds }
  | .prepared => if s.stage = .preparing then some { s with stage := .running } else none
  | .notRun =>
    if s.stage = .preparing then some { s with stage := .closing false, sender := s.sender.close }
    else none
  | .event e =>
    if s.stage = .running then
      some { s with sender := s.sender.add fmt e, produced := s.produced ++ [e] }
    else none
  | .processEnded =>
    if s.stage = .running then some { s with stage := .closing true, sender := s.sender.close }
    else none
  | .joined => match s.stage with
    | .closing heed =>
      let (sender, flushed) := s.sender.joined
      let stage := if heed && (s.stopReason = some .gone || !flushed) then .done else .reporting
      some { s with sender := sender, stage := stage }
    | _ => none
  | .poll =>
    if s.thread = .idle then
      match s.sender.poll s.stopReason with
      | .wait => none
      | .finish => some { s with thread := .finished }
      | .post body =>
        some { s with thread := .waiting s.sent.length, sent := s.sent ++ [.events body] }
    else none
  | .transportError => match posted s with
    | some _ => some { s with thread := .idle }
    | none => none
  | .receive answer => match posted s with
    | some (request, body) =>
      if (request, answer) ∈ s.answers then some (react s body answer) else none
    | none => none
  | .otherStatus code => match posted s with
    | some (_, body) => some (react s body (.refused code))
    | none => none
  | .stop reason => some { s with stopReason := Worker.stop s.stopReason reason }
  | .report status returnCode reason =>
    if s.stage = .reporting then
      some { s with sent := s.sent ++
        [.complete { lastSeq := s.sender.lastSeq, status, returnCode, reason }] }
    else none
  | .reportOver => if s.stage = .reporting then some { s with stage := .done } else none
  | .deliver request => match s.sent[request]? with
    | some r =>
      let h := handle hashToken fmt claimToken s r
      some { s with
        run := h.run
        file := written s.file h.write
        answers := (request, h.answer) :: s.answers
        ended := s.ended <|> endingOf r h.answer }
    | none => none
  | .deliverLost request => match s.sent[request]? with
    | some r => some { s with file := written s.file (handle hashToken fmt claimToken s r).write }
    | none => none
  | .heartbeat =>
    some { s with run := (InternalApi.heartbeat hashToken s.now lease s.run claimToken).1 }
  | .egress report =>
    some { s with run := (InternalApi.egressReport hashToken s.run claimToken report).run }
  | .cancel user =>
    let h := InternalApi.cancelRun fmt s.now s.run user
    some { s with run := h.run, file := written s.file h.write }
  | .reap rule =>
    if Reaper.applies rule s.now s.run then
      let (run, write) := Reaper.reap fmt s.now rule s.run
      some { s with
        run := run
        file := write.apply s.file
        ended := s.ended <|> some (.byAnsiDeck (Reaper.verdict fmt rule s.run).2) }
    else none
  | .reapLost rule =>
    if Reaper.applies rule s.now s.run then
      some { s with file := (Reaper.reap fmt s.now rule s.run).2.apply s.file }
    else none

/-- The job was just handed out: nothing is in the log, whatever an earlier write that never
committed may have left in its file. -/
structure Init (s : State ε) : Prop where
  running : s.run.status = .running
  owned : s.run.claimTokenHash = some (hashToken claimToken)
  logSeq : s.run.logSeq = 0
  logBytes : s.run.logBytes = 0
  fresh : s = { now := s.now, run := s.run, file := s.file }

/-- The worker, the API and everything between them. -/
def system : Lib.System (State ε) (Label ε) where
  init := Init hashToken claimToken
  step := step hashToken fmt claimToken lease

end

end EventLog

end AnsiDeck
