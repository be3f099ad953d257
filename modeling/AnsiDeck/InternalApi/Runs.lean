import AnsiDeck.Queue

/-!
# The internal API's handlers of a run

`app.internal_api`, `/internal/runs/..`: what each handler does between the locking `SELECT` of
the run's row and its commit, as a function of the locked row. A handler answers, and may change
the row and write to the run's log file (`Handled`); when the row changes and when its lock is
held is the business of the systems built on top.

`job` is the one handler with two transactions: when the secret store is down it rolls the first
one back and goes on in `storeDown` under a lock taken anew.
-/

namespace AnsiDeck

/-- A handler's answer, by its HTTP status. -/
inductive Answer
  /-- 410: "This claim is no longer valid". -/
  | gone
  /-- 409: the sequence number to resend from. -/
  | behind (expectedSeq : Nat)
  /-- 200 of `/events`. -/
  | acked (ackedSeq : Nat) (cancel : Bool)
  /-- 200 with nothing to say. -/
  | done
  /-- 200 of `/job`: the job with its secrets. -/
  | payload
  /-- Any other status. -/
  | refused (code : Nat)
  deriving DecidableEq, Repr

/-- A handler's outcome: the row to commit, the write it did to the log file, its answer. -/
structure Handled where
  run : Run
  write : Option LogWrite := none
  answer : Answer

namespace InternalApi

variable {ε : Type} (hashToken : Token → Digest) (fmt : EventFormat ε) (now : Time)

/-- `_locked_run`: whether this claim still owns the locked run. -/
def owns (run : Run) (claimToken : Token) : Bool :=
  run.status = .running && run.claimTokenHash = some (hashToken claimToken)

/-- An answer that changes nothing. -/
def unchanged (run : Run) (answer : Answer) : Handled := ⟨run, none, answer⟩

/-- `fail_run` in a handler that then answers 410. -/
def failed (run : Run) (status : RunStatus) (reason : String) : Handled :=
  let (run, write) := failRun fmt now run status reason
  ⟨run, some write, .gone⟩

/-! ## Events and completion -/

structure EventsIn (ε : Type) where
  firstSeq : Nat
  events : List ε

/-- The body's own checks: `first_seq` from 1, at most 10,000 events. -/
def EventsIn.valid (body : EventsIn ε) : Bool := 1 ≤ body.firstSeq && body.events.length ≤ 10000

/-- Appends a batch of events. Events up to `logSeq` are skipped, and a gap is refused with the
seq to resend from. -/
def events (run : Run) (claimToken : Token) (body : EventsIn ε) : Handled :=
  if !body.valid then unchanged run (.refused 422)
  else if !owns hashToken run claimToken then unchanged run .gone
  else
    let expected := run.logSeq + 1
    if expected < body.firstSeq then unchanged run (.behind expected)
    else
      let fresh := body.events.drop (expected - body.firstSeq)
      let cancel := run.cancelRequestedAt.isSome
      if fresh.isEmpty then unchanged run (.acked run.logSeq cancel)
      else
        let (run, write) := RunLog.appendEvents fmt run fresh
        let acked := body.firstSeq + body.events.length - 1
        ⟨{ run with logSeq := acked }, some write, .acked acked cancel⟩

structure CompleteIn where
  lastSeq : Nat
  status : RunStatus
  returnCode : Option Int := none
  reason : Option String := none

/-- The body's own checks: only a status that ends the run. -/
def CompleteIn.valid (body : CompleteIn) : Bool := body.status.finished

/-- Records the outcome, but only once every event is in the log. -/
def complete (run : Run) (claimToken : Token) (body : CompleteIn) : Handled :=
  if !body.valid then unchanged run (.refused 422)
  else if !owns hashToken run claimToken then unchanged run .gone
  else if body.lastSeq ≠ run.logSeq then unchanged run (.behind (run.logSeq + 1))
  else
    let reason := match run.cancelRequestedBy with
      | some user => if body.status = .cancelled ∧ user ≠ "" then some s!"cancelled by {user}"
          else body.reason
      | none => body.reason
    ⟨{ run with
        status := body.status
        statusReason := reason
        returnCode := body.returnCode
        finishedAt := some now
        leaseExpiresAt := none
        claimTokenHash := none }, none, .done⟩

/-! ## Heartbeats, the allowlist report and cancelling -/

/-- What a heartbeat tells the worker about one of its runs. -/
inductive Beat
  | ok
  | cancel
  | gone
  deriving DecidableEq, Repr

/-- Renews the lease of a run the worker still owns, for `lease` seconds. -/
def heartbeat (lease : Nat) (run : Run) (claimToken : Token) : Run × Beat :=
  if owns hashToken run claimToken then
    ({ run with heartbeatAt := some now, leaseExpiresAt := some (now + lease) },
      if run.cancelRequestedAt.isSome then .cancel else .ok)
  else (run, .gone)

/-- `egress_report`: what a restricted run may reach, as the worker resolved it. -/
def egressReport (run : Run) (claimToken : Token) (report : String) : Handled :=
  if !owns hashToken run claimToken then unchanged run .gone
  else ⟨{ run with egressAllowlist := some report }, none, .done⟩

/-- `routers.runs.cancel_run`, under the row lock. -/
def cancelRun (run : Run) (user : String) : Handled :=
  if run.status.finished then unchanged run (.refused 409)
  else if run.cancelRequestedAt.isSome then unchanged run .done
  else
    let asked := { run with cancelRequestedAt := some now, cancelRequestedBy := some user }
    if run.status = .queued then
      let (run, write) := failRun fmt now asked .cancelled s!"cancelled by {user} before it started"
      ⟨run, some write, .done⟩
    else ⟨asked, none, .done⟩

/-! ## Handing the job out -/

/-- What `build_job` comes to. Besides the columns it sets on the run, which none of this reads,
it only decides which way the handler goes on. -/
inductive Build
  | built
  /-- The store could not be read, for a kind of failure in `OUTAGE_KINDS`. -/
  | outage (reason : String)
  /-- It could not be read for another reason, or the job can't be built. -/
  | error (reason : String)
  deriving DecidableEq

/-- How `job`'s first transaction ends. -/
inductive JobStep
  /-- It commits. -/
  | answer (h : Handled)
  /-- It rolls back and goes on in `_store_down`. -/
  | storeDown (reason : String)

/-- Hands the job out: this claim, its one-time token unused and not expired. -/
def job (run : Run) (claimToken jobToken : Token) (build : Build) : JobStep :=
  if !(owns hashToken run claimToken && run.jobTokenHash = some (hashToken jobToken) &&
      now < run.jobTokenExpiresAt.getD 0) then
    .answer (unchanged run .gone)
  else
    let taken := { run with jobTokenHash := none, jobTokenExpiresAt := none }
    if run.cancelRequestedAt.isSome then
      .answer (failed fmt now taken .cancelled "cancelled before it started")
    else
      match build with
      | .built => .answer ⟨{ taken with startedAt := some now }, none, .payload⟩
      | .outage reason => .storeDown reason
      | .error reason => .answer (failed fmt now taken .failed reason)

/-- `_store_down`'s second transaction, on the row as it is locked again: `waitOver` is what
`_wait_over` says about the run's wait. -/
def storeDown (run : Run) (claimToken : Token) (reason : String) (waitOver : Option String) :
    Handled :=
  if !owns hashToken run claimToken then unchanged run .gone
  else if run.cancelRequestedAt.isSome then
    failed fmt now run .cancelled "cancelled before it started"
  else match waitOver with
    | some why => failed fmt now run .failed (reason ++ why)
    | none => ⟨requeueRun run, none, .gone⟩

end InternalApi

end AnsiDeck
