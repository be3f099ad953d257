import AnsiDeck.Queue

/-!
# The reaper's rules for runs

`app.reaper.reap_once`: the four queries over `runs`, each of which locks the rows it finds and
ends them. A comparison with a null column is never true.
-/

namespace AnsiDeck

namespace Reaper

def timeoutGraceSeconds : Nat := 120

def cancelGraceSeconds : Nat := 90

/-- `run_executor.format_duration`. -/
def formatDuration (seconds : Nat) : String :=
  if seconds < 120 then s!"{seconds} s"
  else
    let hours := seconds / 60 / 60
    let minutes := seconds / 60 % 60
    if hours = 0 then s!"{minutes} min"
    else if minutes = 0 then s!"{hours} h" else s!"{hours} h {minutes} min"

/-- The passes over `runs`, in order. -/
inductive Rule
  | lost
  | overran
  | cancelUnconfirmed
  | unrunnable
  deriving DecidableEq, Repr

/-- The pass's `WHERE`. -/
def applies (rule : Rule) (now : Time) (run : Run) : Bool :=
  match rule with
  | .lost => run.status = .running && run.leaseExpiresAt.any (· < now)
  | .overran => run.status = .running &&
      (run.startedAt <|> run.claimedAt).any fun began =>
        began + (run.timeoutSeconds + timeoutGraceSeconds) < now
  | .cancelUnconfirmed => run.status = .running &&
      run.cancelRequestedAt.any (· + cancelGraceSeconds < now)
  | .unrunnable => run.status = .queued && (unrunnableReason run).isSome

variable {ε : Type} (fmt : EventFormat ε)

/-- `_at`. -/
def at_ (value : Option Time) : String :=
  match value with
  | some t => fmt.stamp t ++ " UTC"
  | none => "never"

/-- How the pass ends a run it found. -/
def verdict (rule : Rule) (run : Run) : RunStatus × String :=
  let worker := shown run.workerId
  let since := at_ fmt run.heartbeatAt
  let limit := formatDuration run.timeoutSeconds
  let user := shown run.cancelRequestedBy
  let reason := shown (unrunnableReason run)
  match rule with
  | .lost => (.failed, s!"worker lost: no heartbeat from {worker} since {since}")
  | .overran => (.timedOut, s!"timed out after {limit} (its worker did not stop it)")
  | .cancelUnconfirmed => (.cancelled, s!"cancelled by {user} (its worker did not confirm)")
  | .unrunnable => (.failed, s!"not run: {reason}")

/-- Ends the run by the rule. -/
def reap (now : Time) (rule : Rule) (run : Run) : Run × LogWrite :=
  failRun fmt now run (verdict fmt rule run).1 (verdict fmt rule run).2

/-- The passes over `inventory_refreshes` (`reap_refreshes`). -/
inductive RefreshRule
  | lost
  | overran
  deriving DecidableEq, Repr

def refreshApplies (rule : RefreshRule) (now : Time) (refresh : InventoryRefresh) : Bool :=
  refresh.status = .running && match rule with
  | .lost => refresh.leaseExpiresAt.any (· < now)
  | .overran => (refresh.startedAt <|> refresh.claimedAt).any fun began =>
      began + (refresh.timeoutSeconds + timeoutGraceSeconds) < now

def refreshVerdict (rule : RefreshRule) (refresh : InventoryRefresh) : RunStatus × String :=
  let worker := shown refresh.workerId
  let since := at_ fmt refresh.heartbeatAt
  let took := formatDuration refresh.timeoutSeconds
  match rule with
  | .lost => (.failed, s!"worker lost: no heartbeat from {worker} since {since}")
  | .overran => (.timedOut, s!"timed out after {took} (its worker did not stop it)")

theorem verdict_finished (rule : Rule) (run : Run) :
    (verdict fmt rule run).1.finished = true := by cases rule <;> rfl

/-- The reaper never looks at a run that has ended. -/
theorem active_of_applies {rule : Rule} {now : Time} {run : Run}
    (h : applies rule now run = true) : run.status = .queued ∨ run.status = .running := by
  cases rule <;> simp only [applies, Bool.and_eq_true, decide_eq_true_eq] at h
  case unrunnable => exact .inl h.1
  all_goals exact .inr h.1

end Reaper

end AnsiDeck
