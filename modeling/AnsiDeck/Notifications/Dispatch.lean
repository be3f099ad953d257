import Mathlib.Data.List.Sort
import AnsiDeck.Lib.System
import AnsiDeck.Lib.Table
import AnsiDeck.Models

/-!
# Sending the outbox

`app.notifications.dispatch`, one process: it claims a batch of due deliveries under a short lease
(`claim`) and takes them one by one. A delivery's first transaction counts the attempt (`begin`);
then it is sent, and a second transaction records the outcome (`record`). Any of these may raise,
which leaves that delivery to its lease, and the process may die anywhere (`crash`); it goes on
with an empty batch. Channels and deliveries come and go meanwhile.

`now()` is the time a transaction began, and a Retry-After is whole seconds. One that is no number
makes the second transaction raise.

Ghosts: the attempts `counted` and `sent`, as a delivery and a number, and the ids `issued`.
-/

namespace AnsiDeck

namespace Notifications

open Lib (Table Dict Json)

def backoffSeconds : List Nat := [30, 120, 600, 1800, 3600]

def maxAttempts : Nat := backoffSeconds.length + 1

def leaseSeconds : Nat := 60

def batchSize : Nat := 20

def perMinute : Nat := 20

def minGapSeconds : Nat := 1

def maxRetryAfterSeconds : Nat := 3600

def retentionDays : Nat := 30

/-- `status in ("sent", "failed")`. -/
def finished : DeliveryStatus → Bool
  | .sent | .failed => true
  | .pending | .sending => false

/-! ## Claiming -/

def due (now : Time) (d : NotificationDelivery) : Bool :=
  !finished d.status && d.nextAttemptAt ≤ now

/-- `ORDER BY next_attempt_at, id`. -/
def sooner (a b : DeliveryId × NotificationDelivery) : Prop :=
  a.2.nextAttemptAt < b.2.nextAttemptAt ∨ (a.2.nextAttemptAt = b.2.nextAttemptAt ∧ a.1 ≤ b.1)

instance : DecidableRel sooner := fun a b =>
  inferInstanceAs (Decidable (a.2.nextAttemptAt < b.2.nextAttemptAt ∨
    (a.2.nextAttemptAt = b.2.nextAttemptAt ∧ a.1 ≤ b.1)))

/-- The deliveries a claim selects. -/
def selected (deliveries : Table DeliveryId NotificationDelivery) (now : Time) :
    List (DeliveryId × NotificationDelivery) :=
  ((deliveries.rows fun _ d => due now d).insertionSort sooner).take batchSize

/-- What a claim makes of a delivery it selected. -/
def claimRow (now : Time) (d : NotificationDelivery) : NotificationDelivery :=
  if maxAttempts ≤ d.attempts then
    { d with
      status := .failed
      lastError := match d.lastError with
        | some e => if e = "" then some "gave up: the last attempt never finished" else some e
        | none => some "gave up: the last attempt never finished" }
  else { d with status := .sending, nextAttemptAt := now + leaseSeconds }

/-- `claim`: the table as it commits, and the ids to deliver. -/
def claim (deliveries : Table DeliveryId NotificationDelivery) (now : Time) :
    Table DeliveryId NotificationDelivery × List DeliveryId :=
  let rows := selected deliveries now
  (deliveries.mapRows fun id d => if (rows.map Prod.fst).contains id then claimRow now d else d,
    (rows.filter fun row => row.2.attempts < maxAttempts).map Prod.fst)

/-! ## One delivery -/

/-- What a send came to. -/
structure Outcome where
  ok : Bool
  statusCode : Option Int := none
  error : Option String := none
  retryAfter : Option Nat := none
  permanent : Bool := false

/-- `_wait_for_pacing`: how long the channel must wait before its next send. -/
def waitForPacing (deliveries : Table DeliveryId NotificationDelivery) (now : Time)
    (channel : ChannelId) : Option Nat :=
  let sentWithin (seconds : Nat) := deliveries.count fun _ d =>
    d.channelId = channel && d.sentAt.any fun sent => now < sent + seconds
  if perMinute ≤ sentWithin 60 then some 60
  else if sentWithin minGapSeconds ≠ 0 then some minGapSeconds
  else none

/-- `BACKOFF_SECONDS[attempts - 1]`: index -1 is the last one, and `none` an `IndexError`. -/
def backoff (attempts : Nat) : Option Nat :=
  if attempts = 0 then backoffSeconds.getLast? else backoffSeconds[attempts - 1]?

/-- What the server asked for, in bounds, instead of a wait. -/
def waitAsked (wait : Nat) : Option Nat → Nat
  | some seconds => min (max seconds 1) maxRetryAfterSeconds
  | none => wait

/-- How long to wait before the next attempt. -/
def retryWait (attempts : Nat) (outcome : Outcome) : Option Nat := do
  let wait ← backoff attempts
  some (waitAsked wait outcome.retryAfter)

/-- `error[:300] if error else None`. -/
def shortError (error : Option String) : Option String :=
  (error.filter (· ≠ "")).map (clip 300)

/-- `_record`; `none` when it raises. -/
def record (now : Time) (d : NotificationDelivery) (outcome : Outcome) :
    Option NotificationDelivery :=
  let d := { d with lastStatusCode := outcome.statusCode, lastError := shortError outcome.error }
  if outcome.ok then some { d with status := .sent, sentAt := some now }
  else if outcome.permanent || maxAttempts ≤ d.attempts then some { d with status := .failed }
  else (retryWait d.attempts outcome).map fun wait =>
    { d with status := .pending, nextAttemptAt := now + wait }

/-- How the first transaction of `deliver` ends. -/
inductive Begun
  /-- The delivery is gone, or not its to send. -/
  | skipped
  /-- It commits this row, and that is all. -/
  | settled (d : NotificationDelivery)
  /-- It commits this row, and sends. -/
  | counted (d : NotificationDelivery)

/-- The delivery with its next attempt counted. A failed run's tasks are read from its log once. -/
def attempted (failedTasks : Option Json → Json) (d : NotificationDelivery) :
    NotificationDelivery :=
  { d with
    attempts := d.attempts + 1
    payload := if d.event = "run.failed" ∧ d.payload.contains "failed_tasks" = false then
        d.payload.set "failed_tasks" (failedTasks (d.payload.get? "run_id"))
      else d.payload }

/-- `deliver`, up to its first commit. -/
def begin_ (failedTasks : Option Json → Json) (channels : Table ChannelId NotificationChannel)
    (deliveries : Table DeliveryId NotificationDelivery) (now : Time) (id : DeliveryId) : Begun :=
  match deliveries.get? id with
  | none => .skipped
  | some d =>
    if d.status ≠ .sending then .skipped
    else if !(channels.get? d.channelId).any (·.enabled) then
      .settled { d with
        status := .failed
        lastError := some "the channel was turned off before it could be sent" }
    else match waitForPacing deliveries now d.channelId with
      | some wait => .settled { d with status := .pending, nextAttemptAt := now + wait }
      | none => .counted (attempted failedTasks d)

/-! ## The process and the database -/

/-- Where the process is with a delivery, and the number of the attempt. -/
inductive Phase
  | idle
  /-- The attempt is counted. -/
  | counted (id : DeliveryId) (attempt : Nat)
  /-- It is being sent, or its outcome is known. -/
  | sending (id : DeliveryId) (attempt : Nat)
  deriving DecidableEq

structure State where
  now : Time := 0
  channels : Table ChannelId NotificationChannel := ∅
  deliveries : Table DeliveryId NotificationDelivery := ∅
  /-- The claimed deliveries it has not taken up. -/
  batch : List DeliveryId := []
  phase : Phase := .idle
  counted : List (DeliveryId × Nat) := []
  sent : List (DeliveryId × Nat) := []
  issued : List DeliveryId := []

inductive Label
  | tick (seconds : Nat)
  -- what others do
  | setChannel (id : ChannelId) (channel : NotificationChannel)
  | deleteChannel (id : ChannelId)
  | emit (started : Time) (id : DeliveryId) (channel : ChannelId) (event : String)
      (payload : Dict String Json)
  /-- A test message, which its request sends: its delivery is final from the start. -/
  | test (started : Time) (id : DeliveryId) (channel : ChannelId) (payload : Dict String Json)
      (outcome : Outcome)
  | prune (started : Time)
  -- the dispatcher
  | claim (started : Time)
  | begin_ (started : Time)
  | send
  | record (started : Time) (outcome : Outcome)
  /-- Something raised: the delivery is left to its lease. -/
  | raise
  | crash

section

variable (failedTasks : Option Json → Json)

/-- What `emit` inserts. -/
def queued (now : Time) (channel : ChannelId) (event : String) (payload : Dict String Json) :
    NotificationDelivery where
  channelId := channel
  event := event
  payload := payload
  nextAttemptAt := now
  createdAt := now

/-- What `_test` inserts. -/
def tested (now : Time) (channel : ChannelId) (payload : Dict String Json) (outcome : Outcome) :
    NotificationDelivery where
  channelId := channel
  event := "test"
  payload := payload
  status := if outcome.ok then .sent else .failed
  attempts := 1
  nextAttemptAt := now
  lastStatusCode := outcome.statusCode
  lastError := shortError outcome.error
  createdAt := now
  sentAt := if outcome.ok then some now else none

/-- What `prune` deletes. -/
def prunable (now : Time) (d : NotificationDelivery) : Bool :=
  finished d.status && d.createdAt + retentionDays * 86400 < now

def insert (s : State) (id : DeliveryId) (d : NotificationDelivery) : State :=
  { s with deliveries := s.deliveries.put id d, issued := id :: s.issued }

/-- `deliver` returns or raises: the next one of the batch is up. -/
def next (s : State) : State := { s with phase := .idle }

def step (s : State) : Label → Option State
  | .tick seconds => some { s with now := s.now + seconds }
  | .setChannel id channel => some { s with channels := s.channels.put id channel }
  | .deleteChannel id => some { s with
      channels := s.channels.remove id
      deliveries := s.deliveries.deleteWhere fun _ d => d.channelId = id }
  | .emit started id channel event payload =>
    if id ∉ s.issued ∧ started ≤ s.now then
      some (insert s id (queued started channel event payload))
    else none
  | .test started id channel payload outcome =>
    if id ∉ s.issued ∧ started ≤ s.now then
      some (insert s id (tested started channel payload outcome))
    else none
  | .prune started =>
    if started ≤ s.now then
      some { s with deliveries := s.deliveries.deleteWhere fun _ => prunable started }
    else none
  | .claim started =>
    if s.phase = .idle ∧ s.batch = [] ∧ started ≤ s.now then
      some { s with
        deliveries := (claim s.deliveries started).1
        batch := (claim s.deliveries started).2 }
    else none
  | .begin_ started => match s.phase, s.batch with
    | .idle, id :: rest =>
      if started ≤ s.now then
        match begin_ failedTasks s.channels s.deliveries started id with
        | .skipped => some { s with batch := rest }
        | .settled d => some { s with batch := rest, deliveries := s.deliveries.put id d }
        | .counted d => some { s with
            batch := rest
            deliveries := s.deliveries.put id d
            phase := .counted id d.attempts
            counted := (id, d.attempts) :: s.counted }
      else none
    | _, _ => none
  | .send => match s.phase with
    | .counted id attempt => some { s with
        phase := .sending id attempt
        sent := (id, attempt) :: s.sent }
    | _ => none
  | .record started outcome => match s.phase with
    | .sending id _ => do
      let d ← s.deliveries.get? id
      let d ← record started d outcome
      if started ≤ s.now then some { next s with deliveries := s.deliveries.put id d } else none
    | _ => none
  | .raise => match s.phase, s.batch with
    | .idle, [] => none
    | .idle, _ :: rest => some { s with batch := rest }
    | _, _ => some (next s)
  | .crash => some { s with batch := [], phase := .idle }

/-- An empty outbox and a process that has just started. -/
def system : Lib.System State Label where
  init s := s = {}
  step := step failedTasks

end

end Notifications

end AnsiDeck
