import AnsiDeck.InternalApi.Runs

/-!
# The worker's event sender

`app.worker.runner.EventSender`: numbers a run's events 1, 2, 3... and sends them in batches from
a thread of its own; unacknowledged events are kept and resent. The queue of pending events is
guarded by one condition, so each method is one step. The thread's loop is cut at its request:
`poll` is what it does up to posting a batch, `onAnswer` what it does with the answer. A transport
error sends it back to the top of the loop with nothing changed.
-/

namespace AnsiDeck

namespace Worker

open InternalApi (EventsIn)

/-- `ExecutionHandle.stop_reason`, and what becomes of it. -/
inductive StopReason
  | cancelled
  | timedOut
  | leaseLost
  | shutdown
  /-- The API ended our claim: stop quietly, report nothing. -/
  | gone
  deriving DecidableEq, Repr

/-- `ExecutionHandle.stop`: the first reason wins. -/
def stop (reason : Option StopReason) (r : StopReason) : Option StopReason := reason <|> some r

def maxBatchBytes : Nat := 1024 * 1024

structure EventSender (ε : Type) where
  /-- Unacknowledged events: sequence number, event, size. -/
  pending : List (Nat × ε × Nat) := []
  nextSeq : Nat := 1
  closed : Bool := false
  abandoned : Bool := false

namespace EventSender

variable {ε : Type} (fmt : EventFormat ε)

def lastSeq (s : EventSender ε) : Nat := s.nextSeq - 1

def add (s : EventSender ε) (event : ε) : EventSender ε :=
  { s with pending := s.pending ++ [(s.nextSeq, event, fmt.size event)], nextSeq := s.nextSeq + 1 }

/-- The events after the first that still fit the batch. -/
def fitting : Nat → List (Nat × ε × Nat) → List ε
  | _, [] => []
  | size, (_, event, eventSize) :: rest =>
    if maxBatchBytes < size + eventSize then [] else event :: fitting (size + eventSize) rest

/-- `_batch`'s events: the first one always, then as many as fit. -/
def batch : List (Nat × ε × Nat) → Option (EventsIn ε)
  | [] => none
  | (seq, event, size) :: rest => some ⟨seq, event :: fitting size rest⟩

def dropThrough (s : EventSender ε) (seq : Nat) : EventSender ε :=
  { s with pending := s.pending.dropWhile fun p => p.1 ≤ seq }

def clear (s : EventSender ε) : EventSender ε := { s with pending := [] }

/-- What the thread does at the top of its loop. -/
inductive Poll (ε : Type)
  /-- It waits for an event. -/
  | wait
  | finish
  | post (body : EventsIn ε)

def poll (s : EventSender ε) (stopReason : Option StopReason) : Poll ε :=
  if s.pending.isEmpty && !s.closed then .wait
  else if s.abandoned || stopReason = some .gone then .finish
  else match batch s.pending with
    | none => .finish
    | some body => .post body

/-- What an answer makes of the sender: `acked` is how far it takes the events for acknowledged,
`finished` whether the thread ends. -/
structure Reaction (ε : Type) where
  sender : EventSender ε
  stop : Option StopReason := none
  finished : Bool := false
  acked : Option Nat := none

def onAnswer (s : EventSender ε) (sent : EventsIn ε) : Answer → Reaction ε
  | .acked seq cancel =>
    { sender := s.dropThrough seq, acked := some seq, stop := if cancel
      then some .cancelled else none }
  | .behind expected =>
    -- the API lost events it had acknowledged: giving up
    if expected ≤ sent.firstSeq then { sender := s.clear, finished := true }
    else { sender := s.dropThrough (expected - 1), acked := some (expected - 1) }
  | .gone => { sender := s.clear, stop := some .gone, finished := true }
  | _ => { sender := s.dropThrough (sent.firstSeq + sent.events.length - 1) }

/-- `close`, up to joining the thread. -/
def close (s : EventSender ε) : EventSender ε := { s with closed := true }

/-- The rest of `close`, once the thread ended or the wait for it was over: whether every event
was acknowledged. -/
def joined (s : EventSender ε) : EventSender ε × Bool :=
  ({ s with abandoned := true }, s.pending.isEmpty)

end EventSender

end Worker

end AnsiDeck
