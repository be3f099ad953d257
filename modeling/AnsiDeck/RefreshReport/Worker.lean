import AnsiDeck.RefreshReport.System

/-!
# A refresh's worker

`worker.runner._execute_refresh`: the job's calls one after the other, each output uploaded in
chunks (`_upload_part`), then the report of what each call did. What ansible-inventory says is
anything: a failed call's error, or an output that was scrubbed. A request may be lost, or its
answer; either way the worker sends it again. A request is processed while the worker waits for its
answer.

A worker that is told to stop doesn't report, so it needs no step here.
-/

namespace AnsiDeck

namespace RefreshReport

open InventorySources (Outputs SourcesDb)
open InternalApi

/-- `_REFRESH_CHUNK_BYTES`. -/
def refreshChunkBytes : Nat := 2 * 1024 * 1024

/-- A call's output on its way. -/
structure Upload where
  source : SourceId
  body : Bytes
  offset : Nat := 0
  scrubbed : Bool

structure Worker where
  /-- The calls that haven't ended. -/
  todo : List SourceId
  current : Option Upload := none
  results : List RefreshSourceResultIn := []
  /-- Ghost: the outputs it uploaded. -/
  sent : List (SourceId × Bytes) := []

namespace Worker

/-- One result for each call. -/
def finished (w : Worker) : Bool := w.todo.isEmpty && w.current.isNone

def failed (w : Worker) (source : SourceId) (error : String) : Worker :=
  { w with
    current := none
    results := w.results ++ [{ sourceId := source, status := .failed, error := some error }] }

/-- Goes on from an offset the API answered, until all of it is there. -/
def goOn (out : Outputs) (w : Worker) (u : Upload) (offset : Nat) : Worker :=
  if offset < u.body.length then { w with current := some { u with offset := offset } }
  else
    { w with
      current := none
      results := w.results ++ [{
        sourceId := u.source
        status := .success
        bytes := u.body.length
        sha256 := some (out.sha256 u.body)
        scrubbed := u.scrubbed }]
      sent := w.sent ++ [(u.source, u.body)] }

def answered (out : Outputs) (w : Worker) (u : Upload) : OutputAnswer → Worker
  | .taken offset => w.goOn out u offset
  | .behind expected => w.goOn out u expected
  | .gone => w.failed u.source "its output was refused (HTTP 410)"
  | .notNow => w.failed u.source "its output was refused (HTTP 409)"
  | .tooLarge => w.failed u.source "its output was refused (HTTP 413)"

end Worker

/-- The refresh and its worker. -/
structure WithWorker where
  api : State
  worker : Option Worker := none

inductive WorkerLabel
  /-- Anyone else's step. -/
  | api (a : Label)
  | fetch (how : JobOutcome)
  /-- The next call fails, or its output isn't JSON. -/
  | callFailed (error : String)
  /-- Its output, scrubbed: `json.dumps` is never empty. -/
  | callEnded (body : Bytes) (scrubbed : Bool)
  | chunk (lostAnswer : Bool)
  /-- The output could not be uploaded in time. -/
  | giveUp
  | report (combined : Except CombineError SnapshotData) (new : SnapshotId)

section

variable {ε : Type} (out : Outputs) (fmt : EventFormat ε) (id : RefreshId) (claim : Digest)

/-- The chunk at the upload's offset. -/
def Upload.chunk (u : Upload) : Bytes := (u.body.drop u.offset).take refreshChunkBytes

def serve (s : WithWorker) : WorkerLabel → Option WithWorker
  | .api a =>
    if a.ofWorker then none else (step out fmt id claim s.api a).map fun api =>
      { s with api := api }
  | .fetch how =>
    if s.worker.isSome then none
    else do
      let api ← step out fmt id claim s.api (.job how)
      -- the job is the answer unless the refresh ended or waits
      let handedOut := (lockedRefresh api.db id claim).isSome
      some ⟨api, if handedOut then some { todo := api.calls } else none⟩
  | .callFailed error => do
    let w ← s.worker
    match w.todo, w.current with
    | source :: todo, none =>
      some { s with worker := some ({ w with todo := todo }.failed source error) }
    | _, _ => none
  | .callEnded body scrubbed => do
    let w ← s.worker
    match w.todo, w.current with
    | source :: todo, none =>
      if body.isEmpty then none
      else some { s with worker := some { w with
        todo := todo, current := some { source := source, body := body, scrubbed := scrubbed } } }
    | _, _ => none
  | .chunk lostAnswer => do
    let w ← s.worker
    let u ← w.current
    let answer :=
      (appendOutput out s.api.db s.api.staged id claim u.offset (.source u.source) u.chunk).1
    let api ← step out fmt id claim s.api (.output u.offset (.source u.source) u.chunk)
    some ⟨api, some (if lostAnswer then w else w.answered out u answer)⟩
  | .giveUp => do
    let w ← s.worker
    let u ← w.current
    some { s with worker := some (w.failed u.source "its output could not be uploaded in time") }
  | .report combined new => do
    let w ← s.worker
    if w.finished then
      let api ← step out fmt id claim s.api (.report w.results combined new)
      some { s with api := api }
    else none

def withWorker : Lib.System WithWorker WorkerLabel where
  init s := claimed id claim s.api = true ∧ s.worker.isNone = true
  step := serve out fmt id claim

end

end RefreshReport

end AnsiDeck
