import AnsiDeck.Lib.System
import AnsiDeck.InternalApi.Runs

/-!
# A run's log: the calls that append to it and a viewer that follows it

The writing side is whatever appends to one run's log or ends the run, each call under the row's
lock: an append cuts the file back to the committed length, writes its bytes in pieces of any size
and commits, and may stop anywhere on the way, when the row stays as it was and the file does not.

The reading side is `routers.runs._stream_log` with its `_LogTail`, which takes no lock: it reads
the file in pieces of any size at any time, splits them into lines and sends those. Messages
arrive in order; a connection may break at any time and lose what was under way, and the viewer
then asks again with the number of lines it received. A log that does not exist yet is read as an
empty one.
-/

namespace AnsiDeck

/-- A format whose lines are the texts a viewer gets. Python writes one JSON object in ASCII, so
its text is neither empty nor begins or ends in white space, and a line break in it is escaped. -/
structure LogFormat (ε : Type) extends EventFormat ε where
  text : ε → Bytes
  line_eq : ∀ e, line e = text e ++ [10]
  text_one_line : ∀ e, 10 ∉ text e
  text_ne_nil : ∀ e, text e ≠ []
  text_head : ∀ e, ∀ b ∈ (text e).head?, 32 < b
  text_last : ∀ e, ∀ b ∈ (text e).getLast?, 32 < b

/-- A format of two events. -/
def flagFormat : LogFormat Bool where
  line e := (if e then [123, 97, 125] else [123, 125]) ++ [10]
  size _ := 1
  statusEvent _ _ := false
  stamp _ := ""
  repr text := text
  text e := if e then [123, 97, 125] else [123, 125]
  line_eq _ := rfl
  text_one_line e := by cases e <;> decide
  text_ne_nil e := by cases e <;> decide
  text_head e := by cases e <;> simp
  text_last e := by cases e <;> simp

namespace LiveLog

open InternalApi (EventsIn CompleteIn)

/-- What appends to the run's log, or ends the run. -/
inductive Call (ε : Type)
  | events (claimToken : Token) (body : EventsIn ε)
  | complete (claimToken : Token) (now : Time) (body : CompleteIn)
  /-- `fail_run`, by a caller that found the run queued or running. -/
  | fail (now : Time) (status : RunStatus) (reason : String)

/-- An append under way: what its transaction commits, and how far its write has come. `fresh` is
a ghost, the events it is about. -/
structure Append (ε : Type) where
  after : Run
  write : LogWrite
  cut : Bool := false
  written : Nat := 0
  fresh : List ε

/-! ## The viewer -/

/-- `_LogTail` -/
structure Tail where
  offset : Nat := 0
  skipLines : Nat

/-- `_TAIL_READ_BYTES` -/
def tailReadBytes : Nat := 1048576

/-- One call of `_LogTail.read`: what it took from the file and has not split yet (it read up to
the tail's offset and this), and what it will return. -/
structure Reading where
  buffer : Bytes := []
  lines : List Bytes := []
  size : Nat := 0

/-- Where `_stream_log` is; `draining` once the run was found finished. -/
inductive Phase
  | reading (draining : Bool) (read : Reading)
  | sending (draining : Bool) (lines : List Bytes)
  | checking
  | waiting
  | returned

/-- A connection: the lines sent on it that have not arrived. -/
structure Viewer where
  tail : Tail
  finished : Bool
  phase : Phase := .reading false {}
  inFlight : List Bytes := []

/-- A byte that `str.strip` takes away. -/
def isSpace (b : UInt8) : Bool := (9 ≤ b && b ≤ 13) || (28 ≤ b && b ≤ 32)

def strip (text : Bytes) : Bytes := ((text.dropWhile isSpace).reverse.dropWhile isSpace).reverse

/-- The buffer's first line with its line break, and what follows it. -/
def firstLine (buffer : Bytes) : Option (Bytes × Bytes) :=
  match buffer.dropWhile (· ≠ 10) with
  | [] => none
  | b :: rest => some (buffer.takeWhile (· ≠ 10) ++ [b], rest)

/-- The loop's body for a complete line; whether the loop goes on. -/
def takeLine (tail : Tail) (read : Reading) (raw rest : Bytes) : Tail × Reading × Bool :=
  let moved := { tail with offset := tail.offset + raw.length }
  let line := strip raw
  if line = [] then (moved, { read with buffer := rest }, true)
  else if tail.skipLines ≠ 0 then
    ({ moved with skipLines := tail.skipLines - 1 }, { read with buffer := rest }, true)
  else
    let size := read.size + raw.length
    (moved, { buffer := rest, lines := read.lines ++ [line], size }, size < tailReadBytes)

/-- `read` returns these lines. -/
def afterRead (draining : Bool) (lines : List Bytes) : Phase :=
  if lines = [] then (if draining then .returned else .checking) else .sending draining lines

/-! ## The system -/

structure State (ε : Type) where
  run : Run
  file : Bytes := []
  append : Option (Append ε) := none
  viewer : Option Viewer := none
  /-- What the viewer received, over all its connections. -/
  received : List Bytes := []
  /-- It saw the stream's normal end. -/
  closed : Bool := false
  /-- The events of the calls that committed: a ghost. -/
  events : List ε := []

inductive Label (ε : Type)
  -- the writing side
  | claim (digest : Digest)
  | requeue
  | call (c : Call ε)
  | cut
  | put (count : Nat)
  | commit
  | stop
  -- the reading side
  | connect
  | chunk (count : Nat)
  | line
  | eof
  | send
  | check
  | wake
  | receive
  | drop
  | close

section

variable {ε : Type} (hashToken : Token → Digest) (fmt : EventFormat ε)

/-- The handler on the locked row; `none` where the call does not come to it. -/
def Call.handle (run : Run) : Call ε → Option Handled
  | .events claimToken body => some (InternalApi.events hashToken fmt run claimToken body)
  | .complete claimToken now body =>
    some (InternalApi.complete hashToken now run claimToken body)
  | .fail now status reason =>
    if run.status.active ∧ status.finished then
      let (run, write) := failRun fmt now run status reason
      some ⟨run, some write, .done⟩
    else none

/-- The events a call appends to the log of this row, if it does. -/
def Call.fresh (run : Run) : Call ε → List ε
  | .events _ body => body.events.drop (run.logSeq + 1 - body.firstSeq)
  | .complete _ _ _ => []
  | .fail _ _ reason => [fmt.statusEvent (run.logSeq + 1) s!"AnsiDeck: {reason}"]

def stepViewer (s : State ε) (v : Viewer) : Label ε → Option Viewer
  | .chunk count => match v.phase with
    | .reading draining read =>
      let data := (s.file.drop (v.tail.offset + read.buffer.length)).take count
      if firstLine read.buffer = none ∧ data ≠ [] then
        some { v with phase := .reading draining { read with buffer := read.buffer ++ data } }
      else none
    | _ => none
  | .line => match v.phase with
    | .reading draining read => match firstLine read.buffer with
      | some (raw, rest) =>
        let (tail, read, more) := takeLine v.tail read raw rest
        some { v with
          tail
          phase := if more then .reading draining read else afterRead draining read.lines }
      | none => none
    | _ => none
  | .eof => match v.phase with
    | .reading draining read =>
      if firstLine read.buffer = none ∧
          s.file.drop (v.tail.offset + read.buffer.length) = [] then
        some { v with phase := afterRead draining read.lines }
      else none
    | _ => none
  | .send => match v.phase with
    | .sending draining (line :: rest) =>
      some { v with phase := .sending draining rest, inFlight := v.inFlight ++ [line] }
    | .sending draining [] => some { v with phase := .reading draining {} }
    | _ => none
  | .check => match v.phase with
    | .checking =>
      if v.finished || s.run.finishedAt.isSome then some { v with phase := .reading true {} }
      else some { v with phase := .waiting }
    | _ => none
  | .wake => match v.phase with
    | .waiting => some { v with phase := .reading false {} }
    | _ => none
  | _ => none

def stepAppend (s : State ε) (a : Append ε) : Label ε → Option (State ε)
  | .cut =>
    if a.cut then none
    else some { s with
      file := truncate a.write.offset s.file, append := some { a with cut := true } }
  | .put count =>
    if a.cut ∧ a.written + count ≤ a.write.data.length then
      let piece := (a.write.data.drop a.written).take count
      some { s with
        file := writeAt (a.write.offset + a.written) piece s.file
        append := some { a with written := a.written + count } }
    else none
  | .commit =>
    if a.cut ∧ a.written = a.write.data.length then
      some { s with run := a.after, events := s.events ++ a.fresh, append := none }
    else none
  | .stop => some { s with append := none }
  | _ => none

@[grind =] def step (s : State ε) : Label ε → Option (State ε)
  | .claim digest =>
    if s.append.isNone ∧ s.run.status = .queued then
      some { s with run := { s.run with status := .running, claimTokenHash := some digest } }
    else none
  | .requeue =>
    if s.append.isNone ∧ s.run.status = .running then some { s with run := requeueRun s.run }
    else none
  | .call c =>
    if s.append.isNone then
      (c.handle hashToken fmt s.run).bind fun h => match h.write with
        | some write => some { s with
            append := some { after := h.run, write, fresh := c.fresh fmt s.run } }
        | none => some { s with run := h.run }
    else none
  | .connect =>
    if s.viewer.isNone ∧ !s.closed then
      let tail : Tail := { skipLines := s.received.length }
      some { s with viewer := some { tail, finished := s.run.finishedAt.isSome } }
    else none
  | .receive => s.viewer.bind fun v => match v.inFlight with
    | line :: rest => some { s with
        viewer := some { v with inFlight := rest }, received := s.received ++ [line] }
    | [] => none
  | .drop => s.viewer.map fun _ => { s with viewer := none }
  | .close => s.viewer.bind fun v => match v.phase, v.inFlight with
    | .returned, [] => some { s with viewer := none, closed := true }
    | _, _ => none
  | .cut => s.append.bind fun a => stepAppend s a .cut
  | .put count => s.append.bind fun a => stepAppend s a (.put count)
  | .commit => s.append.bind fun a => stepAppend s a .commit
  | .stop => s.append.bind fun a => stepAppend s a .stop
  | label => s.viewer.bind fun v => (stepViewer s v label).map fun v => { s with viewer := some v }

/-- A run that nothing was logged of. -/
structure Init (s : State ε) : Prop where
  active : s.run.status.active = true
  unfinished : s.run.finishedAt = none
  logSeq : s.run.logSeq = 0
  logBytes : s.run.logBytes = 0
  fresh : s = { run := s.run }

/-- The calls on one run and the viewer of its log. -/
def system : Lib.System (State ε) (Label ε) where
  init := Init
  step := step hashToken fmt

end

end LiveLog

end AnsiDeck
