import AnsiDeck.Models

/-!
# A run's log file

`app.run_log`: appends to a run's JSONL log. The row says how much of the file is committed
(`runs.log_bytes`), and an append first cuts the file back to that length, so what a write whose
commit never happened left behind disappears.

An append has two effects that do not commit together: the row changes when its transaction
commits, the file at once. So it is modelled as the changed row and a `LogWrite`, the write it
does to the file; the system that runs it decides which of the two take place.

How an event becomes a line (`json.dumps` of the scrubbed event and a newline) and how a time or
a name is printed do not matter here: everything is over an `EventFormat`.
-/

namespace AnsiDeck

abbrev Bytes := List UInt8

/-- How the code writes events, times and names, opaque otherwise. -/
structure EventFormat (ε : Type) where
  /-- `(json.dumps(_pattern_scrubber.scrub_event(event)) + "\n").encode()`. -/
  line : ε → Bytes
  /-- `len(json.dumps(event))`, by which the worker cuts its batches. -/
  size : ε → Nat
  /-- `{"event": "ansideck_status", "counter": counter, "stdout": text}`. -/
  statusEvent : Nat → String → ε
  /-- `f"{value:%Y-%m-%d %H:%M:%S}"`. -/
  stamp : Time → String
  /-- `f"{text!r}"`. -/
  repr : String → String

/-- A write to a log file: cut it at `offset`, then write `data` there. -/
structure LogWrite where
  offset : Nat
  data : Bytes

/-- `file.truncate(n)`: also pads a file that is shorter. -/
def truncate (n : Nat) (file : Bytes) : Bytes :=
  file.take n ++ List.replicate (n - file.length) 0

/-- `file.seek(offset); file.write(data)` -/
def writeAt (offset : Nat) (data file : Bytes) : Bytes :=
  truncate offset (file.take offset) ++ data ++ file.drop (offset + data.length)

def LogWrite.apply (w : LogWrite) (file : Bytes) : Bytes := truncate w.offset file ++ w.data

/-- What readers of the log see. -/
def Run.committed (run : Run) (file : Bytes) : Bytes := file.take run.logBytes

namespace RunLog

variable {ε : Type} (fmt : EventFormat ε)

/-- The lines of these events. -/
def lines (events : List ε) : Bytes := events.flatMap fmt.line

def appendEvents (run : Run) (events : List ε) : Run × LogWrite :=
  let data := lines fmt events
  ({ run with logBytes := run.logBytes + data.length }, ⟨run.logBytes, data⟩)

/-- A line from AnsiDeck itself (not ansible), e.g. why the reaper ended the run. It takes the
next sequence number. -/
def appendStatusLine (run : Run) (text : String) : Run × LogWrite :=
  let run := { run with logSeq := run.logSeq + 1 }
  appendEvents fmt run [fmt.statusEvent run.logSeq text]

@[simp] theorem lines_append (a b : List ε) :
    lines fmt (a ++ b) = lines fmt a ++ lines fmt b := List.flatMap_append

end RunLog

theorem truncate_of_le {n : Nat} {file : Bytes} (h : n ≤ file.length) :
    truncate n file = file.take n := by
  simp [truncate, Nat.sub_eq_zero_of_le h]

theorem writeAt_of_le {offset : Nat} {data file : Bytes} (h : offset ≤ file.length) :
    writeAt offset data file = file.take offset ++ data ++ file.drop (offset + data.length) := by
  rw [writeAt, truncate_of_le (by rw [List.length_take, Nat.min_eq_left h]), List.take_take,
    Nat.min_self]

theorem writeAt_length (file data : Bytes) : writeAt file.length data file = file ++ data := by
  rw [writeAt_of_le (Nat.le_refl _), List.take_length, List.drop_of_length_le (by simp),
    List.append_nil]

/-- A write at the committed length leaves the committed bytes alone, whether its transaction
commits or not. -/
theorem take_apply {w : LogWrite} {file : Bytes} (h : w.offset ≤ file.length) :
    (w.apply file).take w.offset = file.take w.offset := by
  rw [LogWrite.apply, truncate_of_le h]
  exact List.take_left' (by rw [List.length_take, Nat.min_eq_left h])

theorem length_apply {w : LogWrite} {file : Bytes} (h : w.offset ≤ file.length) :
    (w.apply file).length = w.offset + w.data.length := by
  rw [LogWrite.apply, truncate_of_le h, List.length_append, List.length_take,
    Nat.min_eq_left h]

theorem apply_eq {w : LogWrite} {file : Bytes} (h : w.offset ≤ file.length) :
    w.apply file = file.take w.offset ++ w.data := by
  rw [LogWrite.apply, truncate_of_le h]

/-- The smallest format: one byte a line, and 0 for AnsiDeck's own. -/
def byteFormat : EventFormat Nat where
  line e := [e.toUInt8]
  size _ := 1
  statusEvent _ _ := 0
  stamp _ := ""
  repr text := text

end AnsiDeck
