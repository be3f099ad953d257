import AnsiDeck.Lib.Base64
import AnsiDeck.Lib.Decode
import AnsiDeck.Lib.JsonText
import AnsiDeck.Scrub.Forms
import Mathlib.Algebra.GroupWithZero.Nat

/-!
# What a run's process sends

`app.run_worker`: the messages of the process that runs a playbook, one JSON line each, of which
`app.run_executor.run_in_worker` reads none that is longer than `MAX_MESSAGE_BYTES`. What ansible,
the kernel and the file system do is the outcome (`RunOutcome`); what is said of it is the code's.
-/

namespace AnsiDeck

namespace RunWorker

open Lib (Json Str str decimal Unicode)

open Lib.JsonText (dump)

/-! ## Messages -/

def maxMessageBytes : Nat := 32 * 1024 * 1024

/-- Room for the message around an event. -/
def maxEventBytes : Nat := maxMessageBytes - 1024

def message (type : String) (fields : List (String × Json)) : Json :=
  .obj ((str "type", .str (str type)) :: fields.map fun f => (str f.1, f.2))

/-- `emit`. All of it is ASCII: it has as many bytes as characters. -/
def line (m : Json) : Str := dump m ++ [10]

/-- What the interpreter, its libraries and ansible-lint's package give: the Unicode database,
`repr` of a text and `str` of a value, the digest of SHA-256, and the version. -/
structure Python where
  unicode : Unicode
  repr : Str → Str
  showValue : Json → Str
  sha256 : List Nat → List Nat
  lintVersion : Str
  length_repr : ∀ s, (repr s).length ≤ 10 * s.length + 2
  length_sha256 : ∀ bytes, (sha256 bytes).length = 32
  sha256_lt : ∀ bytes, ∀ b ∈ sha256 bytes, b < 256
  length_lintVersion : lintVersion.length ≤ 100

def plainPython : Python where
  unicode := .ascii
  repr s := 39 :: s ++ [39]
  showValue _ := []
  sha256 _ := List.replicate 32 0
  lintVersion := []
  length_repr s := by
    rw [List.length_append, List.length_cons, List.length_singleton]
    omega
  length_sha256 _ := List.length_replicate
  sha256_lt _ b hb := by
    rw [List.eq_of_mem_replicate hb]
    decide
  length_lintVersion := by decide

/-- A path that the kernel takes: with its zero byte, at most `PATH_MAX`. -/
def Path : Type := { s : Str // s.length < 4096 }

/-- How a process ended: its exit code, or the signal that ended it. -/
def ExitCode : Type := { n : Int // n.natAbs < 256 }

/-- `json.dumps` of an exit code, or of `None`. -/
def exitJson : Option ExitCode → Json
  | some code => .int code.1
  | none => .null

def refused (why : Str) : Json := message "refused" [("reason", .str (why.take 300))]

def started (dir : Path) : Json := message "started" [("private_data_dir", .str dir.1)]

def result (status : Str) (rc : Option ExitCode) : Json :=
  message "result" [("status", .str status), ("rc", exitJson rc)]

/-- `s[-n:]`. -/
def lastChars (n : Nat) (s : Str) : Str := s.drop (s.length - n)

/-! ## Events -/

abbrev Event := List (Str × Json)

/-- `event.get(key)`. -/
def Event.get (event : Event) (key : String) : Json := (event.lookup (str key)).getD .null

/-- An event too large to send, without its content. -/
def leftOut (event : Event) : Event :=
  [(str "event", event.get "event"), (str "uuid", event.get "uuid"),
    (str "counter", event.get "counter"),
    (str "stdout", .str (str "[AnsiDeck: event left out, it exceeded " ++ decimal maxEventBytes
      ++ str " bytes]"))]

def boundedEvent (event : Event) : Event :=
  if (dump (.obj event)).length ≤ maxEventBytes then event else leftOut event

def eventMessage (event : Event) : Json := message "event" [("event", .obj (boundedEvent event))]

/-! ## Learned host keys -/

def maxLearnedBytes : Nat := 64 * 1024

def maxLearnedLines : Nat := 200

/-- `read_learned`, of the file's bytes, `none` where it can't be opened. -/
def readLearned (u : Unicode) : Option (List Nat) → List Str
  | none => []
  | some data =>
    (((Scrub.splitlines (Lib.Utf.decode (data.take maxLearnedBytes))).map u.strip).filter
      (· ≠ [])).take maxLearnedLines

def learnedMessages (u : Unicode) (data : Option (List Nat)) : List Json :=
  let learned := readLearned u data
  if learned = [] then [] else [message "host_keys_learned" [("lines", .arr (learned.map .str))]]

/-! ## Artifacts -/

/-- `job["artifacts"]`. -/
structure Limits where
  maxBytes : Nat
  maxFiles : Nat

/-- What the walk of `ARTIFACTS_DIR` comes to. -/
structure Entry where
  path : Str
  /-- `os.lstat`: whether it is a regular file, and its size; or what the `OSError` says. -/
  stat : Except Str (Bool × Nat)
  /-- Its size when it is put into the archive. -/
  opened : Except Str Nat

/-- `collect_artifacts`' dictionary. -/
inductive Collected
  | error (why : Str)
  | nothing
  | files (files : List (Str × Nat))

def tooManyFiles (limits : Limits) : Str :=
  str "more than " ++ decimal limits.maxFiles ++ str " files in ARTIFACTS_DIR: none were kept"

def tooManyBytes (limits : Limits) : Str :=
  let mb := 1024 * 1024
  let limit := if mb ≤ limits.maxBytes then decimal (limits.maxBytes / mb) ++ str " MB"
    else decimal limits.maxBytes ++ str " bytes"
  str "over " ++ limit ++ str " in ARTIFACTS_DIR: none were kept"

def openFile (entry : Entry) : Except Str (Str × Nat) :=
  entry.opened.map fun size => (entry.path, size)

/-- `collect_artifacts` with the files so far and what they take. What it raises is its text. -/
def collectFrom (limits : Limits) : List Entry → List Entry → Nat → Except Str Collected
  | [], files, _ => if files = [] then .ok .nothing else (files.mapM openFile).map .files
  | entry :: rest, files, total => do
    let (regular, size) ← entry.stat
    if !regular then collectFrom limits rest files total
    else if limits.maxFiles < files.length + 1 then .ok (.error (tooManyFiles limits))
    else if limits.maxBytes < total + size then .ok (.error (tooManyBytes limits))
    else collectFrom limits rest (files ++ [entry]) (total + size)

def collectArtifacts (limits : Limits) (walk : List Entry) : Except Str Collected :=
  collectFrom limits walk [] 0

/-- `artifacts.tar.gz`: its bytes, up to an `OSError` if there is one. -/
structure Archive where
  bytes : List Nat
  fails : Option Str

def artifactChunk : Nat := 1024 * 1024

/-- `read(n)` until there is no more, with fuel. -/
def chunksFrom {α : Type} (n : Nat) : Nat → List α → List (List α)
  | 0, _ => []
  | _ + 1, [] => []
  | fuel + 1, data => data.take n :: chunksFrom n fuel (data.drop n)

def chunks {α : Type} (n : Nat) (data : List α) : List (List α) := chunksFrom n data.length data

/-- `hexdigest`. -/
def hexdigest (digest : List Nat) : Str :=
  digest.flatMap fun b => [Lib.JsonText.hexChar (b / 16), Lib.JsonText.hexChar (b % 16)]

def fileJson (file : Str × Nat) : Json :=
  .obj [(str "path", .str file.1), (str "size", .int file.2)]

def chunkMessage (chunk : List Nat) : Json :=
  message "artifacts_chunk" [("data", .str (Lib.Base64.encode chunk))]

def filesMessage (py : Python) (files : List (Str × Nat)) (archive : List Nat) : Json :=
  message "artifacts"
    [("files", .arr (files.map fileJson)), ("bytes", .int (files.map Prod.snd).sum),
      ("tar_bytes", .int archive.length), ("sha256", .str (hexdigest (py.sha256 archive)))]

def notCollected (why : Str) : Json :=
  message "artifacts" [("error", .str ((str "could not collect the artifacts: " ++ why).take 300))]

/-- `send_artifacts`, and what is said where it raises. -/
def artifactsMessages (py : Python) (limits : Limits) (walk : List Entry) (archive : Archive) :
    List Json :=
  match collectArtifacts limits walk with
  | .error why => [notCollected why]
  | .ok (.error why) => [message "artifacts" [("error", .str why)]]
  | .ok .nothing => []
  | .ok (.files files) =>
    (chunks artifactChunk archive.bytes).map chunkMessage ++
      match archive.fails with
      | some why => [notCollected why]
      | none => [filesMessage py files archive.bytes]

/-! ## A run -/

/-- The statuses of ansible-runner. -/
inductive RunnerStatus
  | unstarted
  | starting
  | running
  | successful
  | failed
  | canceled
  | timeout
  | error
  deriving DecidableEq, Repr

def RunnerStatus.text : RunnerStatus → Str
  | .unstarted => str "unstarted"
  | .starting => str "starting"
  | .running => str "running"
  | .successful => str "successful"
  | .failed => str "failed"
  | .canceled => str "canceled"
  | .timeout => str "timeout"
  | .error => str "error"

structure RunOutcome where
  /-- The private data dir, or what setting it up raises. -/
  prepared : Except Str Path
  events : List Event
  /-- What the runner ends with, unless it raises. -/
  ended : Option (RunnerStatus × Option ExitCode)
  /-- `learned_known_hosts`. -/
  learned : Option (List Nat)
  walk : List Entry
  archive : Archive

/-- `run` of a playbook. -/
def runMessages (py : Python) (limits : Option Limits) (o : RunOutcome) : List Json :=
  match o.prepared with
  | .error why => [refused why]
  | .ok dir =>
    started dir :: o.events.map eventMessage ++
      match o.ended with
      | none => []
      | some (status, rc) =>
        learnedMessages py.unicode o.learned ++
          (match limits with
          | some limits => artifactsMessages py limits o.walk o.archive
          | none => []) ++ [result status.text rc]

end RunWorker

end AnsiDeck
