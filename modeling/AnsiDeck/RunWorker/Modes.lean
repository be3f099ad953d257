import AnsiDeck.RunWorker.Messages
import Mathlib.Data.List.Sort

/-!
# What the other jobs' processes send

`run_inventory`, `run_lint` and `run_keyscan` of `app.run_worker`: an inventory refresh, a playbook
check and a host key scan. As for a run, the outcome is what the scripts, ansible, ansible-lint and
ssh-keyscan do, and what raises; the texts and the cuts are the code's.
-/

namespace AnsiDeck

namespace RunWorker

open Lib (Json Str str decimal decimalInt Unicode)

def codeOne : ExitCode := ⟨1, by decide⟩

def codeZero : ExitCode := ⟨0, by decide⟩

def stderrTail : Nat := 16 * 1024

/-- The end of a process' stderr. -/
def tailOf (stderr : List Nat) : Str := Lib.Utf.decode (stderr.drop (stderr.length - stderrTail))

/-! ## An inventory refresh -/

/-- How an inventory script is called. An argument that the kernel takes is shorter than 128 KiB. -/
inductive ScriptCall
  | list
  | host (name : Str) (h : name.length < 128 * 1024)

def ScriptCall.args : ScriptCall → Str
  | .list => str "--list"
  | .host name _ => str "--host " ++ name

/-- Why what a script printed is no inventory. -/
inductive ScriptProblem
  | shebang
  | exited (call : ScriptCall) (rc : ExitCode) (stderr : List Nat)
  | tooLarge
  | notJson (call : ScriptCall)
  | notAnObject
  | notAGroup (name : Str)
  | hosts (name : Str)
  | children (name : Str)
  | tooManyHosts
  | hostNotAnObject (call : ScriptCall)

def scriptHostCalls : Nat := 1000

def ScriptProblem.text (py : Python) (limit : Nat) : ScriptProblem → Str
  | .shebang => str "the script's #! line must name its interpreter by its full path"
  | .exited call rc stderr =>
    str "the script " ++ call.args ++ str " exited with " ++ decimalInt rc.1 ++ str ": "
      ++ lastChars 500 (py.unicode.strip (tailOf stderr))
  | .tooLarge => str "the script printed more than " ++ decimal limit ++ str " bytes"
  | .notJson call => str "what the script " ++ call.args ++ str " printed is not JSON"
  | .notAnObject => str "the script must print a JSON object"
  | .notAGroup name =>
    str "group " ++ py.repr (name.take 100) ++ str " must be a list of hosts or an object"
  | .hosts name => str "group " ++ py.repr (name.take 100) ++ str ": hosts must be a list of names"
  | .children name =>
    str "group " ++ py.repr (name.take 100) ++ str ": children must be a list of names"
  | .tooManyHosts =>
    str "more than " ++ decimal scriptHostCalls ++ str " hosts without _meta in the output"
  | .hostNotAnObject call => str "the script " ++ call.args ++ str " must print a JSON object"

inductive CallOutcome
  | raised (why : Str)
  | script (problem : ScriptProblem)
  /-- `ansible-inventory` ran. With exit code 0 there is a file of so many bytes, and its text up to
  what is raised while it is read. -/
  | ran (rc : ExitCode) (stderr : List Nat) (size : Nat) (output : Str) (fails : Option Str)

structure Call where
  key : Str
  kind : Str
  outcome : CallOutcome

/-- `_CALL_KEY.fullmatch`. -/
def isCallKey (key : Str) : Bool :=
  key = str "combined" || key.head? = some 115 && 1 ≤ key.tail.length && key.tail.length ≤ 12
    && key.tail.all (fun c => 48 ≤ c && c ≤ 57)

def inventoryPlugins : List Str := ["plugin", "git_file", "git_script", "combine"].map str

def outputChunk : Nat := 512 * 1024

def outputMessage (key chunk : Str) : Json :=
  message "output" [("key", .str key), ("data", .str chunk)]

def inventoryResult (key : Str) (rc : ExitCode) (stderr : Str) : Json :=
  message "inventory_result" [("key", .str key), ("rc", .int rc.1), ("stderr", .str stderr)]

/-- The calls one after another, with whether one failed so far. -/
def callMessages (py : Python) (limit : Nat) : List Call → Bool → List Json
  | [], failed =>
    [result (if failed then str "failed" else str "successful")
      (some (if failed then codeOne else codeZero))]
  | call :: rest, failed =>
    if !isCallKey call.key || !inventoryPlugins.contains call.kind then
      [refused (str "invalid inventory call " ++ py.repr call.key ++ str " (" ++ py.repr call.kind
        ++ str ")")]
    else match call.outcome with
    | .raised why => [refused why]
    | .script problem =>
      inventoryResult call.key codeOne (problem.text py limit) :: callMessages py limit rest true
    | .ran rc stderr size output fails =>
      if rc.1 ≠ 0 then
        inventoryResult call.key rc (tailOf stderr) :: callMessages py limit rest true
      else if limit < size then
        inventoryResult call.key codeOne (str "the output is larger than " ++ decimal limit
          ++ str " bytes") :: callMessages py limit rest true
      else
        (chunks outputChunk output).map (outputMessage call.key) ++
          match fails with
          | some why => [refused why]
          | none => inventoryResult call.key rc (tailOf stderr) :: callMessages py limit rest failed

/-- The exit code and the stderr that are sent of a call that fails. -/
def CallOutcome.failure (py : Python) (limit : Nat) : CallOutcome → Option (ExitCode × Str)
  | .raised _ => none
  | .script problem => some (codeOne, problem.text py limit)
  | .ran rc stderr size _ _ =>
    if rc.1 ≠ 0 then some (rc, tailOf stderr)
    else if limit < size then
      some (codeOne, str "the output is larger than " ++ decimal limit ++ str " bytes")
    else none

structure RefreshOutcome where
  dir : Except Str Path
  /-- What `_own_home` raises. -/
  home : Option Str
  calls : List Call

def refreshMessages (py : Python) (limit : Nat) (o : RefreshOutcome) : List Json :=
  match o.dir with
  | .error why => [refused why]
  | .ok dir =>
    started dir :: match o.home with
      | some why => [refused why]
      | none => callMessages py limit o.calls false

/-! ## A playbook check -/

/-- Python's truth of a value. -/
def truthy : Json → Bool
  | .null => false
  | .bool b => b
  | .int n => n ≠ 0
  | .float (.finite _ mantissa _ _) => mantissa ≠ 0
  | .float _ => true
  | .str s => s ≠ []
  | .arr items => items ≠ []
  | .obj entries => entries ≠ []

/-- `a or b`. -/
def orElse (a b : Json) : Json := if truthy a then a else b

/-- The value as a dictionary, or an empty one. -/
def dictOf : Json → Event
  | .obj entries => entries
  | _ => []

def typeName : Json → String
  | .null => "NoneType"
  | .bool _ => "bool"
  | .int _ => "int"
  | .float _ => "float"
  | .str _ => "str"
  | .arr _ => "list"
  | .obj _ => "dict"

/-- `v.get(key)`, which only a dictionary has. -/
def getMember (v : Json) (key : String) : Except Str Json :=
  match v with
  | .obj entries => .ok (Event.get entries key)
  | v => .error (str "'" ++ str (typeName v) ++ str "' object has no attribute 'get'")

/-- `_int_or_none`. -/
def intOrNone : Json → Option Int
  | .int n => some n
  | _ => none

/-- A finding as it is sent. -/
structure Finding where
  rule : Str
  level : Str
  message : Str
  details : Option Str
  path : Str
  line : Int
  column : Option Int
  url : Option Str

/-- `str(v)`. -/
def showJson (py : Python) : Json → Str
  | .str s => s
  | v => py.showValue v

def errorRules : List Str :=
  ["load-failure", "syntax-check", "internal-error", "parser-error"].map str

def severeLevels : List Str := ["major", "critical", "blocker"].map str

/-- Where an issue is: its line and column. -/
def position (location : Event) : Except Str (Option Int × Option Int) := do
  let found ← getMember (orElse (location.get "positions") (.obj [])) "begin"
  let start := orElse found (.obj [])
  let first ← getMember start "line"
  let line ← orBegun (intOrNone first)
  let column ← getMember start "column"
  pure (line, intOrNone column)
where
  /-- The line, unless it is none or 0. -/
  orBegun : Option Int → Except Str (Option Int)
    | some n => if n ≠ 0 then .ok (some n) else begun
    | none => begun
  /-- `(location.get("lines") or {}).get("begin")`. -/
  begun : Except Str (Option Int) :=
    (getMember (orElse (location.get "lines") (.obj [])) "begin").map intOrNone

/-- One issue, of a path inside the project. -/
def finding (py : Python) (clean : Str → Str) (issue location : Event) (path : Str) :
    Except Str Finding := do
  let (line, column) ← position location
  let rule := (showJson py (orElse (issue.get "check_name") (.str (str "unknown")))).take 100
  let severity := match issue.get "severity" with
    | .str s => severeLevels.contains s
    | _ => false
  let severe := severity || errorRules.contains ((rule.splitOn 91).headD [])
  let body := (dictOf (issue.get "content")).get "body"
  pure
    { rule
      level := if severe then str "error" else str "warning"
      message := (clean (showJson py (orElse (issue.get "description") (.str rule)))).take 500
      details := if truthy body then some ((clean (showJson py body)).take 2000) else none
      path := path.take 1024
      line := max 1 (line.getD 1)
      column
      url := match issue.get "url" with
        | .str url => if (str "https://").isPrefixOf url then some (url.take 300) else none
        | _ => none }

/-- Whether a path is outside the project. -/
def isExternal (path : Str) : Bool := (str "/").isPrefixOf path || (str "..").isPrefixOf path

/-- The findings, and how many issues are in files outside. -/
def readIssues (py : Python) (target : Str) (clean : Str → Str) :
    List Json → Except Str (List Finding × Nat)
  | [] => .ok ([], 0)
  | .obj issue :: rest => do
    let location := dictOf (Event.get issue "location")
    let path := clean (showJson py (orElse (location.get "path") (.str target)))
    if isExternal path then
      let (findings, external) ← readIssues py target clean rest
      pure (findings, external + 1)
    else
      let f ← finding py clean issue location path
      let (findings, external) ← readIssues py target clean rest
      pure (f :: findings, external)
  | _ :: rest => readIssues py target clean rest

/-- The order of findings: those of the target first. -/
def Finding.le (target : Str) (a b : Finding) : Prop :=
  if decide (a.path ≠ target) ≠ decide (b.path ≠ target) then a.path = target
  else if a.path ≠ b.path then a.path < b.path
  else if a.line ≠ b.line then a.line < b.line
  else a.column.getD 0 ≤ b.column.getD 0

instance (target : Str) : DecidableRel (Finding.le target) := fun a b => by
  unfold Finding.le
  infer_instance

def maxFindings : Nat := 500

/-- `issues if isinstance(issues, list) else []`. -/
def issuesOf : Json → List Json
  | .arr issues => issues
  | _ => []

/-- `lint_findings`: the first findings, how many there were, how many issues were outside. -/
def lintFindings (py : Python) (issues : Json) (target : Str) (clean : Str → Str) :
    Except Str (List Finding × Nat × Nat) := do
  let (findings, external) ← readIssues py target clean (issuesOf issues)
  let sorted := findings.insertionSort (Finding.le target)
  pure (sorted.take maxFindings, findings.length, external)

def optionJson {α : Type} (toJson : α → Json) : Option α → Json
  | some a => toJson a
  | none => .null

def Finding.json (f : Finding) : Json :=
  .obj [(str "rule", .str f.rule), (str "level", .str f.level), (str "message", .str f.message),
    (str "details", optionJson .str f.details), (str "path", .str f.path),
    (str "line", .int f.line), (str "column", optionJson .int f.column),
    (str "url", optionJson .str f.url)]

def lintMaxOutput : Nat := 16 * 1024 * 1024

/-- The line of ansible-lint's output that is read, and what `json.loads` makes of it. -/
structure Issues where
  text : Str
  value : Json
  room : Nat
  length_le : text.length ≤ lintMaxOutput
  reads : Lib.JsonText.loads Lib.Dialect.python room text = some value

/-- An issue in the second line of a playbook. -/
def issueText : Str := str "[\x7b\"location\": \x7b\"lines\": \x7b\"begin\": 2\x7d\x7d\x7d]"

theorem issueText_reads : (Lib.JsonText.loads Lib.Dialect.python 4 issueText).isSome = true := by
  decide +kernel

def oneIssue : Issues where
  text := issueText
  value := (Lib.JsonText.loads Lib.Dialect.python 4 issueText).get issueText_reads
  room := 4
  length_le := by decide
  reads := (Option.some_get issueText_reads).symm

example : (lintFindings plainPython oneIssue.value (str "site.yml") id).toOption.map
    (fun found => found.1.map fun f => (f.path, f.line)) = some [(str "site.yml", 2)] := by
  decide +kernel

inductive LintOutcome
  | raised (why : Str)
  /-- The exit code, the end of stderr, and the issues where they could be read. -/
  | ran (rc : ExitCode) (tail : Str) (issues : Option Issues)

/-- What is said when ansible-lint fails. -/
def lintFailure (rc : ExitCode) (tail : Str) : Str :=
  let meaning := if rc.1 = 3 then str "ansible-lint's configuration is invalid"
    else str "ansible-lint failed (exit " ++ decimalInt rc.1 ++ str ")"
  let lines := Scrub.splitlines tail
  let last := (str "\n").intercalate (lines.drop (lines.length - 15))
  if last = [] then meaning else meaning ++ str ": " ++ last

structure LintJob where
  target : Str
  clean : Str → Str
  repoConfig : Bool

def lintResult (py : Python) (job : LintJob) (rc : ExitCode) (found : List Finding × Nat × Nat)
    (error : Option Str) : List Json :=
  [message "lint_result"
      [("rc", .int rc.1), ("findings", .arr (found.1.map Finding.json)), ("total", .int found.2.1),
        ("truncated", .bool (found.1.length < found.2.1)), ("external", .int found.2.2),
        ("error", optionJson (fun e => .str (e.take 1000)) error), ("version", .str py.lintVersion),
        ("repo_config", .bool job.repoConfig)],
    result (if error.isSome then str "failed" else str "successful") (some rc)]

structure CheckOutcome where
  dir : Except Str Path
  lint : LintOutcome

def checkMessages (py : Python) (job : LintJob) (o : CheckOutcome) : List Json :=
  match o.dir with
  | .error why => [refused why]
  | .ok dir =>
    started dir :: match o.lint with
      | .raised why => [refused why]
      | .ran rc tail issues =>
        if rc.1 = 0 ∨ rc.1 = 2 then
          match issues with
          | none => lintResult py job rc ([], 0, 0)
              (some (str "ansible-lint's output couldn't be read"))
          | some issues =>
            match lintFindings py issues.value job.target job.clean with
            | .error why => [refused why]
            | .ok found => lintResult py job rc found none
        else lintResult py job rc ([], 0, 0) (some (lintFailure rc tail))

/-! ## A host key scan -/

def maxKeyscanLines : Nat := 1500

def maxKeyscanBytes : Nat := 2 * 1024 * 1024

/-- What `ssh-keyscan` of a port's hosts does. -/
inductive PortScan
  | outOfTime
  | timedOut
  | done (stdout stderr : List Nat)

structure Scanned where
  lines : List Str := []
  size : Nat := 0
  errors : List Str := []

/-- The lines of one port, up to the first that is too much. What is left out counts too. -/
def scanLines (u : Unicode) : List Str → Scanned → Scanned
  | [], s => s
  | raw :: rest, s =>
    let found := u.strip raw
    if found = [] || found.head? = some 35 then scanLines u rest s
    else if maxKeyscanLines ≤ s.lines.length || maxKeyscanBytes < s.size + found.length then
      { s with size := s.size + found.length }
    else scanLines u rest { s with lines := s.lines ++ [found], size := s.size + found.length }

def scanPorts (u : Unicode) : List (Nat × PortScan) → Scanned → Scanned
  | [], s => s
  | (port, .outOfTime) :: _, s =>
    { s with errors := s.errors ++ [str "out of time before port " ++ decimal port] }
  | (port, .timedOut) :: rest, s =>
    scanPorts u rest
      { s with errors := s.errors ++ [str "ssh-keyscan of port " ++ decimal port
          ++ str " ran out of time"] }
  | (_, .done stdout stderr) :: rest, s =>
    let read := scanLines u (Scrub.splitlines (Lib.Utf.decode stdout)) s
    let problems := (Scrub.splitlines (Lib.Utf.decode stderr)).filter fun found =>
      u.strip found ≠ [] && found.head? ≠ some 35
    scanPorts u rest { read with errors := read.errors ++ problems.drop (problems.length - 5) }

inductive ScanOutcome
  | raised (why : Str)
  | ports (scans : List (Nat × PortScan))

structure KeyscanOutcome where
  dir : Except Str Path
  scan : ScanOutcome

def keyscanResult (s : Scanned) : Json :=
  let error := lastChars 1000 ((str "\n").intercalate s.errors)
  message "keyscan_result"
    [("lines", .arr (s.lines.map .str)), ("error", if error = [] then .null else .str error)]

def keyscanMessages (py : Python) (o : KeyscanOutcome) : List Json :=
  match o.dir with
  | .error why => [refused why]
  | .ok dir =>
    started dir :: match o.scan with
      | .raised why => [refused why]
      | .ports scans =>
        [keyscanResult (scanPorts py.unicode scans {}), result (str "successful") (some codeZero)]

end RunWorker

end AnsiDeck
