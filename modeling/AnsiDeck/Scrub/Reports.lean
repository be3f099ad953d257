import AnsiDeck.Scrub.Events

/-!
# What the worker reports of a job's output

`refresh_error` of the worker's runner, `lint_findings` of the process that ran ansible-lint, and
`scrub_findings`, which the runner applies to what that process sent.
-/

namespace AnsiDeck.Scrub

open Lib

/-- `text[-n:]` -/
def last {α : Type} (n : Nat) (text : List α) : List α := text.drop (text.length - n)

/-! ## `refresh_error` -/

/-- An expression whose groups are numbered. -/
abbrev Numbered := Regex Nat Nat

/-- `_REFRESH_PATHS` -/
def refreshPaths (u : Unicode) : Pattern Nat Nat where
  regex := .seq (lits "/") (chain [.manyLazy (.one fun c => !u.isSpace c),
    lits "/ansideck-refresh-", .plus (.one u.isDecimal), lits "-",
    .many (.one fun c => c ≠ 47 && !u.isSpace c), lits "/",
    .opt (chain [lits "c", .plus (.one u.isDecimal), lits "/"]), lits "inventory/"])
  solid := Nat.lt_of_lt_of_le (m := 1) (by decide) (Nat.le_add_right 1 _)

/-- `_PLUGIN_FAILED` -/
def pluginFailed : Numbered :=
  chain [lits "[WARNING]: Failed to parse inventory with '", .group 1 (.plus (.one (· ≠ 39))),
    lits "' plugin: ", .group 2 (.many (.one (· ≠ 10))), .atEnd]

/-- `_SOURCE_FAILED` -/
def sourceFailed : Numbered :=
  chain [lits "[ERROR]: Completely failed to parse inventory source ",
    .group 1 (.many (.one (· ≠ 10))), .atEnd]

/-- What the lines so far say: the errors, and why plugins failed since the last of them. -/
structure Diagnosis where
  errors : List Text
  reasons : List Text

def readLine (d : Diagnosis) (line : Text) : Diagnosis :=
  match pluginFailed.matchAt [] line with
  | some failed =>
    -- "not YAML inventory": it was a plugin config
    if failed.group 1 = txt "yaml" then d else { d with reasons := d.reasons ++ [failed.group 2] }
  | none =>
    match sourceFailed.matchAt [] line with
    | some source =>
      let why := (txt "; ").intercalate d.reasons
      let why := if why = [] then txt "could not be parsed" else why
      { errors := d.errors ++ [source.group 1 ++ txt ": " ++ why], reasons := [] }
    | none =>
      if txt "[ERROR]: " <+: line then { d with errors := d.errors ++ [line.drop 9] } else d

def errorLines (text : Text) : List Text := ((splitlines text).foldl readLine ⟨[], []⟩).errors

def summaryChars : Nat := 800
def errorChars : Nat := 1000

/-- The exit code in a message, `None` where there is none. -/
def showRc : Option Int → Text
  | none => txt "None"
  | some rc => showInt rc

/-- stderr without the temporary directories of the config files. -/
def withoutPaths (u : Unicode) (stderr : Text) : Text := (refreshPaths u).sub (fun _ => []) stderr

/-- The error lines, or else the end of the text. -/
def refreshText (u : Unicode) (stderr : Text) : Text :=
  let text := withoutPaths u stderr
  let errors := errorLines text
  if errors = [] then last summaryChars (strip u.isSpace text) else [10].intercalate errors

def refreshSummary (u : Unicode) (secrets : List Text) (stderr : Text) : Text :=
  strip u.isSpace (scrubText u secrets (refreshText u stderr))

def refreshFailed (rc : Option Int) : Text :=
  txt "ansible-inventory failed (exit code " ++ showRc rc ++ txt ")"

def refreshError (u : Unicode) (secrets : List Text) (stderr : Text) (rc : Option Int) : Text :=
  let summary := refreshSummary u secrets stderr
  last errorChars (if summary = [] then refreshFailed rc else summary)

/-! ## `lint_findings` -/

inductive Level
  | error
  | warning
  deriving DecidableEq

structure Finding where
  rule : Text
  level : Level
  message : Text
  details : Option Text
  path : Text
  line : Int
  column : Option Int
  url : Option Text

/-- `bool(v)` -/
def truthy : Value → Bool
  | .null => false
  | .bool b => b
  | .int n => n ≠ 0
  | .float shown => shown ≠ txt "0.0" && shown ≠ txt "-0.0"
  | .str s => s ≠ []
  | .arr items => !items.isEmpty
  | .obj entries => !entries.isEmpty

/-- `a or b` -/
def pyOr (a b : Value) : Value := if truthy a then a else b

/-- `str(v)`, where `shown` is what it says of a value that is no string. -/
def pyStr (shown : Value → Text) : Value → Text
  | .str s => s
  | v => shown v

inductive Raised
  | attributeError

/-- `(v or {}).get(key)` -/
def getOr (v : Value) (key : String) : Except Raised Value :=
  match v with
  | .obj _ => .ok (v.get key)
  | _ => if truthy v then .error .attributeError else .ok .null

/-- `_int_or_none` -/
def intOrNone : Value → Option Int
  | .int n => some n
  | _ => none

def isDict : Value → Bool
  | .obj _ => true
  | _ => false

/-- `v if isinstance(v, dict) else {}` -/
def dictOrEmpty (v : Value) : Value := if isDict v then v else .obj []

def lintErrorRules : List Text :=
  [txt "load-failure", txt "syntax-check", txt "internal-error", txt "parser-error"]

def ruleChars : Nat := 100
def messageChars : Nat := 500
def detailsChars : Nat := 2000
def pathChars : Nat := 1024
def urlChars : Nat := 300

section

variable (shown : Value → Text) (clean : Text → Text) (target : Text)

def rawRule (issue : Value) : Text :=
  pyStr shown (pyOr (issue.get "check_name") (.str (txt "unknown")))

def findingRule (issue : Value) : Text := (rawRule shown issue).take ruleChars

/-- The description, or the rule as it was cut. -/
def rawMessage (issue : Value) : Text :=
  clean (pyStr shown (pyOr (issue.get "description") (.str (findingRule shown issue))))

def rawDetails (issue : Value) : Option Text :=
  let body := (dictOrEmpty (issue.get "content")).get "body"
  if truthy body then some (clean (pyStr shown body)) else none

def findingPath (issue : Value) : Text :=
  clean (pyStr shown (pyOr ((dictOrEmpty (issue.get "location")).get "path") (.str target)))

def rawUrl (issue : Value) : Option Text :=
  match issue.get "url" with
  | .str url => if txt "https://" <+: url then some url else none
  | _ => none

def findingLevel (issue : Value) : Level :=
  let severe := match issue.get "severity" with
    | .str s => [txt "major", txt "critical", txt "blocker"].contains s
    | _ => false
  if severe || lintErrorRules.contains ((findingRule shown issue).takeWhile (· ≠ 91)) then .error
  else .warning

/-- A finding's place in its file. -/
def findingPosition (issue : Value) : Except Raised (Option Int × Option Int) := do
  let location := dictOrEmpty (issue.get "location")
  let start ← getOr (location.get "positions") "begin"
  let first := intOrNone (← getOr start "line")
  let line ←
    if first = none ∨ first = some 0 then
      (do return intOrNone (← getOr (location.get "lines") "begin"))
    else pure first
  return (line, intOrNone (← getOr start "column"))

/-- An issue as a finding; none where its file is outside the project. -/
def issueFinding (issue : Value) : Except Raised (Option Finding) := do
  let path := findingPath shown clean target issue
  if txt "/" <+: path ∨ txt ".." <+: path then return none
  let (line, column) ← findingPosition issue
  return some {
    rule := findingRule shown issue
    level := findingLevel shown issue
    message := (rawMessage shown clean issue).take messageChars
    details := (rawDetails shown clean issue).map (·.take detailsChars)
    path := path.take pathChars
    line := max 1 (if line.getD 0 = 0 then 1 else line.getD 0)
    column := column
    url := (rawUrl issue).map (·.take urlChars) }

/-- The target's findings first, then by file and place. -/
def findingOrder (f g : Finding) : Ordering :=
  (compare (f.path ≠ target : Bool) (g.path ≠ target)).then <|
    (compare f.path g.path).then <|
      (compare f.line g.line).then (compare (f.column.getD 0) (g.column.getD 0))

def issuesOf : Value → List Value
  | .arr items => items.filter isDict
  | _ => []

/-- The first findings in order, how many there were, and how many were left out as external. -/
def lintFindings (issues : Value) (maxFindings : Nat) :
    Except Raised (List Finding × Nat × Nat) := do
  let found ← (issuesOf issues).mapM (issueFinding shown clean target)
  let findings := found.filterMap id
  let sorted := findings.insertionSort fun f g => findingOrder target f g ≠ .gt
  return (sorted.take maxFindings, findings.length, found.length - findings.length)

end

/-! ## `scrub_findings` -/

def scrubFinding (u : Unicode) (secrets : List Text) (f : Finding) : Finding :=
  { f with
    rule := scrubText u secrets f.rule
    message := scrubText u secrets f.message
    details := f.details.map (scrubText u secrets)
    path := scrubText u secrets f.path }

/-- The findings scrubbed, and whether anything was removed. -/
def scrubFindings (u : Unicode) (secrets : List Text) (findings : List Finding) :
    List Finding × Bool :=
  let cleaned := findings.map (scrubFinding u secrets)
  (cleaned, (findings.zip cleaned).any fun (f, g) =>
    f.rule ≠ g.rule || f.message ≠ g.message || f.details ≠ g.details || f.path ≠ g.path)

end AnsiDeck.Scrub
