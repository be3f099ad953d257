import AnsiDeck.Egress.Filter
import AnsiDeck.Lib.System

/-!
# The slots of a worker

`app.worker.runner.Worker`: each slot's thread claims a job, limits the slot's user if the job is a
restricted run, runs the job's processes and sweeps what they leave behind before the next claim.
Beside the threads the filter follows the API's address (`EgressFilter.watch`), processes fork and
exit as they like, and any call of nft may fail.
-/

namespace AnsiDeck

namespace Egress

open Lib (Str)

/-! ## Jobs and their processes -/

inductive Kind
  | run
  | refresh
  | lint
  | keyscan
  deriving DecidableEq

structure Job where
  kind : Kind
  /-- What a restricted run may reach. -/
  egress : Option Spec
  /-- There is a repository to fetch. -/
  project : Bool

/-- What a slot's user was limited to, and the lookups that it came from. -/
structure Grant where
  getaddrinfo : Lookup
  allowlist : Allowlist
  resolvers : List Address

/-- Whose a process of a slot's user is. -/
inductive Owner
  /-- A worker's before this one. -/
  | earlier
  | job (job : Job) (grant : Option Grant)

/-! ## The thread of a slot -/

/-- Where `_slot` is. -/
inductive Phase
  | starting
  | sweeping
  /-- The last sweep left something; the thread waits before the next. -/
  | dirty
  | releasing
  | unreleased
  | claiming
  | fetching (kind : Kind)
  | restricting (job : Job)
  | allowing (job : Job) (getaddrinfo : Lookup) (allowlist : Allowlist)
  | reporting (job : Job) (grant : Grant)
  /-- The repository is fetched, if there is one. -/
  | preparing (job : Job) (grant : Option Grant)
  | running (job : Job) (grant : Option Grant)
  | lastSweep
  | lastRelease
  | stopped

structure Slot where
  phase : Phase
  procs : List Owner
  /-- The slot's uid is in `_allowlisted`. -/
  allowlisted : Bool

def Slot.goto (slot : Slot) (phase : Phase) : Slot := { slot with phase := phase }

/-- What a thread sees of the rest. -/
structure View where
  stopping : Bool
  hasFilter : Bool
  /-- `egress_allowlist()`. -/
  ready : Bool
  /-- Nobody else holds the filter's lock. -/
  unlocked : Bool

/-- The top of the loop of `_slot`, and what follows it. Without a user of its own a slot isn't
swept. -/
def Config.top (cfg : Config) (stopping dirty : Bool) : Phase :=
  if stopping then if cfg.isolated && dirty then .lastSweep else .stopped
  else if cfg.isolated && dirty then .sweeping
  else .claiming

section

variable (cfg : Config) (view : View) (slot : Slot)

/-- The end of a job: the slot is dirty. -/
def jobEnded : Slot := slot.goto (cfg.top view.stopping true)

/-- `sweep`: it says that a slot is clean only once no process of its user is left. -/
def sweepStep (clean : Bool) : Option Slot :=
  if cfg.isolated && clean && !slot.procs.isEmpty then none
  else match slot.phase with
  | .starting => some (slot.goto (cfg.top view.stopping !clean))
  | .sweeping => some (slot.goto (if clean then .releasing else .dirty))
  | .lastSweep => some (slot.goto (if clean then .lastRelease else .stopped))
  | _ => none

/-- After a wait of `_sweep_until_clean` or `_release_until_done`. -/
def wakeStep : Option Slot :=
  match slot.phase with
  | .dirty => some (slot.goto (if view.stopping then .lastSweep else .sweeping))
  | .unreleased => some (slot.goto (if view.stopping then .lastSweep else .releasing))
  | _ => none

/-- One turn of `_release_until_done`, with the slot's table. -/
def releaseStep (nft : Nft) (table : Option SlotTable) : Option (Slot × Option SlotTable) :=
  let turn (done again : Phase) : Option (Slot × Option SlotTable) :=
    if !slot.allowlisted then some (slot.goto done, table)
    else if !view.hasFilter then some ({ slot with phase := done, allowlisted := false }, table)
    else if !view.unlocked then none
    else match nft.apply (fun _ => none) table with
    | (true, table) => some ({ slot with phase := done, allowlisted := false }, table)
    | (false, table) => some (slot.goto again, table)
  match slot.phase with
  | .releasing => turn .claiming .unreleased
  -- the worker is stopping: it doesn't wait for another turn
  | .lastRelease => turn .stopped .stopped
  | _ => none

/-- `/internal/claim`, which may give nothing or fail. -/
def claimStep (kind : Option Kind) : Option Slot :=
  match slot.phase with
  | .claiming => match kind with
    | none => some (slot.goto (cfg.top view.stopping false))
    | some kind => some (slot.goto (.fetching kind))
  | _ => none

/-- `_fetch_job`. Only runs are restricted. -/
def fetchStep (job : Option Job) : Option Slot :=
  match slot.phase with
  | .fetching kind => match job with
    | none => some (jobEnded cfg view slot)
    | some job =>
      if job.kind ≠ kind then none
      else if job.kind = .run && job.egress.isSome then some (slot.goto (.restricting job))
      else some (slot.goto (.preparing job none))
  | _ => none

/-- `_restrict` up to where the slot is going to be limited. `none` for a lookup that raises
anything else than `OSError`. -/
def restrictStep (answer : Option Lookup) : Option Slot :=
  match slot.phase with
  | .restricting job =>
    if !(cfg.isolated && view.ready) then some (jobEnded cfg view slot)
    else match answer, job.egress with
    | some getaddrinfo, some spec =>
      match resolveAllowlist (resolve getaddrinfo) spec with
      | .ok (allowlist, _) =>
        some { slot with phase := .allowing job getaddrinfo allowlist, allowlisted := true }
      | .error _ => some (jobEnded cfg view slot)
    | _, _ => some (jobEnded cfg view slot)
  | _ => none

/-- `EgressFilter.allow`, of the slot with the uid. -/
def allowStep (uid : Nat) (conf : Option Str) (nft : Nft) (table : Option SlotTable) :
    Option (Slot × Option SlotTable) :=
  match slot.phase with
  | .allowing job getaddrinfo allowlist =>
    if !view.unlocked then none
    else
      let resolvers := readResolvers cfg.unicode conf
      match nft.apply (fun _ => some (slotRuleset uid allowlist resolvers cfg.ipv6)) table with
      | (true, table) =>
        some (slot.goto (.reporting job ⟨getaddrinfo, allowlist, resolvers⟩), table)
      | (false, table) => some (jobEnded cfg view slot, table)
  | _ => none

/-- `_report_egress`. -/
def reportStep (ok : Bool) : Option Slot :=
  match slot.phase with
  | .reporting job grant =>
    some (if ok then slot.goto (.preparing job (some grant)) else jobEnded cfg view slot)
  | _ => none

/-- `_fetch_snapshot`, for the jobs that run in a repository. -/
def prepareStep (ok : Bool) : Option Slot :=
  match slot.phase with
  | .preparing job grant =>
    some (if job.project && !ok then jobEnded cfg view slot else slot.goto (.running job grant))
  | _ => none

/-- A process of the job starts. -/
def spawnStep : Option Slot :=
  match slot.phase with
  | .running job grant => some { slot with procs := .job job grant :: slot.procs }
  | _ => none

/-- The job ends, or fails with an exception wherever it is. -/
def endStep : Option Slot :=
  match slot.phase with
  | .fetching _ | .restricting _ | .allowing .. | .reporting .. | .preparing .. | .running .. =>
    some (jobEnded cfg view slot)
  | _ => none

/-- A process forks. -/
def forkStep (i : Nat) : Option Slot :=
  slot.procs[i]?.map fun owner => { slot with procs := owner :: slot.procs }

/-- A process exits or is killed. -/
def exitStep (i : Nat) : Slot := { slot with procs := slot.procs.eraseIdx i }

end

inductive Action
  | sweep (clean : Bool)
  | wake
  | release (nft : Nft)
  | claim (kind : Option Kind)
  | fetch (job : Option Job)
  | restrict (answer : Option Lookup)
  | allow (conf : Option Str) (nft : Nft)
  | report (ok : Bool)
  | prepare (ok : Bool)
  | spawn
  | finish
  | fork (i : Nat)
  | exit (i : Nat)

/-- One step at a slot, with its table. -/
def slotStep (cfg : Config) (view : View) (n : Nat) (slot : Slot) (table : Option SlotTable) :
    Action → Option (Slot × Option SlotTable)
  | .sweep clean => (sweepStep cfg view slot clean).map (·, table)
  | .wake => (wakeStep view slot).map (·, table)
  | .release nft => releaseStep view slot nft table
  | .claim kind => (claimStep cfg view slot kind).map (·, table)
  | .fetch job => (fetchStep cfg view slot job).map (·, table)
  | .restrict answer => (restrictStep cfg view slot answer).map (·, table)
  | .allow conf nft => allowStep cfg view slot (uidOf n) conf nft table
  | .report ok => (reportStep cfg view slot ok).map (·, table)
  | .prepare ok => (prepareStep cfg view slot ok).map (·, table)
  | .spawn => (spawnStep slot).map (·, table)
  | .finish => (endStep cfg view slot).map (·, table)
  | .fork i => (forkStep slot i).map (·, table)
  | .exit i => some (exitStep slot i, table)

/-! ## The worker -/

/-- Where `refresh` is, which holds the filter's lock until it ends. -/
inductive Watch
  | idle
  /-- It has new addresses. -/
  | changed
  | installing
  deriving DecidableEq

structure State where
  net : Net
  filter : Option Filter
  watch : Watch
  stopping : Bool
  slots : Nat → Slot

def State.view (s : State) : View :=
  { stopping := s.stopping
    hasFilter := s.filter.isSome
    ready := s.filter.any fun f => f.healthy && f.allowlistsReady
    unlocked := s.watch = .idle }

inductive Label
  | stop
  /-- `refresh` looks the API up. -/
  | look (lookup : Option (List Address))
  | unhealthy
  | install (first second : Nft)
  | slot (n : Nat) (action : Action)

def step (cfg : Config) (s : State) : Label → Option State
  | .stop => some { s with stopping := true }
  | .look lookup => match s.filter, s.watch with
    | some f, .idle => match f.found lookup with
      | none => some s
      | some f => some { s with filter := some f, watch := .changed }
    | _, _ => none
  | .unhealthy => match s.filter, s.watch with
    | some f, .changed =>
      some { s with filter := some { f with healthy := false }, watch := .installing }
    | _, _ => none
  | .install first second => match s.filter, s.watch with
    | some f, .installing =>
      let (ok, net) := Egress.install cfg.ipv6 f.networks first second s.net
      some { s with net := net, filter := some { f with healthy := ok }, watch := .idle }
    | _, _ => none
  | .slot n action =>
    if n < cfg.slots then
      (slotStep cfg s.view n (s.slots n) (s.net.slots n) action).map fun r =>
        { s with
          slots := Function.update s.slots n r.1
          net := { s.net with slots := Function.update s.net.slots n r.2 } }
    else none

/-- A worker that has started its filter and not yet its threads. An earlier one may have left
processes. -/
structure Begins (cfg : Config) (s : State) : Prop where
  started : ∃ o net, startUp cfg o net = some (s.filter, s.net)
  watch : s.watch = .idle
  stopping : s.stopping = false
  slots : ∀ n, (s.slots n).phase = .starting ∧ (s.slots n).allowlisted = false ∧
    ∀ owner ∈ (s.slots n).procs, owner = .earlier

def system (cfg : Config) : Lib.System State Label where
  init := Begins cfg
  step := step cfg

end Egress

end AnsiDeck
