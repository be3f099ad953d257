import AnsiDeck.Lib.System
import AnsiDeck.Lib.Table
import AnsiDeck.Reaper
import AnsiDeck.StoreOutage
import AnsiDeck.InternalApi.Runs

/-!
# The run queue, transaction by transaction

Every transaction that touches a row of `runs`, over the whole table: claims by any number of
workers, and the calls on one run (`Call`) with whatever tokens their callers have. A transaction
in flight is a row of `txs`. It holds the row lock of one run from its locking statement to its
commit or rollback, and works on the row as that statement read it (`seen`); a call that finds
the row locked waits, a claim and the reaper skip it.

A claim is three steps: the statement picks a row on the state committed when it starts and locks
it (`pick`), its new version goes into the unique index of running runs, which waits for an
uncommitted entry of the same inventory and fails on a committed one (`mark`), and it commits. A
job fetch that finds the secret store down rolls back, which frees the row with its job token
still set (`storeDown`), and locks it again in a second transaction (`relock`).

`now()` is the time the transaction began, at any moment up to its locking statement. A heartbeat
or a pass of the reaper handles several rows in one transaction; here each row is one of its own,
which only adds orders. What else the claim statement reads (`Catalog`, the refreshes) may change
at any time.

Ghosts: the digests `issued` so far, those of claims that are `over`, the job payloads `returned`
and the `picks` with the state each statement saw.
-/

namespace AnsiDeck

namespace RunQueue

open Lib (Table)
open InternalApi (EventsIn CompleteIn Build JobStep)

/-- What a claim statement reads besides runs and refreshes. -/
structure Catalog where
  inventories : Table InventoryId Inventory := ∅
  credentials : Table Nat Credential := ∅
  vaultPasswords : Table Nat VaultPassword := ∅
  outage : Option SecretStoreOutage := none

/-- What the claiming worker can do. -/
structure Caps where
  hostKeys : Bool
  egressAllowlist : Bool
  sshCertificates : Bool

/-- A call on one run: a request of a worker, with its tokens, a user's cancel request, or the
reaper. -/
inductive Call (ε : Type)
  | job (claimToken jobToken : Token) (build : Build)
  | events (claimToken : Token) (body : EventsIn ε)
  | heartbeat (claimToken : Token)
  | egressReport (claimToken : Token) (report : String)
  | complete (claimToken : Token) (body : CompleteIn)
  | cancel (user : String)
  | reap (rule : Reaper.Rule)

/-- What a transaction is doing. -/
inductive Work (ε : Type)
  /-- A claim's statement picked the run; `after` is the version it writes. -/
  | picked (after : Run)
  /-- That version is in the index. -/
  | marked (after : Run)
  | call (c : Call ε)
  /-- A job fetch between its two transactions. -/
  | down (claimToken : Token) (reason : String)
  | downAgain (claimToken : Token) (reason : String)

def Work.locks {ε : Type} : Work ε → Bool
  | .down _ _ => false
  | _ => true

structure Tx (ε : Type) where
  started : Time
  run : RunId
  /-- The row as its locking statement read it. -/
  seen : Run
  work : Work ε

/-- A job payload that was returned: the run's row before, the digest of the caller's claim token
and the claims that were over. -/
structure Handout where
  run : RunId
  claim : Digest
  before : Run
  overClaims : List Digest

/-- A run that a claim statement picked, and the state it was picked in. -/
structure Pick where
  run : RunId
  runs : Table RunId Run
  refreshes : Table RefreshId RunStatus

structure State (ε : Type) where
  now : Time := 0
  runs : Table RunId Run := ∅
  refreshes : Table RefreshId RunStatus := ∅
  catalog : Catalog := {}
  txs : Table Nat (Tx ε) := ∅
  issued : List Digest := []
  overClaims : List Digest := []
  returned : List Handout := []
  picks : List Pick := []

structure Settings where
  hashToken : Token → Digest
  runLeaseSeconds : Nat := 60
  storeWaitMinutes : Nat := 0

inductive Label (ε : Type)
  | tick (seconds : Nat)
  | setRefresh (refresh : RefreshId) (status : RunStatus)
  | setCatalog (catalog : Catalog)
  | trigger (id : RunId) (run : Run)
  -- a claim's transaction
  | pick (tx : Nat) (started : Time) (run : RunId) (workerId : String) (caps : Caps)
      (claimToken jobToken : Token)
  | mark (tx : Nat)
  -- a call's
  | lock (tx : Nat) (started : Time) (run : RunId) (call : Call ε)
  | storeDown (tx : Nat)
  | relock (tx : Nat) (started : Time)
  | commit (tx : Nat)
  | rollback (tx : Nat)

/-! ## The claim statement -/

/-- Both are of one inventory; a null is equal to nothing. -/
def sameInventory (a b : Run) : Bool := a.inventoryId.isSome && a.inventoryId = b.inventoryId

/-- `(a.queued_at, a.id) < (b.queued_at, b.id)`. -/
def before (ka : RunId) (a : Run) (kb : RunId) (b : Run) : Bool :=
  a.queuedAt < b.queuedAt || (a.queuedAt = b.queuedAt && ka < kb)

section

variable {ε : Type} (cfg : Settings) (fmt : EventFormat ε)

/-- Whether the run's job reads the secret store. -/
def needsStore (c : Catalog) (run : Run) : Bool :=
  (run.credentialId.bind c.credentials.get?).any
      (fun cr => cr.storePath.isSome || cr.kind = "ssh_cert") ||
    (run.vaultPasswordId.bind c.vaultPasswords.get?).any (fun v => v.storePath.isSome) ||
    run.envCredentialIds.any fun id => (c.credentials.get? id).any fun cr => cr.storePath.isSome

/-- The candidate's `WHERE`, for the run with this id. -/
def eligible (s : State ε) (started : Time) (caps : Caps) (id : RunId) (run : Run) : Bool :=
  run.status = .queued &&
  !(s.runs.any fun _ busy => sameInventory busy run && busy.status = .running) &&
  !((run.waitingRefreshId.bind s.refreshes.get?).any RunStatus.active) &&
  (caps.hostKeys || !((run.inventoryId.bind s.catalog.inventories.get?).any
    fun i => i.hostKeyChecking ≠ "off")) &&
  (caps.egressAllowlist || !((run.inventoryId.bind s.catalog.inventories.get?).any
    fun i => i.egressRestricted)) &&
  (caps.sshCertificates || !((run.credentialId.bind s.catalog.credentials.get?).any
    fun c => c.kind = "ssh_cert")) &&
  !(StoreOutage.holds cfg.storeWaitMinutes started run.queuedAt s.catalog.outage &&
    needsStore s.catalog run) &&
  !(s.runs.any fun k earlier => sameInventory earlier run && earlier.status = .queued &&
    before k earlier id run)

/-- Whether some transaction holds the run's row lock. -/
def locked (s : State ε) (run : RunId) : Bool :=
  s.txs.any fun _ tx => tx.work.locks && tx.run = run

/-- `ORDER BY queued_at, id LIMIT 1 FOR UPDATE SKIP LOCKED`: the first candidate whose row is not
locked. -/
def picks (s : State ε) (started : Time) (caps : Caps) (id : RunId) (run : Run) : Bool :=
  eligible cfg s started caps id run && !locked s id &&
  s.runs.all fun k other =>
    !(eligible cfg s started caps k other && !locked s k && before k other id run)

/-- The version the statement writes. -/
def claimed (s : State ε) (started : Time) (workerId : String) (claimToken jobToken : Token)
    (run : Run) : Run :=
  claimedRun cfg.runLeaseSeconds started
    ⟨workerId, cfg.hashToken claimToken, cfg.hashToken jobToken⟩
    (run.inventoryId.bind s.catalog.inventories.get?) run

/-! ## Commits -/

/-- How a call's transaction ends, on the row it locked. -/
def Call.handle (started : Time) (seen : Run) : Call ε → JobStep
  | .job claimToken jobToken build =>
    InternalApi.job cfg.hashToken fmt started seen claimToken jobToken build
  | .events claimToken body => .answer (InternalApi.events cfg.hashToken fmt seen claimToken body)
  | .heartbeat claimToken =>
    .answer ⟨(InternalApi.heartbeat cfg.hashToken started cfg.runLeaseSeconds seen claimToken).1,
      none, .done⟩
  | .egressReport claimToken report =>
    .answer (InternalApi.egressReport cfg.hashToken seen claimToken report)
  | .complete claimToken body =>
    .answer (InternalApi.complete cfg.hashToken started seen claimToken body)
  | .cancel user => .answer (InternalApi.cancelRun fmt started seen user)
  | .reap rule =>
    let (run, write) := Reaper.reap fmt started rule seen
    .answer ⟨run, some write, .done⟩

/-- The claim token a call carries. -/
def Call.token? : Call ε → Option Token
  | .job claimToken _ _ | .events claimToken _ | .heartbeat claimToken
  | .egressReport claimToken _ | .complete claimToken _ => some claimToken
  | .cancel _ | .reap _ => none

def Tx.token? (tx : Tx ε) : Option Token :=
  match tx.work with
  | .call c => c.token?
  | .down claimToken _ | .downAgain claimToken _ => some claimToken
  | .picked _ | .marked _ => none

/-- Whose call an answer returns the payload to. -/
def Call.payloadTo : Call ε → Answer → Option Token
  | .job claimToken _ _, .payload => some claimToken
  | _, _ => none

/-- The claim that a change of its row ended. -/
def endedClaim (seen row : Run) : List Digest :=
  match seen.claimTokenHash with
  | some claim => if row.claimTokenHash = some claim then [] else [claim]
  | none => []

/-- The transaction commits its row. -/
def commitRow (s : State ε) (id : Nat) (tx : Tx ε) (row : Run) : State ε :=
  { s with
    runs := s.runs.put tx.run row
    txs := s.txs.remove id
    overClaims := endedClaim tx.seen row ++ s.overClaims }

/-- A job's payload is returned with the commit. -/
def handOut (s : State ε) (tx : Tx ε) (claimToken : Token) : State ε :=
  { s with returned := ⟨tx.run, cfg.hashToken claimToken, tx.seen, s.overClaims⟩ :: s.returned }

/-- A claimed run that can't run any more is ended by the claim itself. -/
def settled (started : Time) (after : Run) : Run :=
  match unrunnableReason after with
  | some reason => (failRun fmt started after .failed s!"not run: {reason}").1
  | none => after

/-- `_store_down` on the row it locked again. -/
def requeueOrFail (s : State ε) (tx : Tx ε) (claimToken : Token) (reason : String) : Run :=
  let since := (StoreOutage.seen tx.started s.catalog.outage).since
  (InternalApi.storeDown cfg.hashToken fmt tx.started tx.seen claimToken reason
    (StoreOutage.waitOver cfg.storeWaitMinutes tx.started tx.seen.queuedAt since)).run

def commit (s : State ε) (id : Nat) (tx : Tx ε) : Option (State ε) :=
  match tx.work with
  | .picked _ | .down _ _ => none
  | .marked after => some (commitRow s id tx (settled fmt tx.started after))
  | .call c => match c.handle cfg fmt tx.started tx.seen with
    | .storeDown _ => none
    | .answer h => match c.payloadTo h.answer with
      | some claimToken => some (commitRow (handOut cfg s tx claimToken) id tx h.run)
      | none => some (commitRow s id tx h.run)
  | .downAgain claimToken reason =>
    let s' := commitRow s id tx (requeueOrFail cfg fmt s tx claimToken reason)
    if InternalApi.owns cfg.hashToken tx.seen claimToken then
      some { s' with
        catalog.outage := some (StoreOutage.seen tx.started s.catalog.outage) }
    else some s'

/-! ## Steps -/

/-- A run as a trigger inserts it: queued, with the time its transaction began. -/
def fresh (now : Time) (run : Run) : Bool :=
  run.status = .queued && run.queuedAt ≤ now && run.claimTokenHash.isNone && run.jobTokenHash.isNone

/-- Whether a transaction may begin. -/
def opens (s : State ε) (tx : Nat) (started : Time) : Bool :=
  (s.txs.get? tx).isNone && started ≤ s.now

def step (s : State ε) : Label ε → Option (State ε)
  | .tick seconds => some { s with now := s.now + seconds }
  | .setRefresh refresh status => some { s with refreshes := s.refreshes.put refresh status }
  | .setCatalog catalog => some { s with catalog := catalog }
  | .trigger id run =>
    if (s.runs.get? id).isNone && fresh s.now run then some { s with runs := s.runs.put id run }
    else none
  | .pick tx started id workerId caps claimToken jobToken => do
    let run ← s.runs.get? id
    let claim := cfg.hashToken claimToken
    let job := cfg.hashToken jobToken
    -- the tokens are fresh
    if opens s tx started && picks cfg s started caps id run && claim ∉ s.issued &&
        job ∉ s.issued && claim ≠ job then
      let after := claimed cfg s started workerId claimToken jobToken run
      some { s with
        txs := s.txs.put tx ⟨started, id, run, .picked after⟩
        issued := claim :: job :: s.issued
        picks := ⟨id, s.runs, s.refreshes⟩ :: s.picks }
    else none
  | .mark tx => match s.txs.get? tx with
    | some ⟨started, id, seen, .picked after⟩ =>
      if s.runs.any (fun _ busy => sameInventory busy after && busy.status = .running) ||
          s.txs.any (fun _ other => match other.work with
            | .marked row => sameInventory row after
            | _ => false) then none
      else some { s with txs := s.txs.put tx ⟨started, id, seen, .marked after⟩ }
    | _ => none
  | .lock tx started id call => do
    let run ← s.runs.get? id
    let found := match call with
      | .reap rule => Reaper.applies rule started run
      | _ => true
    if opens s tx started && !locked s id && found then
      some { s with txs := s.txs.put tx ⟨started, id, run, .call call⟩ }
    else none
  | .storeDown tx => match s.txs.get? tx with
    | some ⟨started, id, seen, .call (.job claimToken jobToken build)⟩ =>
      match (Call.job claimToken jobToken build).handle cfg fmt started seen with
      | .storeDown reason =>
        some { s with txs := s.txs.put tx ⟨started, id, seen, .down claimToken reason⟩ }
      | .answer _ => none
    | _ => none
  | .relock tx started => match s.txs.get? tx with
    | some ⟨_, id, _, .down claimToken reason⟩ => do
      let run ← s.runs.get? id
      if !locked s id && started ≤ s.now then
        some { s with txs := s.txs.put tx ⟨started, id, run, .downAgain claimToken reason⟩ }
      else none
    | _ => none
  | .commit tx => (s.txs.get? tx).bind fun t => commit cfg fmt s tx t
  | .rollback tx => (s.txs.get? tx).map fun _ => { s with txs := s.txs.remove tx }

/-- The queue, from an empty table. -/
def system : Lib.System (State ε) (Label ε) where
  init s := s = {}
  step := step cfg fmt

end

end RunQueue

end AnsiDeck
