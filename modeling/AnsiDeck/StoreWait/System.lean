import AnsiDeck.RefreshFirst.System
import AnsiDeck.StoreOutage

/-!
# Runs and refreshes that wait for the secret store

The whole database (`RefreshFirst`) with the outage row, any number of claims, and any number of
job fetches in flight. A fetch that can't read the store rolls its first transaction back, which
frees the row, and begins a second one (`again`) that locks the row anew, records the sighting and
puts the job back or ends it (`finish`). The store may be sighted down and found working at any
time by others too (`sighting`, `clear`), whatever else changes the database in between (`other`).

`now()` is the time a transaction began, at any moment up to its locking statement. Whether what
is claimed needs the store is the claim's own: it depends on credentials, which may change.

Ghosts: `sighted`, the sightings since the store last worked, the latest first, and `outcomes`,
how each second transaction that still owned its job ended.
-/

namespace AnsiDeck

namespace StoreWait

open Lib (Table)
open InventorySources (Db)
open InternalApi (Build owns)

/-! ## The claim statements' hold -/

/-- `greatest(a, b)` of two times that aren't null. -/
def greatest (a b : Time) : Time := if b ≤ a then a else b

/-- `make_interval(mins => minutes)`. -/
def makeInterval (minutes : Nat) : Nat := minutes * 60

/-- `:store_wait AND EXISTS (SELECT 1 FROM secret_store_outage o WHERE ..)`, with
`store_outage.claim_params`. -/
def claimHold (waitMinutes : Nat) (now queuedAt : Time)
    (outage : Option SecretStoreOutage) : Bool :=
  0 < waitMinutes && outage.any fun o =>
    o.holdUntil > now && greatest queuedAt o.since + makeInterval waitMinutes > now

/-! ## The state -/

/-- What a fetch is of. -/
inductive Job
  | run (id : RunId)
  | refresh (id : RefreshId)
  deriving DecidableEq

/-- Where a job fetch is. -/
inductive Phase
  | begun
  /-- The store is down: its first transaction is rolled back. -/
  | down (reason : String)
  /-- Its second one has begun. -/
  | downAgain (reason : String) (started : Time)

structure Fetch where
  job : Job
  claimToken : Token
  jobToken : Token
  /-- When its first transaction began. -/
  began : Time
  phase : Phase := .begun

/-- How a failed fetch ended: its row before and after, and the outage it was part of. -/
structure Outcome where
  job : Job
  began : Time
  started : Time
  endedAt : Time
  since : Time
  /-- The sightings of that outage, this one included. -/
  sighted : List Time
  cancelRequested : Bool
  queuedAt : Time
  statusAfter : RunStatus
  queuedAfter : Time
  /-- The queue times, before and after, of the other refresh of its inventory that was queued. -/
  other : Option (Time × Time) := none

structure State where
  base : RefreshFirst.State := {}
  outage : Option SecretStoreOutage := none
  fetches : Table Nat Fetch := ∅
  sighted : List Time := []
  outcomes : List Outcome := []

inductive Label (ε : Type)
  | tick (seconds : Nat)
  /-- A transaction of another kind, which began at `started`. -/
  | other (started : Time) (label : RefreshFirst.Label ε)
  | sighting (started : Time)
  | clear
  | claimRun (started : Time) (id : RunId) (by_ : Claimant) (needsStore : Bool)
  | claimRefresh (started : Time) (id : RefreshId) (by_ : Claimant) (needsStore : Bool)
  -- a job fetch
  | fetch (tx : Nat) (job : Job) (claimToken jobToken : Token)
  /-- It has its row and builds the job, which reads the store or doesn't. -/
  | build (tx : Nat) (build : Build) (readsStore : Bool)
  | again (tx : Nat)
  | finish (tx : Nat)

section

variable {ε : Type} (cfg : RunQueue.Settings) (fmt : EventFormat ε) (storeLabel : String)

/-- What other transactions do: no claims, and no job fetches or parts of one. -/
def elsewhere : RefreshFirst.Label ε → Bool
  | .tick _ | .claimRun _ _ | .claimRefresh _ _ | .callRun _ (.job _ _ _) | .storeDown _ _ _ _
  | .refreshJob _ _ | .requeueRefresh _ _ _ => false
  | _ => true

/-- A transaction that began at `started`. -/
def during (started : Time) (s : State) (label : RefreshFirst.Label ε) : Option State :=
  (RefreshFirst.step cfg fmt { s.base with now := started } label).map fun base =>
    { s with base := { base with now := s.base.now } }

/-! ## The outage -/

/-- `store_outage.seen`. -/
def sight (started : Time) (s : State) : State :=
  { s with outage := some (StoreOutage.seen started s.outage), sighted := started :: s.sighted }

/-- `store_outage.cleared`. -/
def cleared (s : State) : State := { s with outage := none, sighted := [] }

/-- When the outage that `sight` leaves began. -/
def since (started : Time) (s : State) : Time := (StoreOutage.seen started s.outage).since

/-- `_wait_over` after that sighting. -/
def waitOver (started queuedAt : Time) (s : State) : Option String :=
  StoreOutage.waitOver cfg.storeWaitMinutes started queuedAt (since started s)

/-! ## Job fetches -/

def leave (s : State) (tx : Nat) : State := { s with fetches := s.fetches.remove tx }

def move (s : State) (tx : Nat) (f : Fetch) (phase : Phase) : State :=
  { s with fetches := s.fetches.put tx { f with phase := phase } }

/-- `job`'s first transaction. -/
def buildRun (s : State) (tx : Nat) (f : Fetch) (id : RunId) (build : Build) (readsStore : Bool) :
    Option State :=
  match s.base.db.runs.get? id with
  | none => some (leave s tx)
  | some run =>
    match InternalApi.job cfg.hashToken fmt f.began run f.claimToken f.jobToken build with
    | .storeDown reason => some (move s tx f (.down reason))
    | .answer h =>
      let s' := leave { s with base := RefreshFirst.putRun s.base id h.run } tx
      if h.answer = .payload ∧ readsStore = true then some (cleared s') else some s'

/-- Whether `refresh_job` hands out: the token is unused and not expired. -/
def fetchable (f : Fetch) (row : InventoryRefresh) : Bool :=
  row.jobTokenHash = some (cfg.hashToken f.jobToken) && f.began < row.jobTokenExpiresAt.getD 0

/-- `refresh_job`'s first transaction. -/
def buildRefresh (s : State) (tx : Nat) (f : Fetch) (id : RefreshId) (build : Build)
    (readsStore : Bool) : Option State :=
  let claim := cfg.hashToken f.claimToken
  match RefreshFirst.lockedRefresh s.base id claim with
  | none => some (leave s tx)
  | some row =>
    if !fetchable cfg f row then some (leave s tx)
    else match build with
      | .outage reason => some (move s tx f (.down reason))
      | .built => do
        let s' ← during cfg fmt f.began s (.refreshJob id claim)
        if readsStore then some (cleared (leave s' tx)) else some (leave s' tx)
      | .error error => do
        let s' ← during cfg fmt f.began s (.failRefresh id claim .failed (some error))
        some (leave s' tx)

/-- `_store_down`, in the second transaction. -/
def finishRun (s : State) (tx : Nat) (f : Fetch) (id : RunId) (reason : String) (started : Time) :
    Option State :=
  match s.base.db.runs.get? id with
  | none => some (leave s tx)
  | some run =>
    if !owns cfg.hashToken run f.claimToken then some (leave s tx)
    else do
      let s' ← during cfg fmt started (sight started s)
        (.storeDown id f.claimToken reason (waitOver cfg started run.queuedAt s))
      let row ← s'.base.db.runs.get? id
      some (leave { s' with outcomes :=
        { job := .run id
          began := f.began
          started := started
          endedAt := s.base.now
          since := since started s
          sighted := started :: s.sighted
          cancelRequested := run.cancelRequestedAt.isSome
          queuedAt := run.queuedAt
          statusAfter := row.status
          queuedAfter := row.queuedAt } :: s.outcomes } tx)

/-- The queue times, before and after, of the inventory's queued refresh. -/
def place (before after : Db) (inventory : InventoryId) : Option (Time × Time) := do
  let (id, row) ← before.queuedRefresh? inventory
  let row' ← after.refreshes.get? id
  some (row.queuedAt, row'.queuedAt)

/-- Puts the refresh back in the queue, unless its wait is over. -/
def backOrEnd (id : RefreshId) (claim : Digest) (error : String) :
    Option String → RefreshFirst.Label ε
  | none => .requeueRefresh id claim storeLabel
  | some waitOver => .failRefresh id claim .failed (some (error ++ waitOver))

/-- `refresh_job`'s second transaction. -/
def finishRefresh (s : State) (tx : Nat) (f : Fetch) (id : RefreshId) (error : String)
    (started : Time) : Option State :=
  let claim := cfg.hashToken f.claimToken
  match RefreshFirst.lockedRefresh s.base id claim with
  | none => some (leave s tx)
  | some refresh => do
    let s' ← during cfg fmt started (sight started s)
      (backOrEnd storeLabel id claim error (waitOver cfg started refresh.queuedAt s))
    let row ← s'.base.db.refreshes.get? id
    some (leave { s' with outcomes :=
      { job := .refresh id
        began := f.began
        started := started
        endedAt := s.base.now
        since := since started s
        sighted := started :: s.sighted
        cancelRequested := false
        queuedAt := refresh.queuedAt
        statusAfter := row.status
        queuedAfter := row.queuedAt
        other := place s.base.db s'.base.db refresh.inventoryId } :: s.outcomes } tx)

/-! ## Steps -/

/-- A claim of something that isn't held. -/
def held (s : State) (started queuedAt : Time) (needsStore : Bool) : Bool :=
  claimHold cfg.storeWaitMinutes started queuedAt s.outage && needsStore

def step (s : State) : Label ε → Option State
  | .tick seconds => some { s with base := { s.base with now := s.base.now + seconds } }
  | .other started label =>
    if started ≤ s.base.now ∧ elsewhere label = true then during cfg fmt started s label else none
  | .sighting started => if started ≤ s.base.now then some (sight started s) else none
  | .clear => some (cleared s)
  | .claimRun started id by_ needsStore => do
    let run ← s.base.db.runs.get? id
    if started ≤ s.base.now ∧ held cfg s started run.queuedAt needsStore = false then
      during cfg fmt started s (.claimRun id by_)
    else none
  | .claimRefresh started id by_ needsStore => do
    let row ← s.base.db.refreshes.get? id
    if started ≤ s.base.now ∧ held cfg s started row.queuedAt needsStore = false then
      during cfg fmt started s (.claimRefresh id by_)
    else none
  | .fetch tx job claimToken jobToken =>
    if (s.fetches.get? tx).isNone then
      some { s with fetches := s.fetches.put tx ⟨job, claimToken, jobToken, s.base.now, .begun⟩ }
    else none
  | .build tx build readsStore => do
    let f ← s.fetches.get? tx
    match f.phase, f.job with
    | .begun, .run id => buildRun cfg fmt s tx f id build readsStore
    | .begun, .refresh id => buildRefresh cfg fmt s tx f id build readsStore
    | _, _ => none
  | .again tx => do
    let f ← s.fetches.get? tx
    match f.phase with
    | .down reason => some (move s tx f (.downAgain reason s.base.now))
    | _ => none
  | .finish tx => do
    let f ← s.fetches.get? tx
    match f.phase, f.job with
    | .downAgain reason started, .run id => finishRun cfg fmt s tx f id reason started
    | .downAgain reason started, .refresh id =>
      finishRefresh cfg fmt storeLabel s tx f id reason started
    | _, _ => none

/-- The database, from an empty one and no outage. -/
def system : Lib.System State (Label ε) where
  init s := s = {}
  step := step cfg fmt storeLabel

end

end StoreWait

end AnsiDeck
