import AnsiDeck.Lib.Decimal
import AnsiDeck.Lib.Json
import AnsiDeck.Lib.System
import AnsiDeck.Lib.Table
import AnsiDeck.Models

/-!
# Alerts

`app.notifications.alerts` and the checks of `app.notifications.ops` that raise and clear alerts, in
the transactions of their callers. A row of `notification_alerts` is an alert that is raised:
raising inserts the row unless there is one, clearing deletes it, and only who did it emits the
event. Any number of transactions is open at a time. What one has inserted or deleted it holds until
it ends: an insert of another waits for it, and so does a delete of a row that is being deleted; one
that is being inserted is not seen yet. A check in a savepoint may fail and leave the rest of its
transaction to go on.

What a check finds (who is silent, what waits) is any, so the conditions may change in any order.

Ghosts: the journal also has the alerts that were closed without an event.
-/

namespace AnsiDeck

namespace Notifications

namespace Alerts

open Lib (Json Str str Table decimal)

inductive EventName
  | inventoryRefreshFailed
  | workerOffline
  | workerUnisolated
  | workerUnfiltered
  | queueStuck
  | secretsUnavailable
  deriving DecidableEq

def EventName.value : EventName → Str
  | inventoryRefreshFailed => str "inventory.refresh_failed"
  | workerOffline => str "worker.offline"
  | workerUnisolated => str "worker.unisolated"
  | workerUnfiltered => str "worker.unfiltered"
  | queueStuck => str "queue.stuck"
  | secretsUnavailable => str "secrets.unavailable"

/-- `notification_alerts.key`. -/
inductive AlertKey
  | workerOffline (worker : Str)
  | workerUnisolated (worker : Str)
  | workerUnfiltered (worker : Str)
  | queueStuck
  | secretsUnavailable
  | inventoryRefreshFailed (inventory : InventoryId)
  deriving DecidableEq

namespace AlertKey

/-- `f"{event}:{subject}"`, or the event alone. -/
def text : AlertKey → Str
  | workerOffline worker => EventName.workerOffline.value ++ 58 :: worker
  | workerUnisolated worker => EventName.workerUnisolated.value ++ 58 :: worker
  | workerUnfiltered worker => EventName.workerUnfiltered.value ++ 58 :: worker
  | queueStuck => EventName.queueStuck.value
  | secretsUnavailable => EventName.secretsUnavailable.value
  | inventoryRefreshFailed inventory =>
    EventName.inventoryRefreshFailed.value ++ 58 :: decimal inventory

def name : AlertKey → EventName
  | workerOffline _ => .workerOffline
  | workerUnisolated _ => .workerUnisolated
  | workerUnfiltered _ => .workerUnfiltered
  | queueStuck => .queueStuck
  | secretsUnavailable => .secretsUnavailable
  | inventoryRefreshFailed _ => .inventoryRefreshFailed

/-- The first ten characters of an event's name tell it from the others. -/
theorem take_text (key : AlertKey) : key.text.take 10 = key.name.value.take 10 := by
  cases key with
  | workerOffline _ => rfl
  | workerUnisolated _ => rfl
  | workerUnfiltered _ => rfl
  | queueStuck => rfl
  | secretsUnavailable => rfl
  | inventoryRefreshFailed _ => rfl

theorem name_of_take : ∀ {a b : EventName}, a.value.take 10 = b.value.take 10 → a = b := by
  intro a b h
  cases a <;> cases b <;> first | rfl | exact absurd h (by decide)

/-- Different alerts have different keys. -/
theorem text_injective : Function.Injective text := by
  intro a b h
  have hname : a.name = b.name := name_of_take (by rw [← take_text, h, take_text])
  cases a with
  | workerOffline worker =>
    cases b with
    | workerOffline worker' => rw [(List.cons.inj (List.append_cancel_left h)).2]
    | _ => cases hname
  | workerUnisolated worker =>
    cases b with
    | workerUnisolated worker' => rw [(List.cons.inj (List.append_cancel_left h)).2]
    | _ => cases hname
  | workerUnfiltered worker =>
    cases b with
    | workerUnfiltered worker' => rw [(List.cons.inj (List.append_cancel_left h)).2]
    | _ => cases hname
  | queueStuck =>
    cases b with
    | queueStuck => rfl
    | _ => cases hname
  | secretsUnavailable =>
    cases b with
    | secretsUnavailable => rfl
    | _ => cases hname
  | inventoryRefreshFailed inventory =>
    cases b with
    | inventoryRefreshFailed inventory' =>
      have hdecimal : decimal inventory = decimal inventory' :=
        (List.cons.inj (List.append_cancel_left h)).2
      have heq : inventory = inventory' := by
        rw [← Lib.ofDigits_decimal inventory, hdecimal, Lib.ofDigits_decimal]
      rw [heq]
    | _ => cases hname

end AlertKey

/-- The column's limit. -/
def maxKey : Nat := 200

/-- What `emit` is called with. -/
structure Event where
  name : EventName
  project : Option Nat
  data : List (String × Json)

/-- The `state` of an all-clear. -/
def resolved : Str := str "resolved"

namespace Event

def text (e : Event) (key : String) : Option Str :=
  match e.data.lookup key with
  | some (.str s) => some s
  | _ => none

def number (e : Event) (key : String) : Option Nat :=
  match e.data.lookup key with
  | some (.int n) => some n.toNat
  | _ => none

/-- The alert that the event is about, by its name and its data. -/
def key (e : Event) : Option AlertKey :=
  match e.name with
  | .workerOffline => (e.text "worker").map .workerOffline
  | .workerUnisolated => (e.text "worker").map .workerUnisolated
  | .workerUnfiltered => (e.text "worker").map .workerUnfiltered
  | .queueStuck => some .queueStuck
  | .secretsUnavailable => some .secretsUnavailable
  | .inventoryRefreshFailed => (e.number "inventory_id").map .inventoryRefreshFailed

/-- Whether it is an all-clear. -/
def isResolved (e : Event) : Bool := e.text "state" = some resolved

end Event

/-! ## The checks -/

/-- Why an alert is closed without an event: what it was about is fixed, or its worker forgotten. -/
inductive Silence
  | fixed
  | forgotten
  deriving DecidableEq

/-- A statement and what is done with what it returns. `emit` writes only what its own transaction
commits, so it is one step with the statement before it. -/
inductive Stmt
  /-- `if raise_alert(db, key): emit(db, ..)`. -/
  | raise (key : AlertKey) (event : Event)
  /-- `if clear_alert(db, key): emit(db, ..)`. -/
  | clear (key : AlertKey) (event : Event)
  /-- `clear_alert(db, key)`, or one of the keys of `clear_alerts`. -/
  | silence (key : AlertKey) (why : Silence)

def workerSeen (workerId : Str) (slots : Nat) (isolated egressFiltered : Option Bool) : List Stmt :=
  let worker := workerId.take 255
  let unisolated := AlertKey.workerUnisolated worker
  let unfiltered := AlertKey.workerUnfiltered worker
  .clear (.workerOffline worker) ⟨.workerOffline, none,
      [("state", .str resolved), ("worker", .str worker), ("slots", .int slots)]⟩ ::
    ((match isolated with
      | some false => [.raise unisolated ⟨.workerUnisolated, none, [("worker", .str worker)]⟩]
      | some true => [.silence unisolated .fixed]
      | none => []) ++
    -- Only for isolated workers: an unisolated one has the alert above.
    if isolated = some true ∧ egressFiltered = some false then
      [.raise unfiltered ⟨.workerUnfiltered, none, [("worker", .str worker)]⟩]
    else if egressFiltered = some true ∨ isolated = some false then [.silence unfiltered .fixed]
    else [])

/-- A worker that has not reported in for long, but is not forgotten yet. -/
structure SilentWorker where
  id : Str
  slots : Nat
  lastSeenAt : Option Str

/-- A text, or null. -/
def jsonText : Option Str → Json
  | some s => .str s
  | none => .null

def checkWorkers (silent : List SilentWorker) : List Stmt :=
  silent.map fun worker => .raise (.workerOffline worker.id) ⟨.workerOffline, none,
    [("state", .str (str "offline")), ("worker", .str worker.id), ("slots", .int worker.slots),
      ("last_seen_at", jsonText worker.lastSeenAt)]⟩

/-- A run that has waited for too long, and for what. -/
structure StuckRun where
  id : RunId
  queuedAt : Option Str
  reason : Str

def checkQueue (minutes : Nat) : List StuckRun → List Stmt
  | [] => [.clear .queueStuck ⟨.queueStuck, none, [("state", .str resolved)]⟩]
  | oldest :: others =>
    [.raise .queueStuck ⟨.queueStuck, none,
      [("state", .str (str "stuck")), ("waiting", .int (others.length + 1)),
        ("minutes", .int minutes), ("oldest_run_id", .int oldest.id),
        ("queued_at", jsonText oldest.queuedAt),
        ("reason", .str oldest.reason)]⟩]

def secretStoreFailed (kind label : Str) : List Stmt :=
  [.raise .secretsUnavailable ⟨.secretsUnavailable, none,
    [("kind", .str kind), ("label", .str (label.take 60))]⟩]

def secretStoreOk (label : Str) : List Stmt :=
  [.clear .secretsUnavailable ⟨.secretsUnavailable, none,
    [("state", .str resolved), ("label", .str (label.take 60))]⟩]

/-- An inventory, and its project's name. -/
structure RefreshedInventory where
  id : InventoryId
  name : Str
  projectId : Nat
  project : Option Str

def inventoryData (inventory : RefreshedInventory) : List (String × Json) :=
  [("inventory_id", .int inventory.id), ("inventory", .str inventory.name),
    ("project", jsonText inventory.project)]

def inventoryRefreshFailed (inventory : RefreshedInventory) (error : Str) : List Stmt :=
  [.raise (.inventoryRefreshFailed inventory.id) ⟨.inventoryRefreshFailed, some inventory.projectId,
    inventoryData inventory ++ [("error", .str (error.take 300))]⟩]

def inventoryRefreshOk (inventory : RefreshedInventory) : List Stmt :=
  [.clear (.inventoryRefreshFailed inventory.id) ⟨.inventoryRefreshFailed, some inventory.projectId,
    inventoryData inventory ++ [("state", .str resolved)]⟩]

/-! ## Who runs them -/

/-- `OUTAGE_KINDS`. -/
def outageKinds : List Str := ["unreachable", "tls", "sealed", "auth_failed"].map str

/-- What a transaction does about alerts, each with what it found. -/
inductive Check
  /-- `record_worker`, on a claim or a heartbeat. -/
  | seen (workerId : Str) (slots : Nat) (isolated egressFiltered : Option Bool)
  /-- The reaper, about the workers it has deleted. -/
  | pruned (gone : List Str)
  | workers (silent : List SilentWorker)
  | queue (minutes : Nat) (stuck : List StuckRun)
  /-- `_probe_secret_store`, and the kind of error. -/
  | probe (label : Str) (errorKind : Option Str)
  /-- `_store_alert`, where a job could not be built. -/
  | storeAlert (kind label : Str)
  /-- `end_refresh`: of which inventory, and whether another of its sources is still failing. -/
  | endRefresh (inventory : Option RefreshedInventory) (status : RunStatus) (error : Option Str)
      (failing : Bool)

/-- The statements in or outside of a savepoint. -/
structure Block where
  nested : Bool
  stmts : List Stmt

/-- `error or status`. -/
def errorOr (error : Option Str) (status : RunStatus) : Str :=
  match error with
  | none | some [] => str status.value
  | some e => e

def Check.block : Check → Block
  | .seen workerId slots isolated egressFiltered =>
    ⟨true, workerSeen workerId slots isolated egressFiltered⟩
  | .pruned gone => ⟨false, gone.flatMap fun w =>
      [.silence (.workerOffline w) .forgotten, .silence (.workerUnisolated w) .forgotten,
        .silence (.workerUnfiltered w) .forgotten]⟩
  | .workers silent => ⟨true, checkWorkers silent⟩
  | .queue minutes stuck => ⟨true, checkQueue minutes stuck⟩
  | .probe label none => ⟨false, secretStoreOk label⟩
  | .probe label (some kind) =>
    ⟨false, if outageKinds.contains kind then secretStoreFailed kind label else []⟩
  | .storeAlert kind label => ⟨true, secretStoreFailed kind label⟩
  | .endRefresh none _ _ _ => ⟨true, []⟩
  | .endRefresh (some inventory) status error failing =>
    ⟨true, if status = .success then if failing then [] else inventoryRefreshOk inventory
      else inventoryRefreshFailed inventory (errorOr error status)⟩

/-! ## Transactions -/

abbrev TxId := Nat

/-- What was emitted, with the number that the sequence gave it, or closed without an event. -/
inductive Entry
  | emitted (id : Nat) (event : Event)
  | silenced (key : AlertKey) (why : Silence)

/-- What a transaction would commit: the rows it inserted (`true`) and deleted, and its entries. -/
structure Work where
  rows : AlertKey → Option Bool
  journal : List Entry

structure Tx where
  work : Work
  /-- The work at the savepoint. -/
  saved : Option Work
  stmts : List Stmt
  blocks : List Block

structure State where
  /-- `notification_alerts`: the keys that have a row. -/
  alerts : AlertKey → Bool
  journal : List Entry
  nextId : Nat
  txs : Table TxId Tx

inductive Label
  | begin (id : TxId) (checks : List Check)
  /-- The next check, behind its savepoint if it has one. -/
  | enter (id : TxId)
  /-- The next statement, on rows that no other transaction holds. -/
  | exec (id : TxId)
  /-- The next statement, a delete, where another holds the row: one that is being inserted is not
  seen, and one that was being deleted is gone when the other has ended. -/
  | miss (id : TxId)
  /-- An exception inside the savepoint: back to it. -/
  | fail (id : TxId)
  | abort (id : TxId)
  | commit (id : TxId)

def Work.write (w : Work) (key : AlertKey) (row : Bool) (entry : Entry) : Work where
  rows k := if k = key then some row else w.rows k
  journal := w.journal ++ [entry]

namespace State

/-- No other transaction has changed the row. -/
def free (s : State) (id : TxId) (key : AlertKey) : Bool :=
  s.txs.all fun i tx => i = id || (tx.work.rows key).isNone

/-- Whether the row is there for a transaction with this work. -/
def there (s : State) (w : Work) (key : AlertKey) : Bool := (w.rows key).getD (s.alerts key)

def putTx (s : State) (id : TxId) (tx : Tx) : State := { s with txs := s.txs.put id tx }

end State

def exec (s : State) (id : TxId) (tx : Tx) : Option State :=
  match tx.stmts with
  | [] => none
  | .raise key event :: stmts =>
    if !s.free id key || maxKey < key.text.length then none
    else if s.there tx.work key then some (s.putTx id { tx with stmts := stmts })
    else some { s.putTx id { tx with
        work := tx.work.write key true (.emitted s.nextId event)
        stmts := stmts } with
      nextId := s.nextId + 1 }
  | .clear key event :: stmts =>
    if !s.free id key then none
    else if s.there tx.work key then some { s.putTx id { tx with
        work := tx.work.write key false (.emitted s.nextId event)
        stmts := stmts } with
      nextId := s.nextId + 1 }
    else some (s.putTx id { tx with stmts := stmts })
  | .silence key why :: stmts =>
    if !s.free id key then none
    else if s.there tx.work key then some (s.putTx id { tx with
        work := tx.work.write key false (.silenced key why)
        stmts := stmts })
    else some (s.putTx id { tx with stmts := stmts })

def miss (s : State) (id : TxId) (tx : Tx) : Option State :=
  match tx.stmts with
  | .clear key _ :: stmts | .silence key _ :: stmts =>
    if s.free id key then none else some (s.putTx id { tx with stmts := stmts })
  | _ => none

def step (s : State) : Label → Option State
  | .begin id checks =>
    match s.txs.get? id with
    | some _ => none
    | none => some (s.putTx id ⟨⟨fun _ => none, []⟩, none, [], checks.map Check.block⟩)
  | .enter id => do
    let tx ← s.txs.get? id
    match tx.stmts, tx.blocks with
    | [], block :: blocks => some (s.putTx id
        ⟨tx.work, if block.nested then some tx.work else none, block.stmts, blocks⟩)
    | _, _ => none
  | .exec id => do exec s id (← s.txs.get? id)
  | .miss id => do miss s id (← s.txs.get? id)
  | .fail id => do
    let tx ← s.txs.get? id
    let work ← tx.saved
    some (s.putTx id { tx with work := work, saved := none, stmts := [] })
  | .abort id => do
    let _ ← s.txs.get? id
    some { s with txs := s.txs.remove id }
  | .commit id => do
    let tx ← s.txs.get? id
    match tx.stmts, tx.blocks with
    | [], [] => some { s with
        alerts := s.there tx.work
        journal := s.journal ++ tx.work.journal
        txs := s.txs.remove id }
    | _, _ => none

def init : State := ⟨fun _ => false, [], 0, ∅⟩

def system : Lib.System State Label where
  init s := s = init
  step := step

end Alerts

end Notifications

end AnsiDeck
