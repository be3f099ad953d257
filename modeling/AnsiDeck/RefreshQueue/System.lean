import AnsiDeck.Lib.System
import AnsiDeck.Lib.Table
import AnsiDeck.InventorySources

/-!
# One inventory's refresh queue, statement by statement

The refreshes of one inventory, with `enqueue_refresh` calls, claims and requeues of it in any
number and order. Nothing here reads or writes another inventory's rows.

`enqueue_refresh` inserts a queued refresh unless there is one (`insert`), else selects that one
for update to widen it (`select`, and `selectLocked` when it had to wait for the row), and when
it is gone by then inserts once more (`insert` again). A statement sees what is committed when it
starts. An insert waits for another transaction's uncommitted entry in the unique index, and for a
claim in flight of the row it conflicts with; a select for update waits for the row's lock and
then looks at its newest version only: a refresh queued meanwhile is not found.

Ghosts: `claims`, the refreshes in the order they were claimed, so that "claimed after the call
began" is to be among the claims after the first `began`; and `answered`, the calls that have
committed.
-/

namespace AnsiDeck

namespace RefreshQueue

open Lib (Table)
open InventorySources

/-- A call of `enqueue_refresh`: the scope it asks for, and how many claims there had been. -/
structure Asked where
  scope : Option (Finset SourceId)
  began : Nat

/-- Where an `enqueue_refresh` is. -/
inductive Enqueue
  | begun
  | refused
  | waiting (refresh : RefreshId)
  | merging (refresh : RefreshId) (scope : Option (Finset SourceId))
  | noneQueued
  | inserted (refresh : RefreshId) (row : InventoryRefresh)
  | refusedAgain

/-- Where a `requeue_refresh` is. -/
inductive Requeue
  | begun
  | queuedAgain
  | conflicted
  | waiting (other : RefreshId)
  | merging (other : RefreshId) (seen : InventoryRefresh)

inductive Work
  | enqueue (asked : Asked) (phase : Enqueue)
  | claim (refresh : RefreshId) (started : Time) (by_ : Claimant)
  | requeue (refresh : RefreshId) (seen : InventoryRefresh) (phase : Requeue)

/-- The committed rows a transaction holds the locks of. -/
def Work.holds : Work → List RefreshId
  | .enqueue _ (.merging refresh _) => [refresh]
  | .enqueue _ _ => []
  | .claim refresh _ _ => [refresh]
  | .requeue refresh _ (.merging other _) => [refresh, other]
  | .requeue refresh _ _ => [refresh]

/-- Whether it has an uncommitted entry in the index of queued refreshes. -/
def Work.entry : Work → Bool
  | .enqueue _ (.inserted _ _) | .requeue _ _ .queuedAgain => true
  | _ => false

structure State where
  now : Time := 0
  refreshes : Table RefreshId InventoryRefresh := ∅
  txs : Table Nat Work := ∅
  claims : List RefreshId := []
  answered : List Asked := []

inductive Label
  | tick (seconds : Nat)
  | finish (refresh : RefreshId) (status : RunStatus)
  | beginEnqueue (tx : Nat) (scope : Option (Finset SourceId))
  /-- The insert, with the id it would give its row. -/
  | insert (tx : Nat) (id : RefreshId)
  | select (tx : Nat)
  | selectLocked (tx : Nat)
  | claim (tx : Nat) (refresh : RefreshId) (by_ : Claimant)
  | beginRequeue (tx : Nat) (refresh : RefreshId)
  | requeue (tx : Nat)
  | commit (tx : Nat)
  | rollback (tx : Nat)

section

variable (inventory : InventoryId) (lease : Nat)

def locked (s : State) (refresh : RefreshId) : Bool :=
  s.txs.any fun _ work => refresh ∈ work.holds

/-- The committed queued refresh. -/
def queued? (s : State) : Option (RefreshId × InventoryRefresh) :=
  (s.refreshes.entries.find? fun e => e.2.status = .queued).map fun e => (e.1, e.2)

/-- Whether an entry in the index of queued refreshes must wait for a transaction in flight:
another uncommitted entry, or a claim of the queued row. -/
def waits (s : State) : Bool :=
  s.txs.any fun _ work => work.entry || match work with
    | .claim _ _ _ => true
    | _ => false

/-- An id no row has, committed or not. -/
def unused (s : State) (id : RefreshId) : Bool :=
  (s.refreshes.get? id).isNone && s.txs.all fun _ work => match work with
    | .enqueue _ (.inserted id' _) => id' ≠ id
    | _ => true

def setWork (s : State) (tx : Nat) (work : Work) : State := { s with txs := s.txs.put tx work }

/-- `INSERT .. ON CONFLICT DO NOTHING`; `next` is where a conflict leads. -/
def insert (s : State) (tx : Nat) (asked : Asked) (id : RefreshId) (next : Enqueue) :
    Option State :=
  if waits s then none
  else match queued? s with
    | some _ => some (setWork s tx (.enqueue asked next))
    | none =>
      if unused s id then
        some (setWork s tx
          (.enqueue asked (.inserted id (queuedRefresh inventory s.now asked.scope))))
      else none

/-- The row is locked: it widens to what was asked for. -/
def merging (asked : Asked) (refresh : RefreshId) (row : InventoryRefresh) : Work :=
  .enqueue asked (.merging refresh (widen row.scope asked.scope))

def commitWork (s : State) (tx : Nat) : Work → Option State
  | .enqueue asked (.inserted id row) => some { s with
      refreshes := s.refreshes.put id row
      txs := s.txs.remove tx
      answered := asked :: s.answered }
  | .enqueue asked (.merging id scope) => some { s with
      refreshes := s.refreshes.modify id fun row => { row with scope := scope }
      txs := s.txs.remove tx
      answered := asked :: s.answered }
  | .enqueue asked .refusedAgain => some { s with
      txs := s.txs.remove tx
      answered := asked :: s.answered }
  | .claim id started by_ => some { s with
      refreshes := s.refreshes.modify id (claimedRefresh lease started by_)
      txs := s.txs.remove tx
      claims := s.claims ++ [id] }
  | .requeue id _ .queuedAgain => some { s with
      refreshes := s.refreshes.modify id (unclaimed .queued)
      txs := s.txs.remove tx }
  | .requeue id seen (.merging other _) => some { s with
      refreshes := (s.refreshes.modify other fun row => absorbing row seen).modify id
        (mergedInto other "the secret store" s.now)
      txs := s.txs.remove tx }
  | _ => none

@[grind =] def step (s : State) : Label → Option State
  | .tick seconds => some { s with now := s.now + seconds }
  | .finish id status => do
    let row ← s.refreshes.get? id
    if row.status = .running && !locked s id && status.finished then
      some { s with refreshes := s.refreshes.put id { row with status := status } }
    else none
  | .beginEnqueue tx scope =>
    if (s.txs.get? tx).isNone then
      some (setWork s tx (.enqueue ⟨scope, s.claims.length⟩ .begun))
    else none
  | .insert tx id => match s.txs.get? tx with
    | some (.enqueue asked .begun) => insert inventory s tx asked id .refused
    | some (.enqueue asked .noneQueued) => insert inventory s tx asked id .refusedAgain
    | _ => none
  | .select tx => match s.txs.get? tx with
    | some (.enqueue asked .refused) => match queued? s with
      | none => some (setWork s tx (.enqueue asked .noneQueued))
      | some (id, row) =>
        if locked s id then some (setWork s tx (.enqueue asked (.waiting id)))
        else some (setWork s tx (merging asked id row))
    | some (.requeue id seen .conflicted) => match queued? s with
      | none => none
      | some (other, row) =>
        if locked s other then some (setWork s tx (.requeue id seen (.waiting other)))
        else some (setWork s tx (.requeue id seen (.merging other row)))
    | _ => none
  | .selectLocked tx => match s.txs.get? tx with
    | some (.enqueue asked (.waiting id)) => do
      let row ← s.refreshes.get? id
      if locked s id then none
      else if row.status = .queued then some (setWork s tx (merging asked id row))
      else some (setWork s tx (.enqueue asked .noneQueued))
    | some (.requeue id seen (.waiting other)) => do
      let row ← s.refreshes.get? other
      if !locked s other && row.status = .queued then
        some (setWork s tx (.requeue id seen (.merging other row)))
      else none
    | _ => none
  | .claim tx id by_ => do
    let row ← s.refreshes.get? id
    if (s.txs.get? tx).isNone && row.status = .queued && !locked s id &&
        !(s.refreshes.any fun _ busy => busy.status = .running) then
      some (setWork s tx (.claim id s.now by_))
    else none
  | .beginRequeue tx id => do
    let row ← s.refreshes.get? id
    if (s.txs.get? tx).isNone && row.status = .running && !locked s id then
      some (setWork s tx (.requeue id row .begun))
    else none
  | .requeue tx => match s.txs.get? tx with
    | some (.requeue id seen .begun) =>
      if waits s then none
      else match queued? s with
        | some _ => some (setWork s tx (.requeue id seen .conflicted))
        | none => some (setWork s tx (.requeue id seen .queuedAgain))
    | _ => none
  | .commit tx => (s.txs.get? tx).bind (commitWork lease s tx)
  | .rollback tx => (s.txs.get? tx).map fun _ => { s with txs := s.txs.remove tx }

/-- The queue of one inventory, from no refresh at all. -/
def system : Lib.System State Label where
  init s := s = {}
  step := step inventory lease

end

end RefreshQueue

end AnsiDeck
