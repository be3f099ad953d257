import AnsiDeck.Queue

/-!
# Queueing and requeueing refreshes

`app.inventory_sources`: what queues a refresh of an inventory's sources, merges a request into
one that waits already, and puts a claimed refresh back. An inventory has one queued refresh at
most, so each of these may find another in its place and widens that one instead.
-/

namespace AnsiDeck

namespace InventorySources

/-- What a refresh of this scope runs for a request of that one: `none` is every source. -/
def covers : Option (Finset SourceId) → Option (Finset SourceId) → Bool
  | none, _ => true
  | some _, none => false
  | some scope, some asked => asked ⊆ scope

/-- `None if a is None or b is None else sorted(set(a) | set(b))`. -/
def widen : Option (Finset SourceId) → Option (Finset SourceId) → Option (Finset SourceId)
  | some a, some b => some (a ∪ b)
  | _, _ => none

/-- The row `enqueue_refresh` inserts. -/
def queuedRefresh (inventory : InventoryId) (now : Time) (scope : Option (Finset SourceId)) :
    InventoryRefresh where
  inventoryId := inventory
  queuedAt := now
  scope := scope

/-- `requeue_refresh`'s `claim_fields`, with the status they go with. -/
def unclaimed (status : RunStatus) (refresh : InventoryRefresh) : InventoryRefresh :=
  { refresh with
    status := status
    claimedAt := none
    workerId := none
    heartbeatAt := none
    leaseExpiresAt := none
    claimTokenHash := none
    jobTokenHash := none
    jobTokenExpiresAt := none
    stage := none }

/-- What a queued refresh becomes when a requeued one merges into it. -/
def absorbing (other refresh : InventoryRefresh) : InventoryRefresh :=
  { other with
    scope := widen other.scope refresh.scope
    queuedAt := min other.queuedAt refresh.queuedAt }

/-- What the requeued one becomes. -/
def mergedInto (other : RefreshId) (waitingFor : String) (now : Time)
    (refresh : InventoryRefresh) : InventoryRefresh :=
  { unclaimed .cancelled refresh with
    error := some s!"merged into refresh #{other} while waiting for {waitingFor}"
    finishedAt := some now }

theorem covers_refl (scope : Option (Finset SourceId)) : covers scope scope = true := by
  cases scope with
  | none => rfl
  | some a => simp [covers]

theorem covers_trans {a b c : Option (Finset SourceId)} (hab : covers a b = true)
    (hbc : covers b c = true) : covers a c = true := by
  cases a with
  | none => rfl
  | some a =>
    cases b with
    | none => exact absurd hab (by simp [covers])
    | some b =>
      cases c with
      | none => exact absurd hbc (by simp [covers])
      | some c =>
        simp only [covers, decide_eq_true_eq] at hab hbc ⊢
        exact hbc.trans hab

theorem covers_widen_left (a b : Option (Finset SourceId)) : covers (widen a b) a = true := by
  cases a with
  | none => rfl
  | some a =>
    cases b with
    | none => rfl
    | some b => simp [covers, widen]

theorem covers_widen_right (a b : Option (Finset SourceId)) : covers (widen a b) b = true := by
  cases a with
  | none => rfl
  | some a =>
    cases b with
    | none => rfl
    | some b => simp [covers, widen]

end InventorySources

end AnsiDeck
