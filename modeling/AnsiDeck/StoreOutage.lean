import AnsiDeck.Models

/-!
# While the secret store is down

`app.store_outage`: the outage is one row. Each sighting holds it for `holdSeconds`, a read that
works deletes it. While it is held, claims skip what needs the store, unless its wait is over:
the later of its queue time and the outage's start, plus the wait setting (0: no waiting).
-/

namespace AnsiDeck

namespace StoreOutage

def holdSeconds : Nat := 30

/-- Records a sighting: starts the outage, or holds it longer. -/
def seen (now : Time) : Option SecretStoreOutage → SecretStoreOutage
  | some outage => { outage with holdUntil := now + holdSeconds }
  | none => ⟨now, now + holdSeconds⟩

/-- When something queued at `queuedAt` stops waiting for an outage that began at `since`. -/
def deadline (waitMinutes : Nat) (queuedAt since : Time) : Time :=
  max queuedAt since + 60 * waitMinutes

/-- `internal_api._wait_over`: `none` while something queued at `queuedAt` may still wait for the
store; else what to add to its failure. -/
def waitOver (waitMinutes : Nat) (now queuedAt since : Time) : Option String :=
  if waitMinutes ≠ 0 ∧ now < deadline waitMinutes queuedAt since then none
  else some (if waitMinutes ≠ 0 then
    s!" (still unavailable after waiting {waitMinutes} minutes)" else "")

/-- The claim queries' hold: an outage that is held, and a wait that is not over. -/
def holds (waitMinutes : Nat) (now queuedAt : Time) (outage : Option SecretStoreOutage) : Bool :=
  waitMinutes ≠ 0 && outage.any fun o =>
    now < o.holdUntil && now < deadline waitMinutes queuedAt o.since

end StoreOutage

end AnsiDeck
