import AnsiDeck.Lib.Dict
import Mathlib.Data.Int.Order.Basic
import Mathlib.Data.List.DropRight
import Mathlib.Order.Lattice

/-!
# The failure throttle

`FailureThrottle` of `app.hardening`: the times of every key's failures in one dictionary. A key's
times are pruned where the key is asked for, and those of all keys where the dictionary has grown,
so what it holds depends on calls about other keys. Who is blocked does not: what is pruned is out
of the window for good, so the plain log of all failures blocks the same keys (`blocked_iff_log`).
-/

namespace AnsiDeck

namespace Hardening

open Lib (Dict)

/-- Times as `time.monotonic` gives them. What has passed since one grows with the clock, also where
the subtraction rounds. -/
class Clock (τ : Type) extends LinearOrder τ, Sub τ where
  sub_le_sub : ∀ {now later : τ}, now ≤ later → ∀ t, now - t ≤ later - t

instance : Clock Int where
  toLinearOrder := Int.instLinearOrder
  toSub := inferInstance
  sub_le_sub h t := Int.sub_le_sub_right h t

/-- What the throttle is made with. -/
structure FailureThrottle (τ : Type) where
  maxFailures : Int
  window : τ

/-- `_failures`. -/
abbrev Failures (κ τ : Type) := Dict κ (List τ)

/-- The methods. -/
inductive Call (κ : Type)
  | failure (key : κ)
  | reset (key : κ)
  | blocked (key : κ)
  | clear
  deriving DecidableEq

variable {κ τ : Type} [DecidableEq κ]

/-- `d.pop(key, None)`. -/
def pop {ν : Type} (d : Dict κ ν) (key : κ) : Dict κ ν := d.filter fun k _ => k ≠ key

/-- `self._failures.get(key, [])`. -/
def times (failures : Failures κ τ) (key : κ) : List τ := (failures.get? key).getD []

section Methods

variable [Clock τ] (throttle : FailureThrottle τ) (failures : Failures κ τ)

namespace FailureThrottle

/-- `now - t < self.window`. -/
def fresh (now t : τ) : Bool := now - t < throttle.window

/-- `_recent`: the times in the window, which are all that is kept of the key. -/
def recent (key : κ) (now : τ) : List τ × Failures κ τ :=
  let recent := (times failures key).filter (throttle.fresh now)
  (recent, if recent ≠ [] then failures.set key recent else pop failures key)

def blocked (key : κ) (now : τ) : Bool × Failures κ τ :=
  let r := throttle.recent failures key now
  (decide (throttle.maxFailures ≤ r.1.length), r.2)

/-- With more keys than these, all of them are pruned. -/
def manyKeys : Nat := 10000

/-- `for stale in list(self._failures): self._recent(stale, now)`, where there are many. -/
def prune (now : τ) : Failures κ τ :=
  if manyKeys < failures.size then
    failures.keys.foldl (fun failures stale => (throttle.recent failures stale now).2) failures
  else failures

def recordFailure (key : κ) (now : τ) : Failures κ τ :=
  let failures := throttle.prune failures now
  failures.set key (times failures key ++ [now])

/-- What a call leaves, made at `now`. -/
def call (now : τ) : Call κ → Failures κ τ
  | .failure key => throttle.recordFailure failures key now
  | .reset key => pop failures key
  | .blocked key => (throttle.blocked failures key now).2
  | .clear => ∅

/-- What calls leave one after another, each made at its time. -/
def run (calls : List (τ × Call κ)) : Failures κ τ :=
  calls.foldl (fun failures c => throttle.call failures c.1 c.2) ∅

end FailureThrottle

end Methods

/-! ## The plain log -/

/-- Whether the call is the end of the key's failures. -/
def forgets (key : κ) : Call κ → Bool
  | .reset k => k = key
  | .clear => true
  | _ => false

/-- The calls since the key's last reset. -/
def sinceReset (key : κ) (calls : List (τ × Call κ)) : List (τ × Call κ) :=
  calls.rtakeWhile fun c => !forgets key c.2

/-- The times of the key's failures since its last reset. -/
def logged (key : κ) (calls : List (τ × Call κ)) : List τ :=
  ((sinceReset key calls).filter fun c => c.2 = .failure key).map Prod.fst

theorem logged_concat (key : κ) (calls : List (τ × Call κ)) (c : τ × Call κ) :
    logged key (calls ++ [c]) =
      if forgets key c.2 then []
      else if c.2 = .failure key then logged key calls ++ [c.1]
      else logged key calls := by
  rw [logged, sinceReset, List.rtakeWhile_concat]
  cases hforgets : forgets key c.2 with
  | true => rfl
  | false =>
    by_cases hc : c.2 = .failure key
    · simp [logged, sinceReset, hc]
    · simp [logged, sinceReset, hc]

/-! ## What is held of a key -/

theorem times_set (failures : Failures κ τ) (key k : κ) (l : List τ) :
    times (failures.set key l) k = if k = key then l else times failures k := by
  rw [times, Dict.get?_set]
  split
  · rfl
  · rfl

theorem times_pop (failures : Failures κ τ) (key k : κ) :
    times (pop failures key) k = if k = key then [] else times failures k := by
  have hget : (pop failures key).get? k = if k = key then none else failures.get? k := by
    refine Option.ext fun l => ?_
    rw [pop, Dict.get?_filter]
    by_cases hk : k = key
    · simp [hk]
    · simp [hk]
  rw [times, hget]
  split
  · rfl
  · rfl

namespace FailureThrottle

variable [Clock τ] {throttle : FailureThrottle τ}

theorem times_recent (failures : Failures κ τ) (key : κ) (now : τ) (k : κ) :
    times (throttle.recent failures key now).2 k =
      if k = key then (times failures key).filter (throttle.fresh now) else times failures k := by
  rw [recent]
  dsimp only
  split
  · exact times_set failures key k _
  · next hnone => rw [times_pop, not_not.1 hnone]

/-! ## Nothing is missing that could still count -/

/-- What is in the window later on was in it before. -/
theorem fresh_of_later {now later t : τ} (hle : now ≤ later) (h : throttle.fresh later t = true) :
    throttle.fresh now t = true :=
  decide_eq_true ((Clock.sub_le_sub hle t).trans_lt (of_decide_eq_true h))

theorem filter_fresh {now later : τ} (hle : now ≤ later) (l : List τ) :
    (l.filter (throttle.fresh now)).filter (throttle.fresh later) = l.filter
    (throttle.fresh later) := by
  rw [List.filter_filter]
  refine List.filter_congr fun t _ => ?_
  cases hlater : throttle.fresh later t with
  | false => rfl
  | true => rw [fresh_of_later hle hlater]; rfl

/-- From `now` on, what is held of a key and what is logged of it have the same times in the
window. -/
def Tracks (throttle : FailureThrottle τ) (failures : Failures κ τ) (log : κ → List τ) (now : τ) :
    Prop :=
  ∀ key later, now ≤ later →
    (times failures key).filter (throttle.fresh later) = (log key).filter (throttle.fresh later)

variable {failures : Failures κ τ} {log : κ → List τ} {now : τ}

theorem Tracks.mono (h : Tracks throttle failures log now) {later : τ} (hle : now ≤ later) :
    Tracks throttle failures log later :=
  fun key t ht => h key t (hle.trans ht)

/-- A time that is pruned is out of the window from then on. -/
theorem Tracks.recent (h : Tracks throttle failures log now) (key : κ) :
    Tracks throttle (throttle.recent failures key now).2 log now := by
  intro k later hle
  rw [times_recent]
  split
  · next hk =>
    subst hk
    rw [filter_fresh hle]
    exact h k later hle
  · exact h k later hle

theorem Tracks.prune (h : Tracks throttle failures log now) :
    Tracks throttle (throttle.prune failures now) log now := by
  rw [FailureThrottle.prune]
  split
  -- whichever the keys are: pruning one changes the others' entries not at all
  · generalize failures.keys = keys
    clear * - h
    induction keys generalizing failures with
    | nil => exact h
    | cons stale keys ih => exact ih (h.recent stale)
  · exact h

theorem Tracks.call {calls : List (τ × Call κ)}
    (h : Tracks throttle failures (fun key => logged key calls) now) (c : Call κ) :
    Tracks throttle (throttle.call failures now c)
    (fun key => logged key (calls ++ [(now, c)])) now := by
  intro k later hle
  dsimp only
  rw [logged_concat]
  cases c with
  | failure key =>
    -- the key's list and its log get the same time at their ends, once all the keys are pruned
    have hpruned := h.prune k later hle
    rw [FailureThrottle.call, recordFailure, times_set]
    by_cases hk : k = key
    · subst hk
      simp only [forgets, Bool.false_eq_true, if_false, if_true, List.filter_append, hpruned]
    · have hne : Call.failure key ≠ Call.failure k := fun heq => hk (Call.failure.inj heq).symm
      have hforgets : forgets k (.failure key) = false := rfl
      rw [if_neg hk, hforgets, if_neg Bool.false_ne_true, if_neg hne]
      exact hpruned
  | reset key =>
    rw [FailureThrottle.call, times_pop]
    by_cases hk : k = key
    · subst hk
      simp [forgets]
    · have hforgets : forgets k (.reset key) = false := decide_eq_false (Ne.symm hk)
      rw [if_neg hk, hforgets, if_neg Bool.false_ne_true, if_neg (by simp)]
      exact h k later hle
  | blocked key => exact h.recent key k later hle
  | clear => rfl

/-- Over a run, each call at a time that no call before it was made after. -/
theorem tracks_run (throttle : FailureThrottle τ) (calls : List (τ × Call κ)) (now : τ)
    (hclock : (calls.map Prod.fst ++ [now]).Pairwise (· ≤ ·)) :
    Tracks throttle (throttle.run calls) (fun key => logged key calls) now := by
  induction calls using List.reverseRecOn generalizing now with
  | nil => exact fun _ _ _ => rfl
  | append_singleton calls c ih =>
    -- the calls so far end at `c`'s time, and from there on the clock goes on to `now`
    rw [List.map_append, List.pairwise_append] at hclock
    have hcall := (ih c.1 hclock.1).call c.2
    rw [run, List.foldl_concat]
    exact hcall.mono (hclock.2.2 c.1 (by simp) now (List.mem_singleton_self now))

/-- **The throttle is the plain log.** A key is blocked just when it has failed often enough within
the window, of the failures since its last reset. -/
theorem blocked_iff_log (throttle : FailureThrottle τ) (calls : List (τ × Call κ))
    (key : κ) (now : τ)
    (hclock : (calls.map Prod.fst ++ [now]).Pairwise (· ≤ ·)) :
    (throttle.blocked (throttle.run calls) key now).1 = true ↔
      throttle.maxFailures ≤ (logged key calls).countP fun t => now - t < throttle.window := by
  have hsame := tracks_run throttle calls now hclock key now le_rfl
  have hcount : (logged key calls).countP (fun t => now - t < throttle.window)
      = ((logged key calls).filter (throttle.fresh now)).length := List.countP_eq_length_filter
  rw [blocked, hcount, ← hsame]
  exact decide_eq_true_iff

/-- The first of three failures is out of the window, and others' come in between. -/
theorem blocked_iff_log_late :
    ((⟨2, 300⟩ : FailureThrottle Int).blocked
        (FailureThrottle.run ⟨2, 300⟩ [(0, .failure 7), (200, .failure 8), (250, .failure 7),
          (250, .reset 8), (290, .failure 7), (310, .blocked 8)]) 7 320).1 = true :=
  (blocked_iff_log _ _ _ _ (by decide)).2 (by decide)

end FailureThrottle

end Hardening

end AnsiDeck
