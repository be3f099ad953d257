import AnsiDeck.RunQueue.Locks

/-!
# One running run an inventory, in queue order

The index of running runs holds one entry of an inventory at most, counting those of claims that
have not committed yet (`IndexOk`): an entry goes in only when there is none, and a committed row
becomes running in no other way. The order comes from the claim statement alone: it found no
earlier run of the inventory queued and none running, so each had ended, and a run that ended
never comes back.
-/

namespace AnsiDeck

namespace RunQueue

open Lib (Table)

variable {ε : Type} {cfg : Settings} {fmt : EventFormat ε}

/-! ## The unique index -/

structure IndexOk (s : State ε) : Prop where
  /-- Committed entries. -/
  running : ∀ k k' r r', s.runs.get? k = some r → s.runs.get? k' = some r' →
    r.status = .running → r'.status = .running → sameInventory r r' = true → k = k'
  /-- An entry in flight has no committed one beside it. -/
  noneRunning : ∀ i tx after k busy, s.txs.get? i = some tx → tx.work = .marked after →
    s.runs.get? k = some busy → busy.status = .running → sameInventory busy after = false
  /-- Nor another in flight. -/
  noneMarked : ∀ i j tx tx' a b, s.txs.get? i = some tx → s.txs.get? j = some tx' →
    tx.work = .marked a → tx'.work = .marked b → sameInventory a b = true → i = j

theorem IndexOk.init : IndexOk ({} : State ε) where
  running k k' r r' h := absurd h (by simp)
  noneRunning i tx after k busy h := absurd h (by simp)
  noneMarked i j tx tx' a b h := absurd h (by simp)

/-- A transaction that has no entry in the index leaves it alone. -/
theorem IndexOk.put {s : State ε} (h : IndexOk s) {i : Nat} {tx : Tx ε}
    (hwork : ∀ after, tx.work ≠ .marked after) (issued : List Digest) (picks : List Pick) :
    IndexOk { s with txs := s.txs.put i tx, issued := issued, picks := picks } := by
  have hold : ∀ j tx' row, (s.txs.put i tx).get? j = some tx' → tx'.work = .marked row →
      s.txs.get? j = some tx' := by
    intro j tx' row hj hw
    rw [Table.get?_put] at hj
    split at hj
    · obtain rfl := Option.some.inj hj
      exact absurd hw (hwork row)
    · exact hj
  exact {
    running := h.running
    noneRunning := fun j tx' after k busy hj hw =>
      h.noneRunning j tx' after k busy (hold j tx' after hj hw) hw
    noneMarked := fun j k tx₁ tx₂ a b hj hk ha hb =>
      h.noneMarked j k tx₁ tx₂ a b (hold j tx₁ a hj ha) (hold k tx₂ b hk hb) ha hb }

theorem IndexOk.remove {s : State ε} (h : IndexOk s) (i : Nat) :
    IndexOk { s with txs := s.txs.remove i } := by
  have hget : ∀ j tx, (s.txs.remove i).get? j = some tx → s.txs.get? j = some tx :=
    fun j tx hj => (Table.get?_remove_eq_some.1 hj).2
  exact {
    running := h.running
    noneRunning := fun j tx after k busy hj => h.noneRunning j tx after k busy (hget j tx hj)
    noneMarked := fun j k tx tx' a b hj hk =>
      h.noneMarked j k tx tx' a b (hget j tx hj) (hget k tx' hk) }

/-- A row that is not running leaves the index alone. -/
theorem IndexOk.write {s : State ε} (h : IndexOk s) (id : RunId) (row : Run)
    (hrow : row.status = .running →
      (∀ k busy, s.runs.get? k = some busy → k ≠ id → busy.status = .running →
        sameInventory busy row = false) ∧
      ∀ i tx after, s.txs.get? i = some tx → tx.work = .marked after →
        sameInventory row after = false) :
    IndexOk { s with runs := s.runs.put id row } where
  running k k' r r' hk hk' hr hr' hsame := by
    rw [Table.get?_put] at hk hk'
    split at hk <;> split at hk'
    · next h₁ h₂ => rw [h₁, h₂]
    · next h₁ h₂ =>
      obtain rfl := Option.some.inj hk
      have := (hrow hr).1 k' r' hk' h₂ hr'
      rw [sameInventory_comm, this] at hsame
      exact absurd hsame (by simp)
    · next h₁ h₂ =>
      obtain rfl := Option.some.inj hk'
      rw [(hrow hr').1 k r hk h₁ hr] at hsame
      exact absurd hsame (by simp)
    · exact h.running k k' r r' hk hk' hr hr' hsame
  noneRunning i tx after k busy hi hw hk hbusy := by
    change (s.runs.put id row).get? k = some busy at hk
    rw [Table.get?_put] at hk
    split at hk
    · obtain rfl := Option.some.inj hk
      exact (hrow hbusy).2 i tx after hi hw
    · exact h.noneRunning i tx after k busy hi hw hk hbusy
  noneMarked := h.noneMarked

theorem Change.index {s s' : State ε} {a : Label ε} (h : Change cfg s a s') (hb : Base s)
    (hx : IndexOk s) : IndexOk s' := by
  cases h with
  | idle now refreshes catalog => exact ⟨hx.running, hx.noneRunning, hx.noneMarked⟩
  | triggered id run new isFresh =>
    refine hx.write id run fun hrun => ?_
    simp only [fresh, Bool.and_eq_true, decide_eq_true_eq] at isFresh
    exact absurd (isFresh.1.1.1.symm.trans hrun) (by decide)
  | picked => exact hx.put (fun after hw => absurd hw (by simp)) _ _
  | marked i tx after found work noneRunning noneMarked =>
    refine ⟨hx.running, fun j tx' row k busy hj hw hk hbusy => ?_,
      fun j k tx₁ tx₂ a b hj hk ha hb hsame => ?_⟩
    · rw [Table.get?_put] at hj
      split at hj
      · obtain rfl := Option.some.inj hj
        obtain rfl := Work.marked.inj hw
        exact noneRunning k busy hk hbusy
      · exact hx.noneRunning j tx' row k busy hj hw hk hbusy
    · rw [Table.get?_put] at hj hk
      split at hj <;> split at hk
      · next h₁ h₂ => rw [h₁, h₂]
      · obtain rfl := Option.some.inj hj
        obtain rfl := Work.marked.inj ha
        rw [sameInventory_comm, noneMarked k tx₂ b hk hb] at hsame
        exact absurd hsame (by simp)
      · obtain rfl := Option.some.inj hk
        obtain rfl := Work.marked.inj hb
        rw [noneMarked j tx₁ a hj ha] at hsame
        exact absurd hsame (by simp)
      · exact hx.noneMarked j k tx₁ tx₂ a b hj hk ha hb hsame
  | locked i tx holdsNone found free ok work =>
    refine hx.put (fun after hw => ?_) _ _
    obtain ⟨c, hc⟩ | ⟨token, reason, old, hc, -⟩ :=
      work <;> exact absurd (hc.symm.trans hw) (by simp)
  | released i tx old found token reason work =>
    exact hx.put (fun after hw => absurd (work.symm.trans hw) (by simp)) _ _
  | committed i tx row returned outage label found locks did =>
    have hseen := hb.seen i tx found locks
    have hwrite := (hx.remove i).write tx.run row fun hrun => by
      -- the row comes from the index entry of its own claim, or was running before
      obtain hmarked | hrunning := did.running hrun
      · refine ⟨fun k busy hk _ hbusy => hx.noneRunning i tx row k busy found hmarked hk hbusy,
          fun j tx' after hj hw => ?_⟩
        obtain ⟨hne, hj⟩ := Table.get?_remove_eq_some.1 hj
        rw [Bool.eq_false_iff]
        exact fun hsame => hne (hx.noneMarked i j tx tx' row after found hj hmarked hw hsame).symm
      · refine ⟨fun k busy hk hne hbusy => ?_, fun j tx' after hj hw => ?_⟩
        · rw [sameInventory_comm, did.keeps.sameInventory, Bool.eq_false_iff]
          exact fun hsame => hne
            (hx.running tx.run k tx.seen busy hseen hk hrunning hbusy hsame).symm
        · obtain ⟨-, hj⟩ := Table.get?_remove_eq_some.1 hj
          rw [did.keeps.sameInventory]
          exact hx.noneRunning j tx' after tx.run tx.seen hj hw hseen hrunning
    exact ⟨hwrite.running, hwrite.noneRunning, hwrite.noneMarked⟩
  | rolledBack i => exact hx.remove i

/-! ## The queue's order -/

/-- A run ended: it is neither queued nor running. -/
def Ended (s : State ε) (id : RunId) : Prop :=
  ∃ run, s.runs.get? id = some run ∧ run.status.finished = true

/-- What held when a run was picked, and has held since. -/
structure PickOk (s : State ε) (p : Pick) (run : Run) : Prop where
  found : p.runs.get? p.run = some run
  queued : run.status = .queued
  /-- Every earlier run of its inventory had ended, and still has. -/
  ahead : ∀ k r, p.runs.get? k = some r → sameInventory r run = true →
    before k r p.run run = true → r.status.finished = true ∧ Ended s k
  /-- The refresh it waits for is neither queued nor running. -/
  refreshed : ∀ refresh status, run.waitingRefreshId = some refresh →
    p.refreshes.get? refresh = some status → status.active = false

theorem Change.keeps {s s' : State ε} {a : Label ε} (h : Change cfg s a s') (hb : Base s)
    {k : RunId} {r : Run} (hk : s.runs.get? k = some r) :
    ∃ r', s'.runs.get? k = some r' ∧ Keeps r r' ∧
      (r.status.finished = true → r'.status.finished = true) := by
  cases h with
  | triggered id run new isFresh =>
    refine ⟨r, ?_, .refl r, fun hfin => hfin⟩
    have hne : k ≠ id := by
      rintro rfl
      rw [new] at hk
      exact absurd hk (by simp)
    exact (Table.get?_put_of_ne _ _ hne).trans hk
  | committed i tx row returned outage label found locks did =>
    by_cases hkr : k = tx.run
    · subst hkr
      obtain rfl := Option.some.inj (hk.symm.trans (hb.seen i tx found locks))
      exact ⟨row, Table.get?_put_self _ _ _, did.keeps, did.finished⟩
    · exact ⟨r, (Table.get?_put_of_ne _ _ hkr).trans hk, .refl r, id⟩
  | _ => exact ⟨r, hk, .refl r, id⟩

theorem Change.ended {s s' : State ε} {a : Label ε} (h : Change cfg s a s') (hb : Base s)
    {k : RunId} (hk : Ended s k) : Ended s' k := by
  obtain ⟨r, hr, hfin⟩ := hk
  obtain ⟨r', hr', -, hfin'⟩ := h.keeps hb hr
  exact ⟨r', hr', hfin' hfin⟩

/-- What the statement found is what `eligible` says. -/
theorem pickOk_of_picks {s : State ε} {started : Time} {caps : Caps} {id : RunId} {run : Run}
    (hfound : s.runs.get? id = some run) (hpicks : picks cfg s started caps id run = true)
    {s' : State ε} (hruns : s'.runs = s.runs) :
    PickOk s' ⟨id, s.runs, s.refreshes⟩ run := by
  obtain ⟨helig, -, hqueued⟩ := queued_of_picks hpicks
  simp only [eligible, Bool.and_eq_true, Bool.not_eq_true'] at helig
  obtain ⟨⟨⟨⟨⟨⟨⟨-, hbusy⟩, hrefresh⟩, -⟩, -⟩, -⟩, -⟩, hahead⟩ := helig
  refine ⟨hfound, hqueued, fun k r hk hsame hbefore => ?_, fun refresh status hw hstatus => ?_⟩
  · have hnotRunning := Table.any_eq_false_iff.mp hbusy k r hk
    have hnotQueued := Table.any_eq_false_iff.mp hahead k r hk
    simp only [hsame, Bool.true_and, decide_eq_false_iff_not] at hnotRunning
    simp only [hsame, hbefore, Bool.true_and, Bool.and_true, decide_eq_false_iff_not] at hnotQueued
    have hfin : r.status.finished = true := RunStatus.finished_eq_true.mpr ⟨hnotQueued, hnotRunning⟩
    exact ⟨hfin, r, by rw [hruns]; exact hk, hfin⟩
  · change s.refreshes.get? refresh = some status at hstatus
    rw [hw, Option.bind_some, hstatus] at hrefresh
    simpa using hrefresh

/-! ## Runs of the system -/

structure QueueOk (s : State ε) : Prop where
  base : Base s
  index : IndexOk s
  picks : ∀ p ∈ s.picks, ∃ run, PickOk s p run

theorem queueOk_step {s s' : State ε} {a : Label ε} (h : QueueOk s)
    (hstep : step cfg fmt s a = some s') : QueueOk s' := by
  have hchange := step_change h.base hstep
  refine ⟨hchange.base h.base, hchange.index h.base h.index, fun p hp => ?_⟩
  have hkept : p ∈ s.picks → ∃ run, PickOk s' p run := by
    intro hmem
    obtain ⟨run, hok⟩ := h.picks p hmem
    exact ⟨run, hok.found, hok.queued, fun k r hk hsame hbefore =>
      ⟨(hok.ahead k r hk hsame hbefore).1,
        hchange.ended h.base (hok.ahead k r hk hsame hbefore).2⟩, hok.refreshed⟩
  cases hchange with
  | picked i started id run workerId caps claimToken jobToken new found picks =>
    rcases List.mem_cons.mp hp with rfl | hp
    · exact ⟨run, pickOk_of_picks found picks rfl⟩
    · exact hkept hp
  | _ => exact hkept hp

theorem queueOk_inductive (cfg : Settings) (fmt : EventFormat ε) :
    Lib.System.Inductive (system cfg fmt) Lib.anyStep QueueOk where
  init s hs := by
    obtain rfl : s = {} := hs
    exact ⟨.init, .init, fun p hp => absurd hp (by simp)⟩
  step _ _ _ hi _ hstep := queueOk_step hi hstep

/-- **The run queue is safe.** In every state, two running runs are of different inventories;
every run a claim statement ever picked was queued, with each earlier run of its inventory ended
(and still ended now) and the refresh it waits for over; and whatever happens next, a run keeps
its place in the queue. -/
theorem queue_safe {s : State ε} (h : (system cfg fmt).Reachable s) :
    (∀ k k' r r', s.runs.get? k = some r → s.runs.get? k' = some r' →
      r.status = .running → r'.status = .running → sameInventory r r' = true → k = k') ∧
    (∀ p ∈ s.picks, ∃ run, PickOk s p run) ∧
    ∀ t, (system cfg fmt).Path Lib.anyStep s t → ∀ k r, s.runs.get? k = some r →
      ∃ r', t.runs.get? k = some r' ∧ r'.queuedAt = r.queuedAt ∧
        r'.inventoryId = r.inventoryId := by
  have hok := (queueOk_inductive cfg fmt).of_reachable h
  refine ⟨hok.index.running, hok.picks, fun t hp k r hk => ?_⟩
  have hrel := hp.rel (I := QueueOk)
    (R := fun a b => ∀ k r, a.runs.get? k = some r → ∃ r', b.runs.get? k = some r' ∧ Keeps r r')
    (fun _ _ _ hi _ hstep => queueOk_step hi hstep) (fun _ k r hk => ⟨r, hk, .refl r⟩)
    (fun a b l c hi hab _ hstep k r hk => by
      obtain ⟨r', hr', hkeeps⟩ := hab k r hk
      obtain ⟨r'', hr'', hkeeps', -⟩ := (step_change hi.base hstep).keeps hi.base hr'
      exact ⟨r'', hr'', hkeeps.trans hkeeps'⟩) hok
  obtain ⟨r', hr', hkeeps⟩ := hrel k r hk
  exact ⟨r', hr', hkeeps.queuedAt, hkeeps.inventoryId⟩

/-! ## Two runs of one inventory -/

/-- Tokens are their own digests, and the store may be waited for. -/
def queueCfg : Settings where
  hashToken := id
  storeWaitMinutes := 30

/-- A run as it is triggered, with everything it needs. -/
def triggered : Run where
  inventoryId := some 7
  queuedAt := 0
  playbookSnapshot := some "- hosts: all"
  playbookId := some 1
  credentialId := some 1

/-- Run 1 is triggered and claimed. -/
def claimFirst : List (Label Nat) :=
  [.trigger 1 triggered, .pick 0 0 1 "worker" ⟨true, true, true⟩ "claim A" "job A",
    .mark 0, .commit 0]

/-- Run 2 of the same inventory is picked when run 1 has been completed. -/
def claimSecond : List (Label Nat) :=
  claimFirst ++
    [.trigger 2 triggered, .lock 1 0 1 (.complete "claim A" ⟨0, .success, some 0, none⟩), .commit 1,
      .pick 2 0 2 "worker" ⟨true, true, true⟩ "claim B" "job B"]

theorem queue_safe_second :
    let s := ((system queueCfg byteFormat).run Lib.anyStep {} claimSecond).get rfl
    (∀ k k' r r', s.runs.get? k = some r → s.runs.get? k' = some r' →
      r.status = .running → r'.status = .running → sameInventory r r' = true → k = k') ∧
    (∀ p ∈ s.picks, ∃ run, PickOk s p run) ∧
    ∀ t, (system queueCfg byteFormat).Path Lib.anyStep s t → ∀ k r, s.runs.get? k = some r →
      ∃ r', t.runs.get? k = some r' ∧ r'.queuedAt = r.queuedAt ∧ r'.inventoryId = r.inventoryId :=
  queue_safe (Lib.System.ReachableBy.of_isSome rfl claimSecond rfl)

end RunQueue

end AnsiDeck
