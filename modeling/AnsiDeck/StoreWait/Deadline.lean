import AnsiDeck.InventorySources.Release
import AnsiDeck.StoreWait.System

/-!
# The wait for the secret store

One deadline decides everything: the later of the job's queue time and the outage's start, plus
the wait setting. Until then a failed fetch puts its job back, with its queue time, and the claims
skip it; from then on a failed fetch ends it. A refresh is put back into one queued meanwhile, if
there is one, which takes the earlier of both queue times.
-/

namespace AnsiDeck

namespace StoreWait

open Lib (Table)
open InventorySources (Db)
open InternalApi (owns)
open StoreOutage (deadline)

variable {ε : Type} {cfg : RunQueue.Settings} {fmt : EventFormat ε} {storeLabel : String}

/-! ## The deadline, in SQL and in Python -/

theorem greatest_eq (a b : Time) : greatest a b = max a b := by
  unfold greatest
  split <;> lia

theorem greatest_add (waitMinutes : Nat) (queuedAt since : Time) :
    greatest queuedAt since + makeInterval waitMinutes = deadline waitMinutes queuedAt since := by
  unfold makeInterval deadline
  rw [greatest_eq, Nat.mul_comm]

/-- With a wait setting, something may still wait until its deadline. -/
theorem waitOver_eq_none {waitMinutes : Nat} (hwait : 0 < waitMinutes) {now queuedAt since : Time} :
    StoreOutage.waitOver waitMinutes now queuedAt since = none ↔
      now < deadline waitMinutes queuedAt since := by
  have hne : waitMinutes ≠ 0 := by omega
  unfold StoreOutage.waitOver
  by_cases h : now < deadline waitMinutes queuedAt since
  · rw [if_pos ⟨hne, h⟩]
    exact iff_of_true rfl h
  · rw [if_neg fun hboth => h hboth.2]
    exact iff_of_false (Option.some_ne_none _) h

/-- The claims hold back what `_wait_over` lets wait, while the outage is held. -/
theorem claimHold_iff {waitMinutes : Nat} (hwait : 0 < waitMinutes) (now queuedAt : Time)
    (outage : Option SecretStoreOutage) :
    claimHold waitMinutes now queuedAt outage = true ↔ ∃ o, outage = some o ∧ now < o.holdUntil ∧
      StoreOutage.waitOver waitMinutes now queuedAt o.since = none := by
  unfold claimHold
  cases outage with
  | none => simp
  | some o => simp [hwait, greatest_add, waitOver_eq_none hwait]

/-! ## A refresh's failure -/

/-- A failed refresh's end never raises: the runs that wait for it fail. -/
theorem endRefresh_failed (fmt : EventFormat ε) (now : Time) (db : Db) (id : RefreshId)
    (refresh : InventoryRefresh) (error : Option String) :
    ∃ db', db.endRefresh fmt now id refresh .failed error = some db' := by
  unfold Db.endRefresh Db.releaseWaitingRuns
  dsimp only
  rw [if_pos]
  · exact ⟨_, rfl⟩
  · rw [Table.all_iff]
    intro k run _
    unfold Db.releaseRun
    split
    · rfl
    · rfl

/-! ## What one fetch may do -/

/-- How a failed fetch ends, with the wait setting `waitMinutes`. -/
structure Fair (waitMinutes : Nat) (o : Outcome) : Prop where
  ordered : o.began ≤ o.started ∧ o.started ≤ o.endedAt
  /-- The outage began with the first sighting since the store last worked. -/
  since : o.sighted.getLast? = some o.since
  ends : o.statusAfter = .queued ∨ o.statusAfter = .failed ∨ o.statusAfter = .cancelled
  failed : o.statusAfter = .failed → max o.queuedAt o.since + 60 * waitMinutes ≤ o.endedAt
  late : max o.queuedAt o.since + 60 * waitMinutes ≤ o.began →
    o.statusAfter = .failed ∨ (o.statusAfter = .cancelled ∧ o.cancelRequested = true)
  queued : o.statusAfter = .queued → o.queuedAfter = o.queuedAt
  cancelled : o.statusAfter = .cancelled → o.cancelRequested = true ∨
    ∃ queuedAt, o.other = some (queuedAt, min queuedAt o.queuedAt)

section

variable {waitMinutes : Nat} {o : Outcome} (hordered : o.began ≤ o.started ∧ o.started ≤ o.endedAt)
  (hsince : o.sighted.getLast? = some o.since)

include hordered hsince

theorem Fair.of_queued (hst : o.statusAfter = .queued)
    (hearly : o.started < max o.queuedAt o.since + 60 * waitMinutes)
    (hplace : o.queuedAfter = o.queuedAt) : Fair waitMinutes o where
  ordered := hordered
  since := hsince
  ends := .inl hst
  failed hfailed := absurd (hst.symm.trans hfailed) (by simp)
  late hlate := absurd (hlate.trans hordered.1) (Nat.not_le.mpr hearly)
  queued _ := hplace
  cancelled hcancelled := absurd (hst.symm.trans hcancelled) (by simp)

theorem Fair.of_failed (hst : o.statusAfter = .failed)
    (hlate : max o.queuedAt o.since + 60 * waitMinutes ≤ o.started) : Fair waitMinutes o where
  ordered := hordered
  since := hsince
  ends := .inr (.inl hst)
  failed _ := hlate.trans hordered.2
  late _ := .inl hst
  queued hqueued := absurd (hst.symm.trans hqueued) (by simp)
  cancelled hcancelled := absurd (hst.symm.trans hcancelled) (by simp)

theorem Fair.of_cancelRequested (hst : o.statusAfter = .cancelled)
    (hcancel : o.cancelRequested = true) : Fair waitMinutes o where
  ordered := hordered
  since := hsince
  ends := .inr (.inr hst)
  failed hfailed := absurd (hst.symm.trans hfailed) (by simp)
  late _ := .inr ⟨hst, hcancel⟩
  queued hqueued := absurd (hst.symm.trans hqueued) (by simp)
  cancelled _ := .inl hcancel

theorem Fair.of_merged (hst : o.statusAfter = .cancelled)
    (hearly : o.started < max o.queuedAt o.since + 60 * waitMinutes)
    (hplace : ∃ queuedAt, o.other = some (queuedAt, min queuedAt o.queuedAt)) :
    Fair waitMinutes o where
  ordered := hordered
  since := hsince
  ends := .inr (.inr hst)
  failed hfailed := absurd (hst.symm.trans hfailed) (by simp)
  late hlate := absurd (hlate.trans hordered.1) (Nat.not_le.mpr hearly)
  queued hqueued := absurd (hst.symm.trans hqueued) (by simp)
  cancelled _ := .inr hplace

end

/-- A fetch's times. -/
def Timed (now : Time) (f : Fetch) : Prop :=
  f.began ≤ now ∧ match f.phase with
    | .downAgain _ started => f.began ≤ started ∧ started ≤ now
    | _ => True

/-- The outage row began with the first of its sightings. -/
def Dated (s : State) : Prop := s.outage.map SecretStoreOutage.since = s.sighted.getLast?

/-- What a step that takes no time does. -/
structure Moves (waitMinutes : Nat) (s s' : State) : Prop where
  now : s'.base.now = s.base.now
  dated : Dated s → Dated s'
  fetches : ∀ tx f, s'.fetches.get? tx = some f →
    s.fetches.get? tx = some f ∨ Timed s.base.now f
  outcomes : Dated s → ∀ o ∈ s'.outcomes, o ∈ s.outcomes ∨ Fair waitMinutes o

theorem Moves.refl (waitMinutes : Nat) (s : State) : Moves waitMinutes s s :=
  ⟨rfl, id, fun _ _ h => .inl h, fun _ _ h => .inl h⟩

/-- Only the tables differ. -/
theorem during_frame {started : Time} {s s' : State} {label : RefreshFirst.Label ε}
    (h : during cfg fmt started s label = some s') :
    s'.base.now = s.base.now ∧ s'.outage = s.outage ∧ s'.fetches = s.fetches ∧
      s'.sighted = s.sighted ∧ s'.outcomes = s.outcomes := by
  obtain ⟨base, -, rfl⟩ := Option.map_eq_some_iff.mp h
  exact ⟨rfl, rfl, rfl, rfl, rfl⟩

theorem during_moves {waitMinutes : Nat} {started : Time} {s s' : State}
    {label : RefreshFirst.Label ε} (h : during cfg fmt started s label = some s') :
    Moves waitMinutes s s' := by
  obtain ⟨hnow, hout, hfetch, hsight, hends⟩ := during_frame h
  refine ⟨hnow, ?_, ?_, ?_⟩
  · intro hdated
    rw [Dated, hout, hsight]
    exact hdated
  · intro tx f hf
    rw [hfetch] at hf
    exact .inl hf
  · intro _ o ho
    rw [hends] at ho
    exact .inl ho

/-- The sighting's outage began with the first of its sightings. -/
theorem since_eq {s : State} (hdated : Dated s) (started : Time) :
    (started :: s.sighted).getLast? = some (since started s) := by
  unfold Dated at hdated
  unfold since
  cases ho : s.outage with
  | none =>
    rw [ho] at hdated
    rw [List.getLast?_eq_none_iff.mp hdated.symm]
    rfl
  | some o =>
    rw [ho] at hdated
    rw [List.getLast?_cons, ← hdated]
    rfl

theorem sight_dated {s : State} (hdated : Dated s) (started : Time) : Dated (sight started s) :=
  (since_eq hdated started).symm

theorem leave_moves {waitMinutes : Nat} {s t : State} (h : Moves waitMinutes s t) (tx : Nat) :
    Moves waitMinutes s (leave t tx) :=
  ⟨h.now, h.dated, fun k f hf => h.fetches k f (Table.get?_remove_eq_some.mp hf).2, h.outcomes⟩

theorem cleared_moves {waitMinutes : Nat} {s t : State} (h : Moves waitMinutes s t) :
    Moves waitMinutes s (cleared t) :=
  ⟨h.now, fun _ => rfl, h.fetches, h.outcomes⟩

theorem move_moves (waitMinutes : Nat) {s : State} {f : Fetch} {phase : Phase} (tx : Nat)
    (ht : Timed s.base.now { f with phase := phase }) :
    Moves waitMinutes s (move s tx f phase) := by
  refine ⟨rfl, id, ?_, fun _ _ h => .inl h⟩
  intro k g hg
  rcases Table.get?_put_cases hg with ⟨-, rfl⟩ | ⟨-, hold⟩
  · exact .inr ht
  · exact .inl hold

/-! ## First transactions -/

theorem buildRun_moves {waitMinutes : Nat} {s s' : State} {tx : Nat} {f : Fetch} {id : RunId}
    {build : InternalApi.Build} {readsStore : Bool} (htime : Timed s.base.now f)
    (h : buildRun cfg fmt s tx f id build readsStore = some s') : Moves waitMinutes s s' := by
  have hput : ∀ run, Moves waitMinutes s { s with base := RefreshFirst.putRun s.base id run } :=
    fun _ => ⟨rfl, fun hdated => hdated, fun _ _ hf => .inl hf, fun _ _ ho => .inl ho⟩
  unfold buildRun at h
  split at h
  · obtain rfl := Option.some.inj h
    exact leave_moves (.refl _ s) tx
  · split at h
    · obtain rfl := Option.some.inj h
      exact move_moves waitMinutes tx ⟨htime.1, trivial⟩
    · dsimp only at h
      split at h
      · obtain rfl := Option.some.inj h
        exact cleared_moves (leave_moves (hput _) tx)
      · obtain rfl := Option.some.inj h
        exact leave_moves (hput _) tx

theorem buildRefresh_moves {waitMinutes : Nat} {s s' : State} {tx : Nat} {f : Fetch}
    {id : RefreshId} {build : InternalApi.Build} {readsStore : Bool} (htime : Timed s.base.now f)
    (h : buildRefresh cfg fmt s tx f id build readsStore = some s') : Moves waitMinutes s s' := by
  unfold buildRefresh at h
  dsimp only at h
  split at h
  · obtain rfl := Option.some.inj h
    exact leave_moves (.refl _ s) tx
  split at h
  · obtain rfl := Option.some.inj h
    exact leave_moves (.refl _ s) tx
  cases build with
  | outage reason =>
    obtain rfl := Option.some.inj h
    exact move_moves waitMinutes tx ⟨htime.1, trivial⟩
  | built =>
    obtain ⟨t, ht, h⟩ := Option.bind_eq_some_iff.mp h
    cases readsStore with
    | true =>
      obtain rfl := Option.some.inj h
      exact cleared_moves (leave_moves (during_moves ht) tx)
    | false =>
      obtain rfl := Option.some.inj h
      exact leave_moves (during_moves ht) tx
  | error error =>
    obtain ⟨t, ht, h⟩ := Option.bind_eq_some_iff.mp h
    obtain rfl := Option.some.inj h
    exact leave_moves (during_moves ht) tx

/-! ## Second transactions -/

/-- What `_store_down` does to a run that its claim still owns. -/
theorem storeDown_owned {now : Time} {run : Run} {claimToken : Token} {reason : String}
    {waitOver : Option String} (howns : owns cfg.hashToken run claimToken = true) :
    let after := (InternalApi.storeDown cfg.hashToken fmt now run claimToken reason waitOver).run
    (after.status = .cancelled ∧ run.cancelRequestedAt.isSome = true) ∨
      (after.status = .failed ∧ waitOver ≠ none) ∨
      (after.status = .queued ∧ waitOver = none ∧ after.queuedAt = run.queuedAt) := by
  unfold InternalApi.storeDown
  rw [howns]
  dsimp only
  by_cases hcancel : run.cancelRequestedAt.isSome = true
  · exact .inl ⟨by simp [hcancel, InternalApi.failed], hcancel⟩
  · cases waitOver with
    | some why => exact .inr (.inl ⟨by simp [hcancel, InternalApi.failed], by simp⟩)
    | none => exact .inr (.inr ⟨by simp [hcancel], rfl, by simp [hcancel]⟩)

/-- A second transaction: the sighting, what it does to the tables, and its outcome. -/
theorem finished_moves {waitMinutes : Nat} {s t : State} {started : Time}
    {label : RefreshFirst.Label ε} {o : Outcome} (tx : Nat)
    (h : during cfg fmt started (sight started s) label = some t)
    (hfair : Dated s → Fair waitMinutes o) :
    Moves waitMinutes s (leave { t with outcomes := o :: s.outcomes } tx) := by
  obtain ⟨hnow, hout, hfetch, hsight, -⟩ := during_frame h
  suffices hall : Moves waitMinutes s { t with outcomes := o :: s.outcomes } from
    leave_moves hall tx
  refine ⟨hnow, ?_, ?_, ?_⟩
  · intro hdated
    have hd := sight_dated hdated started
    rw [Dated] at hd ⊢
    dsimp only
    rw [hout, hsight]
    exact hd
  · intro k f hf
    dsimp only at hf
    rw [hfetch] at hf
    exact .inl hf
  · intro hdated o' ho'
    rcases List.mem_cons.mp ho' with rfl | hold
    · exact .inr (hfair hdated)
    · exact .inl hold

theorem finishRun_moves {s s' : State} {tx : Nat} {f : Fetch} {id : RunId} {reason : String}
    {started : Time} (hwait : 0 < cfg.storeWaitMinutes)
    (htime : f.began ≤ started ∧ started ≤ s.base.now)
    (h : finishRun cfg fmt s tx f id reason started = some s') :
    Moves cfg.storeWaitMinutes s s' := by
  unfold finishRun at h
  split at h
  · obtain rfl := Option.some.inj h
    exact leave_moves (.refl _ s) tx
  rename_i run hrun
  split at h
  · obtain rfl := Option.some.inj h
    exact leave_moves (.refl _ s) tx
  rename_i hown
  rw [Bool.not_eq_true', Bool.not_eq_false] at hown
  obtain ⟨t, ht, h⟩ := Option.bind_eq_some_iff.mp h
  obtain ⟨row, hrow, h⟩ := Option.bind_eq_some_iff.mp h
  obtain rfl := Option.some.inj h
  refine finished_moves tx ht fun hdated => ?_
  have hafter : row = (InternalApi.storeDown cfg.hashToken fmt started run f.claimToken reason
      (waitOver cfg started run.queuedAt s)).run := by
    obtain ⟨base, hbase, rfl⟩ := Option.map_eq_some_iff.mp ht
    obtain ⟨run', hrun', hbase⟩ := Option.bind_eq_some_iff.mp hbase
    obtain rfl := Option.some.inj hbase
    obtain rfl : run' = run := Option.some.inj (hrun'.symm.trans hrun)
    exact (Option.some.inj ((Table.get?_put_self _ _ _).symm.trans hrow)).symm
  rcases @storeDown_owned ε cfg fmt started run f.claimToken reason
    (waitOver cfg started run.queuedAt s) hown with ⟨hst, hcancel⟩ | ⟨hst, hno⟩ | ⟨hst, hnone, hq⟩
  · rw [← hafter] at hst
    exact .of_cancelRequested htime (since_eq hdated started) hst hcancel
  · rw [← hafter] at hst
    rw [waitOver, Ne, waitOver_eq_none hwait, Nat.not_lt] at hno
    exact .of_failed htime (since_eq hdated started) hst hno
  · rw [← hafter] at hst hq
    rw [waitOver, waitOver_eq_none hwait] at hnone
    exact .of_queued htime (since_eq hdated started) hst hnone hq

/-- A refresh is put back, or merged into the queued one, which takes the earlier queue time. -/
theorem requeueRefresh_after {now : Time} {db : Db} {id : RefreshId}
    {refresh row : InventoryRefresh}
    {waitingFor : String} (hrow : (db.requeueRefresh now id refresh waitingFor).refreshes.get? id
      = some row) (hrunning : db.refreshes.get? id = some refresh)
    (hnot : refresh.status ≠ .queued) :
    (row.status = .queued ∧ row.queuedAt = refresh.queuedAt) ∨
      (row.status = .cancelled ∧ ∃ queuedAt,
        place db (db.requeueRefresh now id refresh waitingFor) refresh.inventoryId
          = some (queuedAt, min queuedAt refresh.queuedAt)) := by
  unfold place
  unfold Db.requeueRefresh at hrow ⊢
  cases hq : db.queuedRefresh? refresh.inventoryId with
  | none =>
    simp only [hq] at hrow
    obtain rfl := Option.some.inj ((Table.get?_put_self _ _ _).symm.trans hrow)
    exact .inl ⟨rfl, rfl⟩
  | some e =>
    obtain ⟨other, queued⟩ := e
    simp only [hq] at hrow ⊢
    obtain rfl := Option.some.inj ((Table.get?_put_self _ _ _).symm.trans hrow)
    obtain ⟨hother, hstatus⟩ := InventorySources.queuedRefresh?_eq_some hq
    have hne : other ≠ id := by
      rintro rfl
      obtain rfl := Option.some.inj (hother.symm.trans hrunning)
      exact hnot hstatus
    refine .inr ⟨rfl, queued.queuedAt, ?_⟩
    rw [Option.bind_eq_bind, Option.bind_some, Table.get?_put_of_ne _ _ hne, Table.get?_put_self]
    rfl

theorem finishRefresh_moves {s s' : State} {tx : Nat} {f : Fetch} {id : RefreshId} {error : String}
    {started : Time} (hwait : 0 < cfg.storeWaitMinutes)
    (htime : f.began ≤ started ∧ started ≤ s.base.now)
    (h : finishRefresh cfg fmt storeLabel s tx f id error started = some s') :
    Moves cfg.storeWaitMinutes s s' := by
  unfold finishRefresh at h
  dsimp only at h
  split at h
  · obtain rfl := Option.some.inj h
    exact leave_moves (.refl _ s) tx
  rename_i refresh hlocked
  obtain ⟨hrow₀, hstatus⟩ := Option.filter_eq_some_iff.mp hlocked
  have hnot : refresh.status ≠ .queued := by
    intro hqueued
    simp [hqueued] at hstatus
  obtain ⟨t, ht, h⟩ := Option.bind_eq_some_iff.mp h
  obtain ⟨row, hrow, h⟩ := Option.bind_eq_some_iff.mp h
  obtain rfl := Option.some.inj h
  refine finished_moves tx ht fun hdated => ?_
  obtain ⟨base, hbase, rfl⟩ := Option.map_eq_some_iff.mp ht
  cases hw : waitOver cfg started refresh.queuedAt s with
  | none =>
    rw [hw] at hbase
    obtain ⟨row', hrow', hbase⟩ := Option.bind_eq_some_iff.mp hbase
    obtain rfl : row' = refresh := Option.some.inj (hrow'.symm.trans hlocked)
    obtain rfl := Option.some.inj hbase
    have hearly := (waitOver_eq_none hwait).mp hw
    rcases requeueRefresh_after hrow hrow₀ hnot with ⟨hst, hq⟩ | ⟨hst, hplace⟩
    · exact .of_queued htime (since_eq hdated started) hst hearly hq
    · exact .of_merged htime (since_eq hdated started) hst hearly hplace
  | some why =>
    have hlate : deadline cfg.storeWaitMinutes refresh.queuedAt (since started s) ≤ started := by
      rw [← Nat.not_lt, ← waitOver_eq_none hwait]
      exact fun hnone => absurd (hw.symm.trans hnone) (by simp)
    rw [hw] at hbase
    obtain ⟨row', hrow', hbase⟩ := Option.bind_eq_some_iff.mp hbase
    obtain rfl : row' = refresh := Option.some.inj (hrow'.symm.trans hlocked)
    obtain ⟨db, hdb, rfl⟩ := Option.map_eq_some_iff.mp hbase
    have hst : row.status = .failed := by
      dsimp only at hrow
      rw [(InventorySources.endRefresh_released hdb).refreshes] at hrow
      obtain rfl := Option.some.inj ((Table.get?_put_self _ _ _).symm.trans hrow)
      rfl
    exact .of_failed htime (since_eq hdated started) hst hlate

/-! ## Every run -/

/-- Whether the fetch's claim still owns its job. -/
def stillOwns (cfg : RunQueue.Settings) (s : State) (f : Fetch) : Bool :=
  match f.job with
  | .run id => (s.base.db.runs.get? id).any fun run => owns cfg.hashToken run f.claimToken
  | .refresh id => (RefreshFirst.lockedRefresh s.base id (cfg.hashToken f.claimToken)).isSome

/-- A second transaction commits: with an outcome, unless its claim is over. -/
structure Finishes (cfg : RunQueue.Settings) (s : State) (tx : Nat) (f : Fetch) (started : Time)
    (s' : State) : Prop where
  owned : stillOwns cfg s f = true →
    ∃ o, s'.outcomes = o :: s.outcomes ∧ o.job = f.job ∧ o.began = f.began ∧ o.started = started
  gone : stillOwns cfg s f = false → s' = leave s tx

theorem during_storeDown {s : State} {id : RunId} {run : Run} (f : Fetch) (reason : String)
    (started : Time) (waitOver : Option String) (hrun : s.base.db.runs.get? id = some run) :
    during cfg fmt started (sight started s) (.storeDown id f.claimToken reason waitOver)
      = some { sight started s with
          base := RefreshFirst.putRun s.base id
            (InternalApi.storeDown cfg.hashToken fmt started run f.claimToken reason waitOver).run
            } := by
  unfold during
  simp only [RefreshFirst.step, sight, hrun, Option.bind_eq_bind, Option.bind_some,
    Option.map_some]
  rfl

theorem finishRun_finishes {s : State} {tx : Nat} {f : Fetch} {id : RunId} (reason : String)
    (started : Time) (hjob : f.job = .run id) :
    ∃ s', finishRun cfg fmt s tx f id reason started = some s' ∧
      Finishes cfg s tx f started s' := by
  have howns : stillOwns cfg s f
      = (s.base.db.runs.get? id).any fun run => owns cfg.hashToken run f.claimToken := by
    rw [stillOwns, hjob]
  unfold finishRun
  cases hrun : s.base.db.runs.get? id with
  | none =>
    rw [hrun] at howns
    exact ⟨_, rfl, fun hyes => absurd (howns.symm.trans hyes) (by simp), fun _ => rfl⟩
  | some run =>
    rw [hrun, Option.any_some] at howns
    dsimp only
    rw [← howns]
    cases hown : stillOwns cfg s f with
    | false => exact ⟨_, rfl, fun hyes => absurd (hown.symm.trans hyes) (by simp), fun _ => rfl⟩
    | true =>
      simp only [during_storeDown f reason started _ hrun, Option.bind_eq_bind, Option.bind_some,
        RefreshFirst.putRun, Table.get?_put_self, Bool.not_true, Bool.false_eq_true, if_false]
      refine ⟨_, rfl, ?_, fun hno => absurd (hown.symm.trans hno) (by simp)⟩
      intro _
      exact ⟨_, rfl, hjob.symm, rfl, rfl⟩

/-- Either end of a refresh's second transaction goes through, and keeps its row. -/
theorem during_backOrEnd {s : State} {id : RefreshId} {claim : Digest} {refresh : InventoryRefresh}
    (error : String) (started : Time) (waitOver : Option String)
    (hlocked : RefreshFirst.lockedRefresh s.base id claim = some refresh) :
    ∃ t row, during cfg fmt started (sight started s) (backOrEnd storeLabel id claim error waitOver)
      = some t ∧ t.base.db.refreshes.get? id = some row := by
  have hagain : RefreshFirst.lockedRefresh { s.base with now := started } id claim = some refresh :=
    hlocked
  unfold during
  cases waitOver with
  | none =>
    simp only [backOrEnd, RefreshFirst.step, sight, hagain, Option.bind_eq_bind, Option.bind_some,
      Option.map_some]
    simp only [Db.requeueRefresh]
    cases s.base.db.queuedRefresh? refresh.inventoryId with
    | none => exact ⟨_, _, rfl, Table.get?_put_self _ _ _⟩
    | some e => exact ⟨_, _, rfl, Table.get?_put_self _ _ _⟩
  | some why =>
    obtain ⟨db, hdb⟩ := endRefresh_failed fmt started s.base.db id refresh (some (error ++ why))
    have hput : db.refreshes.get? id
        = some (Db.ended started .failed (some (error ++ why)) refresh) := by
      rw [(InventorySources.endRefresh_released hdb).refreshes]
      exact Table.get?_put_self _ _ _
    simp only [backOrEnd, RefreshFirst.step, sight, hagain, Option.bind_eq_bind, Option.bind_some,
      hdb, RefreshFirst.setDb]
    exact ⟨_, _, rfl, hput⟩

theorem finishRefresh_finishes {s : State} {tx : Nat} {f : Fetch} {id : RefreshId} (error : String)
    (started : Time) (hjob : f.job = .refresh id) :
    ∃ s', finishRefresh cfg fmt storeLabel s tx f id error started = some s' ∧
      Finishes cfg s tx f started s' := by
  have howns : stillOwns cfg s f
      = (RefreshFirst.lockedRefresh s.base id (cfg.hashToken f.claimToken)).isSome := by
    rw [stillOwns, hjob]
  unfold finishRefresh
  dsimp only
  cases hlocked : RefreshFirst.lockedRefresh s.base id (cfg.hashToken f.claimToken) with
  | none =>
    rw [hlocked] at howns
    exact ⟨_, rfl, fun hyes => absurd (howns.symm.trans hyes) (by simp), fun _ => rfl⟩
  | some refresh =>
    rw [hlocked] at howns
    obtain ⟨t, row, ht, hrow⟩ := @during_backOrEnd ε cfg fmt storeLabel s id _ refresh error started
      (waitOver cfg started refresh.queuedAt s) hlocked
    simp only [ht, hrow, Option.bind_eq_bind, Option.bind_some]
    refine ⟨_, rfl, ?_, fun hno => absurd (howns.symm.trans hno) (by simp)⟩
    intro _
    exact ⟨_, rfl, hjob.symm, rfl, rfl⟩

theorem finish_finishes {s : State} {tx : Nat} {f : Fetch} {reason : String} {started : Time}
    (hf : s.fetches.get? tx = some f) (hphase : f.phase = .downAgain reason started) :
    ∃ s', step cfg fmt storeLabel s (.finish tx) = some s' ∧ Finishes cfg s tx f started s' := by
  simp only [step, hf, Option.bind_eq_bind, Option.bind_some, hphase]
  cases hjob : f.job with
  | run id => exact finishRun_finishes reason started hjob
  | refresh id => exact finishRefresh_finishes reason started hjob

/-- What holds in every state. -/
structure Inv (waitMinutes : Nat) (s : State) : Prop where
  dated : Dated s
  fetches : ∀ tx f, s.fetches.get? tx = some f → Timed s.base.now f
  outcomes : ∀ o ∈ s.outcomes, Fair waitMinutes o

theorem Timed.later {now now' : Time} {f : Fetch} (h : Timed now f) (hle : now ≤ now') :
    Timed now' f := by
  refine ⟨h.1.trans hle, ?_⟩
  have hphase := h.2
  cases hp : f.phase with
  | begun => trivial
  | down reason => trivial
  | downAgain reason started =>
    rw [hp] at hphase
    exact ⟨hphase.1, hphase.2.trans hle⟩

theorem Inv.moves {waitMinutes : Nat} {s s' : State} (hi : Inv waitMinutes s)
    (h : Moves waitMinutes s s') : Inv waitMinutes s' := by
  refine ⟨h.dated hi.dated, ?_, ?_⟩
  · intro tx f hf
    rw [h.now]
    rcases h.fetches tx f hf with hold | hnew
    · exact hi.fetches tx f hold
    · exact hnew
  · intro o ho
    rcases h.outcomes hi.dated o ho with hold | hnew
    · exact hi.outcomes o hold
    · exact hnew

/-- What one step does, other than the clock's. -/
theorem step_moves {s s' : State} {a : Label ε} (hwait : 0 < cfg.storeWaitMinutes)
    (hi : Inv cfg.storeWaitMinutes s) (hclock : ∀ seconds, a ≠ .tick seconds)
    (h : step cfg fmt storeLabel s a = some s') : Moves cfg.storeWaitMinutes s s' := by
  cases a with
  | tick seconds => exact absurd rfl (hclock seconds)
  | other started label =>
    obtain ⟨-, h⟩ := Option.ite_none_right_eq_some.mp h
    exact during_moves h
  | sighting started =>
    obtain ⟨-, h⟩ := Option.ite_none_right_eq_some.mp h
    obtain rfl := Option.some.inj h
    exact ⟨rfl, fun hdated => sight_dated hdated started, fun _ _ hf => .inl hf,
      fun _ _ ho => .inl ho⟩
  | clear =>
    obtain rfl := Option.some.inj h
    exact cleared_moves (.refl _ s)
  | claimRun started id by_ needsStore =>
    obtain ⟨run, -, h⟩ := Option.bind_eq_some_iff.mp h
    obtain ⟨-, h⟩ := Option.ite_none_right_eq_some.mp h
    exact during_moves h
  | claimRefresh started id by_ needsStore =>
    obtain ⟨row, -, h⟩ := Option.bind_eq_some_iff.mp h
    obtain ⟨-, h⟩ := Option.ite_none_right_eq_some.mp h
    exact during_moves h
  | fetch tx job claimToken jobToken =>
    obtain ⟨-, h⟩ := Option.ite_none_right_eq_some.mp h
    obtain rfl := Option.some.inj h
    refine ⟨rfl, fun hdated => hdated, ?_, fun _ _ ho => .inl ho⟩
    intro k g hg
    rcases Table.get?_put_cases hg with ⟨-, rfl⟩ | ⟨-, hold⟩
    · exact .inr ⟨Nat.le_refl _, trivial⟩
    · exact .inl hold
  | build tx build readsStore =>
    obtain ⟨f, hf, h⟩ := Option.bind_eq_some_iff.mp h
    split at h
    · exact buildRun_moves (hi.fetches tx f hf) h
    · exact buildRefresh_moves (hi.fetches tx f hf) h
    · exact absurd h (by simp)
  | again tx =>
    obtain ⟨f, hf, h⟩ := Option.bind_eq_some_iff.mp h
    split at h
    · obtain rfl := Option.some.inj h
      have hbegan := (hi.fetches tx f hf).1
      exact move_moves _ tx ⟨hbegan, hbegan, Nat.le_refl _⟩
    · exact absurd h (by simp)
  | finish tx =>
    obtain ⟨f, hf, h⟩ := Option.bind_eq_some_iff.mp h
    have htimed := (hi.fetches tx f hf).2
    split at h
    · rename_i hphase hjob
      rw [hphase] at htimed
      exact finishRun_moves hwait htimed h
    · rename_i hphase hjob
      rw [hphase] at htimed
      exact finishRefresh_moves hwait htimed h
    · exact absurd h (by simp)

theorem inv_inductive (hwait : 0 < cfg.storeWaitMinutes) :
    (system cfg fmt storeLabel).Inductive Lib.anyStep (Inv cfg.storeWaitMinutes) where
  init := by
    rintro s rfl
    exact ⟨rfl, fun _ _ h => absurd h (by simp), fun _ h => absurd h (by simp)⟩
  step := by
    intro s a s' hi _ h
    by_cases hclock : ∃ seconds, a = .tick seconds
    · obtain ⟨seconds, rfl⟩ := hclock
      obtain rfl := Option.some.inj h
      exact ⟨hi.dated, fun tx f hf => (hi.fetches tx f hf).later (Nat.le_add_right _ _),
        hi.outcomes⟩
    · exact hi.moves (step_moves hwait hi (fun seconds heq => hclock ⟨seconds, heq⟩) h)

/-- **Everything that needs the store waits for it up to one deadline.** A failed fetch fails its
job only from then on, and then always, unless the job's cancelling was requested; earlier it is
put back with its queue time, or merges into the inventory's queued refresh. The claims hold back
exactly what may still wait. -/
theorem fetch_waits (hwait : 0 < cfg.storeWaitMinutes) {s : State}
    (hr : (system cfg fmt storeLabel).Reachable s) :
    (∀ o ∈ s.outcomes, Fair cfg.storeWaitMinutes o) ∧
      (∀ tx f reason started, s.fetches.get? tx = some f → f.phase = .downAgain reason started →
        ∃ s', step cfg fmt storeLabel s (.finish tx) = some s' ∧
          Finishes cfg s tx f started s') ∧
      ∀ now queuedAt outage,
        claimHold cfg.storeWaitMinutes now queuedAt outage = true ↔
          ∃ o, outage = some o ∧ now < o.holdUntil ∧
            StoreOutage.waitOver cfg.storeWaitMinutes now queuedAt o.since = none :=
  ⟨((inv_inductive hwait).of_reachable hr).outcomes, fun _ _ _ _ hf hp => finish_finishes hf hp,
    claimHold_iff hwait⟩

/-- A run's fetch finds the store down too early to fail it, a later one fails it; a refresh's
fetch finds it down as well. -/
def waitsAndFails : List (Label Nat) :=
  [.other 0 (.createInventory 1 {}), .other 0 (.trigger 1 1 false false ⟨∅, ∅⟩ none 7),
    .claimRun 0 1 ⟨"w", "c1", "j1"⟩ true, .fetch 0 (.run 1) "c1" "j1",
    .build 0 (.outage "not run") true, .again 0, .tick 5, .finish 0, .tick 60,
    .claimRun 65 1 ⟨"w", "c2", "j2"⟩ true, .fetch 0 (.run 1) "c2" "j2", .tick 10,
    .build 0 (.outage "not run") true, .again 0, .finish 0,
    .other 70 (.enqueueRefresh 1 7 none), .claimRefresh 75 7 ⟨"w", "c7", "j7"⟩ false,
    .fetch 0 (.refresh 7) "c7" "j7", .build 0 (.outage "could not read") true, .again 0]

/-- A wait of one minute. -/
def oneMinute : RunQueue.Settings where
  hashToken := id
  storeWaitMinutes := 1

theorem fetch_waits_and_fails :
    let s := ((system oneMinute byteFormat "OpenBao").run Lib.anyStep {} waitsAndFails).get rfl
    (∀ o ∈ s.outcomes, Fair 1 o) ∧
      (∀ tx f reason started, s.fetches.get? tx = some f → f.phase = .downAgain reason started →
        ∃ s', step oneMinute byteFormat "OpenBao" s (.finish tx) = some s' ∧
          Finishes oneMinute s tx f started s') ∧
      ∀ now queuedAt outage, claimHold 1 now queuedAt outage = true ↔
        ∃ o, outage = some o ∧ now < o.holdUntil ∧
          StoreOutage.waitOver 1 now queuedAt o.since = none :=
  @fetch_waits Nat oneMinute byteFormat "OpenBao" Nat.one_pos _ (.of_isSome rfl waitsAndFails rfl)

/-- A fetch of a refresh finds the store down after another refresh was queued. -/
def mergedEarly : List (Label Nat) :=
  [.other 0 (.enqueueRefresh 1 7 none), .claimRefresh 0 7 ⟨"w", "c7", "j7"⟩ true,
    .other 0 (.enqueueRefresh 1 8 none), .fetch 0 (.refresh 7) "c7" "j7",
    .build 0 (.outage "could not read") true, .again 0, .finish 0]

/-- The refresh that merges into another one ends long before its wait is over. -/
theorem merges_early :
    ¬ ∀ s, (system oneMinute byteFormat "OpenBao").Reachable s → ∀ o ∈ s.outcomes,
      o.statusAfter.finished = true → o.cancelRequested = false →
        max o.queuedAt o.since + 60 ≤ o.endedAt := by
  intro hall
  have h := hall _ (.of_isSome rfl mergedEarly rfl) _ (List.mem_singleton_self _) rfl rfl
  exact absurd h (by decide)

end StoreWait

end AnsiDeck
