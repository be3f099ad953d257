import AnsiDeck.RefreshFirst.Release

/-!
# A run that waited runs with what it waited for

Pruning never takes the snapshot of a run that may still use it, and a merge points the runs at
the refresh that goes on. With the transaction that ends a refresh this covers every way the link
between a run and its refresh can change.
-/

namespace AnsiDeck

namespace RefreshFirst

open Lib (Table)
open InventorySources (Db Released endRefresh_released release_none queuedRefresh?_eq_some)
open InventorySources.Db (waitsFor)

variable {ε : Type} {cfg : RunQueue.Settings} {fmt : EventFormat ε}

/-! ## Pruning and merging -/

theorem orphaned_eq {gone : SnapshotId → Bool} {reference : Option SnapshotId}
    (h : ∀ id, reference = some id → gone id = false) : Db.orphaned gone reference = reference := by
  cases reference with
  | none => rfl
  | some id => simp [Db.orphaned, h id rfl]

/-- A snapshot that an active run pins is not pruned. -/
theorem not_doomed {db : Db} {k : RunId} {run : Run} (hk : db.runs.get? k = some run)
    (hactive : run.status.active = true) {id : SnapshotId} (hid : run.inventorySnapshotId = some id)
    (snapshot : InventorySnapshot) : db.doomed id snapshot = false := by
  have hpinned : db.pinned id = true := Table.any_iff.mpr ⟨k, run, hk, by simp [hactive, hid]⟩
  simp [Db.doomed, hpinned]

theorem get?_pruned_refresh {db : Db} {id : RefreshId} {row : InventoryRefresh}
    (h : db.refreshes.get? id = some row) :
    ∃ row', db.pruneSnapshots.refreshes.get? id = some row' ∧ row'.status = row.status := by
  simp only [Db.pruneSnapshots, Table.get?_mapRows, h, Option.map_some]
  exact ⟨_, rfl, rfl⟩

theorem Waits.prune {db : Db} {refresh : RefreshId} (h : Waits db refresh) :
    Waits db.pruneSnapshots refresh := by
  obtain ⟨row, hget, hact⟩ := h
  obtain ⟨row', hget', hstatus⟩ := get?_pruned_refresh hget
  exact ⟨row', hget', by rw [hstatus]; exact hact⟩

theorem Inv.prune {s : State} (h : Inv s) : Inv { s with db := s.db.pruneSnapshots } := by
  have hsnap : ∀ k snapshot, s.db.pruneSnapshots.snapshots.get? k = some snapshot →
      s.db.snapshots.get? k = some snapshot := by
    intro k snapshot hs
    exact (Table.get?_deleteWhere_eq_some.mp hs).1
  have hrow : ∀ k row, s.db.pruneSnapshots.refreshes.get? k = some row →
      ∃ old, s.db.refreshes.get? k = some old ∧ row.status = old.status ∧
        (old.snapshotId = none → row.snapshotId = none) := by
    intro k row hk
    simp only [Db.pruneSnapshots, Table.get?_mapRows] at hk
    obtain ⟨old, hold, rfl⟩ := Option.map_eq_some_iff.mp hk
    exact ⟨old, hold, rfl, fun hnone => by rw [hnone]; rfl⟩
  have hrun : ∀ k run, s.db.pruneSnapshots.runs.get? k = some run → ∃ old,
      s.db.runs.get? k = some old ∧ run.waitingRefreshId = old.waitingRefreshId ∧
        (run.status.active = true → run = old) := by
    intro k run hk
    simp only [Db.pruneSnapshots, Table.get?_mapRows] at hk
    obtain ⟨old, hold, rfl⟩ := Option.map_eq_some_iff.mp hk
    refine ⟨old, hold, rfl, ?_⟩
    intro hactive
    rw [orphaned_eq]
    intro id hid
    cases hs : s.db.snapshots.get? id with
    | none => rfl
    | some snapshot => exact not_doomed hold hactive hid snapshot
  constructor
  · intro k run hk
    obtain ⟨old, hold, hwaiting, hsame⟩ := hrun k run hk
    cases hactive : run.status.active with
    | false => exact RunOk.of_ended hactive
    | true =>
      obtain rfl := hsame hactive
      refine (h.runs k run hold).mono ?_ ?_
      · exact fun w _ _ => Waits.prune
      · intro id snapshot hid hactive hs
        exact ⟨snapshot, Table.get?_deleteWhere_eq_some.mpr
          ⟨hs, not_doomed hold hactive hid snapshot⟩, rfl, rfl⟩
  · intro k row hk hact
    obtain ⟨old, hold, hstatus, hnone⟩ := hrow k row hk
    rw [hstatus] at hact
    obtain ⟨hsnapnone, hnot⟩ := h.unstored k old hold hact
    exact ⟨hnone hsnapnone, fun sid snapshot hs => hnot sid snapshot (hsnap sid snapshot hs)⟩
  · intro k snapshot w hs hw
    obtain ⟨row, hget⟩ := h.known k snapshot w (hsnap k snapshot hs) hw
    obtain ⟨row', hget', -⟩ := get?_pruned_refresh hget
    exact ⟨row', hget'⟩
  · intro k k' a b w ha hb
    exact h.unique k k' a b w (hsnap k a ha) (hsnap k' b hb)
  · intro k run w hk hwaiting
    obtain ⟨old, hold, hsame, -⟩ := hrun k run hk
    exact h.asked k old w hold (by rw [← hsame]; exact hwaiting)

/-- The runs that wait for a running refresh are queued: it has stored nothing yet. -/
theorem Inv.waiting_queued {s : State} (h : Inv s) {id : RefreshId} {row : InventoryRefresh}
    (hrow : s.db.refreshes.get? id = some row) (hactive : row.status.active = true) {k : RunId}
    {run : Run} (hk : s.db.runs.get? k = some run) (hwaiting : run.waitingRefreshId = some id)
    (hrun : run.status.active = true) : run.status = .queued := by
  rcases h.runs k run hk id hwaiting hrun with ⟨hqueued, -⟩ | ⟨sid, snapshot, -, hs, hstored, -⟩
  · exact hqueued
  · exact absurd hstored ((h.unstored id row hrow hactive).2 sid snapshot hs)

theorem other_ne {s : State} {id other : RefreshId} {row found : InventoryRefresh}
    (hrow : s.db.refreshes.get? id = some row) (hrunning : row.status = .running)
    (hother : s.db.refreshes.get? other = some found) (hqueued : found.status = .queued) :
    other ≠ id := by
  rintro rfl
  rw [hrow] at hother
  obtain rfl := Option.some.inj hother
  rw [hrunning] at hqueued
  exact absurd hqueued (by simp)

/-- The refreshes a merge doesn't end go on. -/
theorem Waits.merge {db : Db} {now : Time} {waitingFor : String} {id other refresh : RefreshId}
    {row found : InventoryRefresh}
    (hfound : db.queuedRefresh? row.inventoryId = some (other, found))
    (hne : refresh ≠ id) (hw : Waits db refresh) :
    Waits (db.requeueRefresh now id row waitingFor) refresh := by
  obtain ⟨r, hr, hact⟩ := hw
  obtain ⟨-, hqueued⟩ := queuedRefresh?_eq_some hfound
  simp only [Waits, Db.requeueRefresh, hfound]
  rw [Table.get?_put_of_ne _ _ hne]
  by_cases hwo : refresh = other
  · refine ⟨InventorySources.absorbing found row, by rw [hwo]; exact Table.get?_put_self _ _ _, ?_⟩
    show found.status.active = true
    rw [hqueued]
    rfl
  · exact ⟨r, by rw [Table.get?_put_of_ne _ _ hwo]; exact hr, hact⟩

theorem Inv.merge {s : State} (h : Inv s) {id other : RefreshId} {row found : InventoryRefresh}
    {waitingFor : String} (hrow : s.db.refreshes.get? id = some row)
    (hrunning : row.status = .running)
    (hfound : s.db.queuedRefresh? row.inventoryId = some (other, found)) :
    Inv { s with
      db := s.db.requeueRefresh s.now id row waitingFor
      merged := (id, other) :: s.merged } := by
  obtain ⟨hother, hqueued⟩ := queuedRefresh?_eq_some hfound
  have hne := other_ne hrow hrunning hother hqueued
  have hwaits : ∀ w, w ≠ id → Waits s.db w →
      Waits (s.db.requeueRefresh s.now id row waitingFor) w :=
    fun w hw => Waits.merge hfound hw
  have hactive : row.status.active = true := by rw [hrunning]; rfl
  simp only [Db.requeueRefresh, hfound] at hwaits ⊢
  -- what the merge makes of a refresh and of a run
  have hget : ∀ k, k ≠ id → k ≠ other →
      ((s.db.refreshes.put other (InventorySources.absorbing found row)).put id
        (InventorySources.mergedInto other waitingFor s.now row)).get? k =
          s.db.refreshes.get? k := by
    intro k hk hko
    rw [Table.get?_put_of_ne _ _ hk, Table.get?_put_of_ne _ _ hko]
  have hgetOther : ((s.db.refreshes.put other (InventorySources.absorbing found row)).put id
      (InventorySources.mergedInto other waitingFor s.now row)).get? other
        = some (InventorySources.absorbing found row) := by
    rw [Table.get?_put_of_ne _ _ hne, Table.get?_put_self]
  have hrun : ∀ k run', (s.db.runs.mapRows fun _ run =>
      if run.waitingRefreshId = some id then { run with waitingRefreshId := some other }
      else run).get? k = some run' → ∃ run, s.db.runs.get? k = some run ∧
        ((run.waitingRefreshId = some id ∧ run' = { run with waitingRefreshId := some other }) ∨
          (run.waitingRefreshId ≠ some id ∧ run' = run)) := by
    intro k run' hk
    rw [Table.get?_mapRows] at hk
    obtain ⟨run, hold, rfl⟩ := Option.map_eq_some_iff.mp hk
    by_cases hw : run.waitingRefreshId = some id
    · exact ⟨run, hold, Or.inl ⟨hw, by rw [if_pos hw]⟩⟩
    · exact ⟨run, hold, Or.inr ⟨hw, by rw [if_neg hw]⟩⟩
  constructor
  · intro k run' hk
    obtain ⟨run, hold, ⟨hw, rfl⟩ | ⟨hw, rfl⟩⟩ := hrun k run' hk
    · intro w hww hact
      obtain rfl := Option.some.inj hww
      have hstill : run.status = .queued := h.waiting_queued hrow hactive hold hw hact
      exact Or.inl ⟨hstill, hwaits other hne ⟨found, hother, by rw [hqueued]; rfl⟩⟩
    · refine (h.runs k run' hold).mono ?_ (fun sid snapshot _ _ hs => ⟨snapshot, hs, rfl, rfl⟩)
      intro w hww _ hwait
      exact hwaits w (fun hwid => hw (by rw [hww, hwid])) hwait
  · intro k r hk hact
    by_cases hkid : k = id
    · rw [hkid, Table.get?_put_self] at hk
      obtain rfl := Option.some.inj hk
      exact absurd hact (by simp [InventorySources.mergedInto, InventorySources.unclaimed,
        RunStatus.active])
    · by_cases hko : k = other
      · rw [hko] at hk ⊢
        rw [hgetOther] at hk
        obtain rfl := Option.some.inj hk
        exact h.unstored other found hother (by rw [hqueued]; rfl)
      · rw [hget k hkid hko] at hk
        exact h.unstored k r hk hact
  · intro k snapshot w hs hw
    obtain ⟨r, hr⟩ := h.known k snapshot w hs hw
    by_cases hwid : w = id
    · exact ⟨_, by rw [hwid]; exact Table.get?_put_self _ _ _⟩
    · by_cases hwo : w = other
      · exact ⟨_, by rw [hwo]; exact hgetOther⟩
      · exact ⟨r, by rw [hget w hwid hwo, hr]⟩
  · exact h.unique
  · intro k run' w hk hww
    have hmono : ∀ a b, Merged s a b → (a, b) ∈ (id, other) :: s.merged := fun a b hab =>
      List.mem_cons_of_mem _ hab
    obtain ⟨run, hold, ⟨hw, rfl⟩ | ⟨-, rfl⟩⟩ := hrun k run' hk
    · obtain ⟨first, hfirst, hpath⟩ := h.asked k run id hold hw
      obtain rfl := Option.some.inj hww
      exact ⟨first, hfirst, (Relation.ReflTransGen.mono hmono _ _ hpath).tail List.mem_cons_self⟩
    · obtain ⟨first, hfirst, hpath⟩ := h.asked k run' w hold hww
      exact ⟨first, hfirst, Relation.ReflTransGen.mono hmono _ _ hpath⟩

/-! ## Triggers -/

/-- `enqueue_refresh` leaves the request with a queued refresh. -/
theorem Inv.enqueue_cases {s : State} (h : Inv s) (inventory : InventoryId) {new : RefreshId}
    (scope : Option (Finset SourceId)) (hnew : s.db.refreshes.get? new = none) :
    ∃ k row, s.db.enqueueRefresh s.now inventory new scope
        = (k, { s.db with refreshes := s.db.refreshes.put k row }) ∧
      row.status = .queued ∧ row.snapshotId = none ∧
      ∀ old, s.db.refreshes.get? k = some old → old.status.active = true := by
  unfold Db.enqueueRefresh
  cases hq : s.db.queuedRefresh? inventory with
  | none =>
    refine ⟨new, _, rfl, rfl, rfl, ?_⟩
    intro old hold
    rw [hnew] at hold
    exact absurd hold (by simp)
  | some found =>
    obtain ⟨k, row⟩ := found
    obtain ⟨hk, hqueued⟩ := queuedRefresh?_eq_some hq
    have hactive : row.status.active = true := by rw [hqueued]; rfl
    refine ⟨k, _, rfl, hqueued, (h.unstored k row hk hactive).1, ?_⟩
    intro old hold
    rw [hk] at hold
    obtain rfl := Option.some.inj hold
    exact hactive

/-- A new run is queued, and waits for an active refresh or for none. -/
theorem Inv.insertRun {s : State} (h : Inv s) {id : RunId} {run : Run}
    (askedFor : Table RunId RefreshId)
    (hothers : ∀ k, k ≠ id → askedFor.get? k = s.askedFor.get? k)
    (hqueued : run.status = .queued) (hwaits : ∀ refresh, run.waitingRefreshId = some refresh →
      Waits s.db refresh ∧ askedFor.get? id = some refresh) :
    Inv { s with
      db := { s.db with runs := s.db.runs.put id run }
      askedFor := askedFor } := by
  refine ⟨?_, h.unstored, h.known, h.unique, ?_⟩
  · intro k r hk
    simp only [Table.get?_put] at hk
    split at hk
    · obtain rfl := Option.some.inj hk
      intro w hw _
      exact Or.inl ⟨hqueued, (hwaits w hw).1⟩
    · exact h.runs k r hk
  · intro k r w hk hw
    simp only [Table.get?_put] at hk
    split at hk
    · next hkid =>
      obtain rfl := Option.some.inj hk
      exact ⟨w, by rw [hkid]; exact (hwaits w hw).2, .refl⟩
    · next hkid =>
      obtain ⟨first, hfirst, hpath⟩ := h.asked k r w hk hw
      exact ⟨first, (hothers k hkid).trans hfirst, hpath⟩

theorem Inv.trigger {s s' : State} (h : Inv s) {id : RunId} {inventory : InventoryId}
    {refreshFirst hasSources : Bool} {static : StaticData} {groupName : Option String}
    {new : RefreshId} {request : Request} (hnew : s.db.refreshes.get? new = none)
    (hs : trigger s id inventory refreshFirst hasSources static groupName new request = some s') :
    Inv s' ∧ ∀ refresh, Waits s.db refresh → Waits s'.db refresh := by
  unfold RefreshFirst.trigger at hs
  obtain ⟨row, -, hs⟩ := Option.bind_eq_some_iff.mp hs
  obtain ⟨snapshot, -, hs⟩ := Option.bind_eq_some_iff.mp hs
  split at hs
  · obtain ⟨k, refresh, heq, hqueued, hnone, hold⟩ := h.enqueue_cases inventory none hnew
    rw [heq] at hs
    obtain rfl := Option.some.inj hs
    have hactive : refresh.status.active = true := by rw [hqueued]; rfl
    refine ⟨(h.putRefresh hactive hold hnone).insertRun _
      (fun j hj => Table.get?_put_of_ne _ _ hj) rfl ?_, fun _ => Waits.putRefresh hactive⟩
    intro w hw
    obtain rfl := Option.some.inj hw
    exact ⟨⟨refresh, Table.get?_put_self _ _ _, hactive⟩, Table.get?_put_self _ _ _⟩
  · obtain rfl := Option.some.inj hs
    refine ⟨h.insertRun s.askedFor (fun _ _ => rfl) rfl ?_, fun _ hw => hw⟩
    intro w hw
    exact absurd hw (by simp [queuedRun])

/-! ## Steps -/

theorem RunOk.served {db : Db} {seen row : Run} (h : RunOk db seen)
    (hkeeps : RunQueue.Keeps seen row)
    (hserved : RunQueue.Served seen row) : RunOk db row := by
  cases hserved with
  | touched hstatus _ _ =>
    exact h.moved hkeeps.pin fun hactive => ⟨by rw [← hstatus]; exact hactive, Or.inl hstatus⟩
  | ended _ hfinished _ =>
    exact RunOk.of_ended (by simpa [RunStatus.finished] using hfinished)

/-- A running run changes without a word about the refresh it waited for. -/
theorem RunOk.of_running {db : Db} {seen row : Run} (h : RunOk db seen)
    (hkeeps : RunQueue.Keeps seen row) (hrunning : seen.status = .running) : RunOk db row := by
  refine h.moved hkeeps.pin fun _ => ⟨by rw [hrunning]; rfl, Or.inr ?_⟩
  rintro refresh - ⟨hqueued, -⟩
  rw [hrunning] at hqueued
  exact absurd hqueued (by simp)

theorem Inv.claimRun {s : State} (h : Inv s) {id : RunId} {run : Run} {by_ : Claimant}
    {inventory : Option Inventory} (hid : s.db.runs.get? id = some run)
    (hclaim : claimable s run = true) :
    Inv (RefreshFirst.putRun s id (RunQueue.settled fmt s.now
      (claimedRun cfg.runLeaseSeconds s.now by_ inventory run))) := by
  simp only [claimable, Bool.and_eq_true, decide_eq_true_eq, Bool.not_eq_true'] at hclaim
  obtain ⟨⟨hqueued, -⟩, hfree⟩ := hclaim
  have hnotWaiting : ∀ refresh, run.waitingRefreshId = some refresh →
      ¬(run.status = .queued ∧ Waits s.db refresh) := by
    rintro refresh hw ⟨-, row, hrow, hactive⟩
    rw [hw, Option.bind_some, hrow, Option.any_some, hactive] at hfree
    exact absurd hfree (by simp)
  unfold RunQueue.settled
  split
  · exact h.putRun hid rfl (RunOk.of_ended rfl)
  · exact h.putRun hid rfl ((h.runs id run hid).moved rfl
      fun _ => ⟨by rw [hqueued]; rfl, Or.inr hnotWaiting⟩)

theorem Inv.callRun {s : State} (h : Inv s) {id : RunId} {run : Run} {call : RunQueue.Call ε}
    {answer : Handled} (hid : s.db.runs.get? id = some run)
    (hanswer : call.handle cfg fmt s.now run = .answer answer)
    (hfinds : finds s.now run call = true) : Inv (RefreshFirst.putRun s id answer.run) := by
  cases hpay : call.payloadTo answer.answer with
  | none =>
    have hreap : ∀ rule, call = .reap rule → Reaper.applies rule s.now run = true := by
      rintro rule rfl
      exact hfinds
    obtain ⟨hkeeps, hserved⟩ := RunQueue.Call.handle_served hanswer hpay hreap
    exact h.putRun hid hkeeps.pin ((h.runs id run hid).served hkeeps hserved)
  | some claimToken =>
    obtain ⟨hkeeps, hfetched⟩ := RunQueue.Call.handle_payload hanswer hpay
    exact h.putRun hid hkeeps.pin
      ((h.runs id run hid).of_running hkeeps (RunQueue.running_of_owns hfetched.owned))

theorem locked_of_lockedRefresh {s : State} {id : RefreshId} {claim : Digest}
    {row : InventoryRefresh} (h : lockedRefresh s id claim = some row) :
    s.db.refreshes.get? id = some row ∧ row.status = .running := by
  obtain ⟨hrow, hlocked⟩ := Option.filter_eq_some_iff.mp h
  simp only [Bool.and_eq_true, decide_eq_true_eq] at hlocked
  exact ⟨hrow, hlocked.1⟩

theorem running_of_refreshApplies {rule : Reaper.RefreshRule} {now : Time} {row : InventoryRefresh}
    (h : Reaper.refreshApplies rule now row = true) : row.status = .running := by
  unfold Reaper.refreshApplies at h
  rw [Bool.and_eq_true, decide_eq_true_eq] at h
  exact h.1

/-- How the refreshes change in one step. -/
inductive Change (fmt : EventFormat ε) (s s' : State) : Prop
  /-- Every active refresh stays active. -/
  | kept (h : ∀ refresh, Waits s.db refresh → Waits s'.db refresh)
  | merged (id other : RefreshId) (mem : (id, other) ∈ s'.merged)
      (h : ∀ refresh, refresh ≠ id → Waits s.db refresh → Waits s'.db refresh)
  | ended (id : RefreshId) (refresh : InventoryRefresh) (db : Db) (status : RunStatus)
      (error : Option String) (ending : Ending s id refresh db)
      (hdb : db.endRefresh fmt s.now id refresh status error = some s'.db)

theorem Inv.goesOn {s : State} (h : Inv s) {id : RefreshId} {row row' : InventoryRefresh}
    (hrow : s.db.refreshes.get? id = some row) (hactive : row.status.active = true)
    (hactive' : row'.status.active = true) (hsnap : row'.snapshotId = row.snapshotId) :
    Inv (RefreshFirst.putRefresh s id row') ∧ Change fmt s (RefreshFirst.putRefresh s id row') := by
  refine ⟨h.putRefresh hactive' ?_ (hsnap.trans (h.unstored id row hrow hactive).1),
    .kept fun _ => Waits.putRefresh hactive'⟩
  intro old hold
  rw [hrow] at hold
  obtain rfl := Option.some.inj hold
  exact hactive

theorem Inv.goesOver {s : State} (h : Inv s) {id : RefreshId} {row refresh : InventoryRefresh}
    {db : Db} {db' : Option Db} {s' : State} {status : RunStatus} {error : Option String}
    (hrow : s.db.refreshes.get? id = some row) (hrunning : row.status = .running)
    (hstatus : status.finished = true) (he : Ending s id refresh db)
    (hdb : db.endRefresh fmt s.now id refresh status error = db') (hs : setDb s db' = some s') :
    Inv s' ∧ Change fmt s s' := by
  obtain ⟨after, hafter, rfl⟩ := Option.map_eq_some_iff.mp hs
  rw [hafter] at hdb
  exact ⟨h.ends hrow (by rw [hrunning]; rfl) hstatus he hdb,
    .ended id refresh db status error he hdb⟩

/-- One step keeps the invariant, and changes the refreshes in one of three ways. -/
theorem step_spec {s s' : State} {a : Label ε} (h : Inv s) (hs : step cfg fmt s a = some s') :
    Inv s' ∧ Change fmt s s' := by
  have same : ∀ {t : State}, Inv t → t.db.refreshes = s.db.refreshes → Inv t ∧ Change fmt s t := by
    intro t ht hrefreshes
    refine ⟨ht, .kept ?_⟩
    rintro refresh ⟨row, hget, hactive⟩
    exact ⟨row, by rw [hrefreshes, hget], hactive⟩
  cases a with
  | tick seconds =>
    obtain rfl := Option.some.inj hs
    exact same ⟨h.runs, h.unstored, h.known, h.unique, h.asked⟩ rfl
  | createInventory id inventory =>
    simp only [step] at hs
    split at hs
    · obtain rfl := Option.some.inj hs
      exact same ⟨h.runs, h.unstored, h.known, h.unique, h.asked⟩ rfl
    · exact absurd hs (by simp)
  | trigger id inventory refreshFirst hasSources static groupName new request =>
    simp only [step, Bool.and_eq_true, Option.isNone_iff_eq_none] at hs
    split at hs
    · next hfresh =>
      obtain ⟨hinv, hwaits⟩ := h.trigger hfresh.2 hs
      exact ⟨hinv, .kept hwaits⟩
    · exact absurd hs (by simp)
  | enqueueRefresh inventory new scope =>
    simp only [step, Option.isNone_iff_eq_none] at hs
    split at hs
    · next hnew =>
      obtain ⟨k, row, heq, hqueued, hnone, hold⟩ := h.enqueue_cases inventory scope hnew
      rw [heq] at hs
      obtain rfl := Option.some.inj hs
      have hactive : row.status.active = true := by rw [hqueued]; rfl
      exact ⟨h.putRefresh hactive hold hnone, .kept fun _ => Waits.putRefresh hactive⟩
    · exact absurd hs (by simp)
  | claimRefresh id by_ =>
    obtain ⟨row, hrow, hs⟩ := Option.bind_eq_some_iff.mp hs
    split at hs
    · next hcan =>
      simp only [Bool.and_eq_true, decide_eq_true_eq] at hcan
      obtain rfl := Option.some.inj hs
      exact h.goesOn hrow (by rw [hcan.1]; rfl) rfl rfl
    · exact absurd hs (by simp)
  | refreshJob id claim =>
    obtain ⟨row, hrow, hs⟩ := Option.bind_eq_some_iff.mp hs
    obtain ⟨hget, hrunning⟩ := locked_of_lockedRefresh hrow
    have hactive : row.status.active = true := by rw [hrunning]; rfl
    split at hs
    · obtain rfl := Option.some.inj hs
      exact h.goesOn hget hactive hactive rfl
    · exact absurd hs (by simp)
  | requeueRefresh id claim waitingFor =>
    obtain ⟨row, hrow, hs⟩ := Option.bind_eq_some_iff.mp hs
    obtain ⟨hget, hrunning⟩ := locked_of_lockedRefresh hrow
    have hactive : row.status.active = true := by rw [hrunning]; rfl
    obtain rfl := Option.some.inj hs
    cases hq : s.db.queuedRefresh? row.inventoryId with
    | none =>
      simp only [Db.requeueRefresh, hq]
      exact h.goesOn hget hactive rfl rfl
    | some found =>
      obtain ⟨other, queued⟩ := found
      exact ⟨h.merge hget hrunning hq, .merged id other List.mem_cons_self fun _ => Waits.merge hq⟩
  | combine id claim =>
    obtain ⟨row, hrow, hs⟩ := Option.bind_eq_some_iff.mp hs
    obtain ⟨hget, hrunning⟩ := locked_of_lockedRefresh hrow
    have hactive : row.status.active = true := by rw [hrunning]; rfl
    split at hs
    · obtain rfl := Option.some.inj hs
      exact h.goesOn hget hactive hactive rfl
    · exact absurd hs (by simp)
  | finishRefresh id claim new data withOutput rows =>
    obtain ⟨row, hrow, hs⟩ := Option.bind_eq_some_iff.mp hs
    obtain ⟨hget, hrunning⟩ := locked_of_lockedRefresh hrow
    have hactive : row.status.active = true := by rw [hrunning]; rfl
    simp only [Bool.and_eq_true, Option.isNone_iff_eq_none] at hs
    split at hs
    · next hcan =>
      obtain ⟨after, hafter, rfl⟩ := Option.map_eq_some_iff.mp hs
      obtain ⟨refresh, db, status, error, he, hstatus, hdb⟩ :=
        finishRefresh_ending hcan.2 (h.unstored id row hget hactive).1 hafter
      exact ⟨h.ends hget hactive hstatus he hdb, .ended id refresh db status error he hdb⟩
    · exact absurd hs (by simp)
  | failRefresh id claim status error =>
    obtain ⟨row, hrow, hs⟩ := Option.bind_eq_some_iff.mp hs
    obtain ⟨hget, hrunning⟩ := locked_of_lockedRefresh hrow
    have hactive : row.status.active = true := by rw [hrunning]; rfl
    simp only [Bool.and_eq_true] at hs
    split at hs
    · next hcan =>
      exact h.goesOver hget hrunning hcan.1
        (.unstored s id row (h.unstored id row hget hactive).1) rfl hs
    · exact absurd hs (by simp)
  | reapRefresh id rule =>
    obtain ⟨row, hget, hs⟩ := Option.bind_eq_some_iff.mp hs
    dsimp only at hs
    split at hs
    · next happlies =>
      have hrunning := running_of_refreshApplies happlies
      have hactive : row.status.active = true := by rw [hrunning]; rfl
      have hstatus : (Reaper.refreshVerdict fmt rule row).1.finished = true := by cases rule <;> rfl
      exact h.goesOver hget hrunning hstatus
        (.unstored s id row (h.unstored id row hget hactive).1) rfl hs
    · exact absurd hs (by simp)
  | pruneSnapshots =>
    obtain rfl := Option.some.inj hs
    exact ⟨h.prune, .kept fun _ => Waits.prune⟩
  | claimRun id by_ =>
    obtain ⟨run, hid, hs⟩ := Option.bind_eq_some_iff.mp hs
    dsimp only at hs
    split at hs
    · next hclaim =>
      obtain rfl := Option.some.inj hs
      exact same (h.claimRun hid hclaim) rfl
    · exact absurd hs (by simp)
  | callRun id call =>
    obtain ⟨run, hid, hs⟩ := Option.bind_eq_some_iff.mp hs
    split at hs
    · next answer hanswer =>
      split at hs
      · next hfinds =>
        obtain rfl := Option.some.inj hs
        exact same (h.callRun hid hanswer hfinds) rfl
      · exact absurd hs (by simp)
    · exact absurd hs (by simp)
  | storeDown id claimToken reason waitOver =>
    obtain ⟨run, hid, hs⟩ := Option.bind_eq_some_iff.mp hs
    obtain rfl := Option.some.inj hs
    obtain ⟨hkeeps, hserved | ⟨howns, hrow⟩⟩ :=
      @RunQueue.storeDown_cases ε cfg fmt s.now run claimToken reason waitOver
    · exact same (h.putRun hid hkeeps.pin ((h.runs id run hid).served hkeeps hserved)) rfl
    · exact same (h.putRun hid hkeeps.pin
        ((h.runs id run hid).of_running hkeeps (RunQueue.running_of_owns howns))) rfl

theorem inv_inductive :
    (system cfg fmt).Inductive Lib.anyStep Inv where
  init s hs := by
    obtain rfl : s = {} := hs
    exact inv_init
  step _ _ _ h _ hs := (step_spec h hs).1

/-- The transaction that ends a refresh without a snapshot of its own fails the runs that wait. -/
theorem failed_of_ended {s s' : State} (hc : Change fmt s s') {refresh : RefreshId}
    (hw : Waits s.db refresh) {row : InventoryRefresh}
    (hrow : s'.db.refreshes.get? refresh = some row) (hended : row.status.active = false)
    (hunmerged : ∀ other, (refresh, other) ∉ s'.merged)
    (hnone : row.status ≠ .success ∨ row.snapshotId = none) {k : RunId} {run : Run}
    (hk : s.db.runs.get? k = some run) (hqueued : run.status = .queued)
    (hwaiting : run.waitingRefreshId = some refresh) :
    ∃ run', s'.db.runs.get? k = some run' ∧ run'.status = .failed := by
  have hnotWaits : ¬Waits s'.db refresh := by
    rintro ⟨row', hrow', hactive⟩
    rw [hrow] at hrow'
    obtain rfl := Option.some.inj hrow'
    rw [hended] at hactive
    exact absurd hactive (by simp)
  cases hc with
  | kept hkept => exact absurd (hkept refresh hw) hnotWaits
  | merged id other hmem hkept =>
    by_cases hid : refresh = id
    · rw [← hid] at hmem
      exact absurd hmem (hunmerged other)
    · exact absurd (hkept refresh hid hw) hnotWaits
  | ended id row' db status error he hdb =>
    have hr := endRefresh_released hdb
    by_cases hid : refresh = id
    · subst hid
      rw [hr.refreshes, Table.get?_put_self] at hrow
      obtain rfl := Option.some.inj hrow
      obtain ⟨run', hrun', -, hreleased⟩ := hr.runs k run (by rw [he.runs, hk])
      have hmade : db.made row' status = none := by
        unfold Db.made
        split
        · next hsuccess =>
          rcases hnone with hnot | hno
          · exact absurd hsuccess hnot
          · have hno' : row'.snapshotId = none := hno
            rw [hno', Option.bind_none]
        · rfl
      have hrelease := hreleased (by simp [waitsFor, hwaiting, hqueued])
      rw [hmade] at hrelease
      exact ⟨run', hrun', release_none hrelease⟩
    · obtain ⟨r, hget, hactive⟩ := hw
      exact absurd
        ⟨r, by rw [hr.refreshes, Table.get?_put_of_ne _ _ hid, he.others refresh hid, hget],
        hactive⟩ hnotWaits

theorem claimable_eq_false {s : State} {run : Run} {refresh : RefreshId}
    (hwaiting : run.waitingRefreshId = some refresh) (hw : Waits s.db refresh) :
    claimable s run = false := by
  obtain ⟨row, hrow, hactive⟩ := hw
  simp [claimable, hwaiting, hrow, hactive]

/-- What a run that refreshes the inventory first can rely on. -/
structure RefreshedFirst (cfg : RunQueue.Settings) (fmt : EventFormat ε) (s : State) : Prop where
  /-- It waits, and can't be claimed; or it has the snapshot its refresh stored. -/
  pinned : ∀ id run refresh, s.db.runs.get? id = some run → run.waitingRefreshId = some refresh →
    run.status.active = true →
    (run.status = .queued ∧ Waits s.db refresh ∧ claimable s run = false) ∨
      PinnedTo s.db run.pin refresh
  /-- That refresh is the one it asked for, or one this was merged into. -/
  asked : ∀ id run refresh, s.db.runs.get? id = some run → run.waitingRefreshId = some refresh →
    ∃ first, s.askedFor.get? id = some first ∧ Relation.ReflTransGen (Merged s) first refresh
  /-- A refresh stores one snapshot. -/
  unique : ∀ k k' a b refresh, s.db.snapshots.get? k = some a → s.db.snapshots.get? k' = some b →
    a.refreshId = some refresh → b.refreshId = some refresh → k = k'
  /-- The step that ends a refresh without one, other than by a merge, fails the runs that wait. -/
  failed : ∀ (a : Label ε) s' refresh row, step cfg fmt s a = some s' → Waits s.db refresh →
    s'.db.refreshes.get? refresh = some row → row.status.active = false →
    (∀ other, (refresh, other) ∉ s'.merged) → (row.status ≠ .success ∨ row.snapshotId = none) →
    ∀ id run, s.db.runs.get? id = some run → run.status = .queued →
      run.waitingRefreshId = some refresh →
      ∃ run', s'.db.runs.get? id = some run' ∧ run'.status = .failed

/-- **A run that waited for a refresh runs with the snapshot that refresh stored, or not at all.**
-/
theorem refreshed_first {s : State} (hr : (system cfg fmt).Reachable s) :
    RefreshedFirst cfg fmt s := by
  have h : Inv s := inv_inductive.of_reachable hr
  refine ⟨?_, h.asked, h.unique, ?_⟩
  · intro id run refresh hid hwaiting hactive
    rcases h.runs id run hid refresh hwaiting hactive with ⟨hqueued, hw⟩ | hpinned
    · exact Or.inl ⟨hqueued, hw, claimable_eq_false hwaiting hw⟩
    · exact Or.inr hpinned
  · intro a s' refresh row hs hw hrow hended hunmerged hnone id run hid hqueued hwaiting
    exact failed_of_ended (step_spec h hs).2 hw hrow hended hunmerged hnone hid hqueued hwaiting

/-- A run waits for a refresh that is requeued, merges into the one queued meanwhile, and stores a
snapshot; the run is claimed with it. -/
def mergedAndPinned : List (Label Nat) :=
  [.createInventory 1 {}, .trigger 1 1 true true ⟨∅, ∅⟩ none 7, .claimRefresh 7 ⟨"w", "c7", "j7"⟩,
    .trigger 2 1 true true ⟨∅, ∅⟩ none 8, .requeueRefresh 7 "c7" "the secret store",
    .claimRefresh 8 ⟨"w", "c8", "j8"⟩, .refreshJob 8 "c8",
    .finishRefresh 8 "c8" 3 ⟨∅, ∅, ∅, []⟩ [5]
      [{ sourceId := some 5, name := "cloud", status := some .success }],
    .pruneSnapshots, .claimRun 1 ⟨"w", "c1", "j1"⟩]

theorem refreshed_first_merged :
    RefreshedFirst { hashToken := id } byteFormat
      (((system { hashToken := id } byteFormat).run Lib.anyStep {} mergedAndPinned).get rfl) :=
  refreshed_first (.of_isSome rfl mergedAndPinned rfl)

end RefreshFirst

end AnsiDeck
