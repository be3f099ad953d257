import AnsiDeck.RefreshFirst.Invariant
import AnsiDeck.InventorySources.Release

/-!
# The transaction that ends a refresh

It may store a snapshot first; then the refresh's row ends and the runs that waited for it are
released, each pinned to that snapshot or failed (`Released`). Whichever way a refresh ends, the
database it ends in is the one before it, with at most that snapshot more (`Ending`), so one lemma
covers them all (`Inv.ends`).
-/

namespace AnsiDeck

namespace RefreshFirst

open Lib (Table)
open InventorySources (Db Released endRefresh_released release_cases targets_true
  sourcesOutcome_finished)
open InventorySources.Db (waitsFor ended)

variable {ε : Type} {fmt : EventFormat ε}

/-! ## The transaction that ends a refresh -/

/-- The database a refresh ends in, from the one before it may have stored its snapshot. -/
structure Ending (s : State) (id : RefreshId) (refresh : InventoryRefresh) (db : Db) : Prop where
  runs : db.runs = s.db.runs
  others : ∀ k, k ≠ id → db.refreshes.get? k = s.db.refreshes.get? k
  kept : ∀ k snapshot, s.db.snapshots.get? k = some snapshot →
    ∃ snapshot', db.snapshots.get? k = some snapshot' ∧
      snapshot'.refreshId = snapshot.refreshId ∧ snapshot'.data = snapshot.data
  back : ∀ k snapshot, db.snapshots.get? k = some snapshot →
    (refresh.snapshotId = some k ∧ snapshot.refreshId = some id) ∨
      ∃ snapshot', s.db.snapshots.get? k = some snapshot' ∧ snapshot.refreshId = snapshot'.refreshId
  stored : ∀ k, refresh.snapshotId = some k →
    ∃ snapshot, db.snapshots.get? k = some snapshot ∧ snapshot.refreshId = some id

/-- The refresh ends, and the runs that waited for it are released in the same transaction. -/
theorem Inv.ends {s : State} (h : Inv s) {id : RefreshId}
    {row refresh : InventoryRefresh} {db db' : Db}
    {status : RunStatus} {error : Option String} (hrow : s.db.refreshes.get? id = some row)
    (hactive : row.status.active = true) (hstatus : status.finished = true)
    (he : Ending s id refresh db)
    (hdb : db.endRefresh fmt s.now id refresh status error = some db') :
    Inv { s with db := db' } := by
  have hr := endRefresh_released hdb
  have hother : ∀ k, k ≠ id → db'.refreshes.get? k = s.db.refreshes.get? k := by
    intro k hk
    rw [hr.refreshes, Table.get?_put_of_ne _ _ hk, he.others k hk]
  have hself : db'.refreshes.get? id = some (ended s.now status error refresh) := by
    rw [hr.refreshes, Table.get?_put_self]
  have hinactive : (ended s.now status error refresh).status.active = false := by
    show status.active = false
    simpa [RunStatus.finished] using hstatus
  have hrun : ∀ k run', db'.runs.get? k = some run' → ∃ run, s.db.runs.get? k = some run ∧
      run'.waitingRefreshId = run.waitingRefreshId ∧ RunOk db' run' := by
    intro k run' hk
    obtain ⟨run, hrun⟩ := hr.back k run' hk
    obtain ⟨run'', hrun'', hsame, hreleased⟩ := hr.runs k run hrun
    rw [hk] at hrun''
    obtain rfl := Option.some.inj hrun''
    rw [he.runs] at hrun
    refine ⟨run, hrun, ?_⟩
    cases hw : waitsFor id run with
    | false =>
      obtain rfl := hsame hw
      refine ⟨rfl, (h.runs k run' hrun).mono ?_ ?_⟩
      · rintro w hwaiting hqueued ⟨r, hget, hact⟩
        have hne : w ≠ id := by
          intro hwid
          rw [hwid] at hwaiting
          exact absurd hw (by simp [waitsFor, hwaiting, hqueued])
        exact ⟨r, by rw [hother w hne, hget], hact⟩
      · intro sid snapshot _ _ hs
        rw [hr.snapshots]
        exact he.kept sid snapshot hs
    | true =>
      simp only [waitsFor, Bool.and_eq_true, decide_eq_true_eq] at hw
      rcases release_cases (hreleased (by simp [waitsFor, hw])) with
        ⟨hfailed, hwaiting⟩ | ⟨sid, snap, hfound, hpin, htargets⟩
      · exact ⟨hwaiting, RunOk.of_ended (by rw [hfailed]; rfl)⟩
      · unfold Db.made at hfound
        split at hfound
        · obtain ⟨sid', hsid', hmap⟩ := Option.bind_eq_some_iff.mp hfound
          obtain ⟨snap', hsnap', heq⟩ := Option.map_eq_some_iff.mp hmap
          obtain ⟨rfl, rfl⟩ := Prod.mk.inj heq
          obtain ⟨stored, hstored, hrefresh⟩ := he.stored sid' hsid'
          rw [hsnap'] at hstored
          obtain rfl := Option.some.inj hstored
          have hwaiting : run'.waitingRefreshId = some id :=
            (congrArg Pin.waiting hpin).trans hw.1
          refine ⟨hwaiting.trans hw.1.symm, ?_⟩
          intro w hww _
          rw [hwaiting] at hww
          obtain rfl := Option.some.inj hww
          refine Or.inr ⟨sid', snap', by rw [hpin], by rw [hr.snapshots, hsnap'], hrefresh, ?_⟩
          rw [hpin]
          exact targets_true htargets
        · exact absurd hfound (by simp)
  constructor
  · intro k run' hk
    obtain ⟨run, -, -, hok⟩ := hrun k run' hk
    exact hok
  · intro k r hk hact
    by_cases hkid : k = id
    · rw [show ({ s with db := db' } : State).db = db' from rfl, hkid, hself] at hk
      obtain rfl := Option.some.inj hk
      rw [hinactive] at hact
      exact absurd hact (by simp)
    · have hk' : s.db.refreshes.get? k = some r := by rw [← hother k hkid]; exact hk
      refine ⟨(h.unstored k r hk' hact).1, ?_⟩
      intro sid snapshot hs
      have hs' : db.snapshots.get? sid = some snapshot := by rw [← hr.snapshots]; exact hs
      rcases he.back sid snapshot hs' with ⟨-, hstored⟩ | ⟨snapshot', hsnap', heq⟩
      · rw [hstored]
        intro hid
        exact hkid (Option.some.inj hid).symm
      · rw [heq]
        exact (h.unstored k r hk' hact).2 sid snapshot' hsnap'
  · intro k snapshot w hs hstored
    have hs' : db.snapshots.get? k = some snapshot := by rw [← hr.snapshots]; exact hs
    by_cases hwid : w = id
    · exact ⟨_, by rw [hwid]; exact hself⟩
    · rcases he.back k snapshot hs' with ⟨-, hid⟩ | ⟨snapshot', hsnap', heq⟩
      · rw [hid] at hstored
        exact absurd (Option.some.inj hstored).symm hwid
      · obtain ⟨r, hget⟩ := h.known k snapshot' w hsnap' (by rw [← heq]; exact hstored)
        exact ⟨r, by rw [← hget]; exact hother w hwid⟩
  · intro k k' a b w ha hb hwa hwb
    have hback : ∀ j snapshot, db'.snapshots.get? j = some snapshot → snapshot.refreshId = some w →
        (w = id ∧ refresh.snapshotId = some j) ∨
          ∃ old, s.db.snapshots.get? j = some old ∧ old.refreshId = some w := by
      intro j snapshot hj hwj
      rw [hr.snapshots] at hj
      rcases he.back j snapshot hj with ⟨hid, hstored⟩ | ⟨old, hold, heq⟩
      · rw [hwj] at hstored
        exact Or.inl ⟨Option.some.inj hstored, hid⟩
      · exact Or.inr ⟨old, hold, by rw [← heq]; exact hwj⟩
    have hno : ∀ j old, s.db.snapshots.get? j = some old → old.refreshId ≠ some id :=
      (h.unstored id row hrow hactive).2
    rcases hback k a ha hwa with ⟨hwid, hid⟩ | ⟨olda, hka, hola⟩
    · rcases hback k' b hb hwb with ⟨-, hid'⟩ | ⟨oldb, hkb, holb⟩
      · rw [hid] at hid'
        exact Option.some.inj hid'
      · rw [hwid] at holb
        exact absurd holb (hno k' oldb hkb)
    · rcases hback k' b hb hwb with ⟨hwid, -⟩ | ⟨oldb, hkb, holb⟩
      · rw [hwid] at hola
        exact absurd hola (hno k olda hka)
      · exact h.unique k k' olda oldb w hka hkb hola holb
  · intro k run' w hk hwaiting
    obtain ⟨run, hold, hsame, -⟩ := hrun k run' hk
    exact h.asked k run w hold (by rw [← hsame]; exact hwaiting)

/-- A refresh that fails, or is cancelled, stores nothing. -/
theorem Ending.unstored (s : State) (id : RefreshId) (row : InventoryRefresh)
    (hnone : row.snapshotId = none) : Ending s id row s.db := by
  refine ⟨rfl, fun k _ => rfl, ?_, ?_, ?_⟩
  · intro k snapshot hs
    exact ⟨snapshot, hs, rfl, rfl⟩
  · intro k snapshot hs
    exact Or.inr ⟨snapshot, hs, rfl⟩
  · intro k hk
    rw [hnone] at hk
    exact absurd hk (by simp)

/-- One that succeeds stores its snapshot first. -/
theorem Ending.storing (s : State) (id : RefreshId) (row : InventoryRefresh) {new : SnapshotId}
    (data : SnapshotData) (hnew : s.db.snapshots.get? new = none) :
    Ending s id { row with snapshotId := some new } (s.db.storeSnapshot s.now id row new data) := by
  have hget : ∀ k, k ≠ new → (s.db.storeSnapshot s.now id row new data).snapshots.get? k
      = (s.db.snapshots.get? k).map fun snapshot =>
        if (s.db.inventories.get? row.inventoryId).bind Inventory.currentSnapshotId = some k then
          { snapshot with supersededAt := some s.now } else snapshot := by
    intro k hk
    simp only [Db.storeSnapshot, Db.supersede]
    rw [Table.get?_put_of_ne _ _ hk, Table.get?_mapRows]
  refine ⟨rfl, ?_, ?_, ?_, ?_⟩
  · intro k hk
    exact Table.get?_modify_of_ne _ _ hk
  · intro k snapshot hs
    have hk : k ≠ new := by
      rintro rfl
      rw [hnew] at hs
      exact absurd hs (by simp)
    rw [hget k hk, hs, Option.map_some]
    refine ⟨_, rfl, ?_, ?_⟩
    · split <;> rfl
    · split <;> rfl
  · intro k snapshot hs
    by_cases hk : k = new
    · rw [hk] at hs ⊢
      simp only [Db.storeSnapshot, Table.get?_put_self, Option.some.injEq] at hs
      subst hs
      exact Or.inl ⟨rfl, rfl⟩
    · rw [hget k hk] at hs
      obtain ⟨old, hold, rfl⟩ := Option.map_eq_some_iff.mp hs
      refine Or.inr ⟨old, hold, ?_⟩
      split <;> rfl
  · intro k hk
    obtain rfl := Option.some.inj hk
    exact ⟨_, Table.get?_put_self _ _ _, rfl⟩

/-- `finish_refresh` ends in one of the two. -/
theorem finishRefresh_ending {s : State} {id : RefreshId} {row : InventoryRefresh}
    {new : SnapshotId}
    {data : SnapshotData} {withOutput : List SourceId}
    {rows : List InventoryRefreshSource} {db' : Db}
    (hnew : s.db.snapshots.get? new = none) (hnone : row.snapshotId = none)
    (h : s.db.finishRefresh fmt s.now id row new data withOutput rows = some db') :
    ∃ refresh db status error, Ending s id refresh db ∧ status.finished = true ∧
      db.endRefresh fmt s.now id refresh status error = some db' := by
  have hstatus := sourcesOutcome_finished rows
  unfold Db.finishRefresh at h
  dsimp only at h
  split at h
  · exact ⟨row, s.db, _, _, .unstored s id row hnone, hstatus, h⟩
  · exact ⟨_, _, _, _, .storing s id row data hnew, hstatus, h⟩

end RefreshFirst

end AnsiDeck
