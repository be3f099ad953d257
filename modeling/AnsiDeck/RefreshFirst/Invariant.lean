import AnsiDeck.RefreshFirst.System

/-!
# What an active run is pinned to

The invariant of runs that refresh the inventory first. While such a run waits, its refresh is
queued or running; after that the run is pinned to the snapshot the refresh stored (`RunOk`). Here
are the lemmas for the steps that change one run's row or one refresh's.
-/

namespace AnsiDeck

namespace RefreshFirst

open Lib (Table)
open InventorySources (Db)
open InventoryRender (merge)

/-- The refresh is queued or running. -/
def Waits (db : Db) (refresh : RefreshId) : Prop :=
  ∃ row, db.refreshes.get? refresh = some row ∧ row.status.active = true

/-- Pinned to the snapshot that this refresh stored, with the target group in what they merge to. -/
def PinnedTo (db : Db) (pin : Pin) (refresh : RefreshId) : Prop :=
  ∃ id snapshot, pin.snapshot = some id ∧ db.snapshots.get? id = some snapshot ∧
    snapshot.refreshId = some refresh ∧
    ∃ graph, merge (pin.static.getD ⟨∅, ∅⟩) (some snapshot.data) = .ok graph ∧
      ∀ group, pin.groupName = some group → graph.groups.contains (Lib.str group) = true

/-- An active run that waits, or waited, for a refresh. -/
def RunOk (db : Db) (run : Run) : Prop :=
  ∀ refresh, run.waitingRefreshId = some refresh → run.status.active = true →
    (run.status = .queued ∧ Waits db refresh) ∨ PinnedTo db run.pin refresh

/-- `a` was merged into `b`. -/
def Merged (s : State) (a b : RefreshId) : Prop := (a, b) ∈ s.merged

structure Inv (s : State) : Prop where
  runs : ∀ id run, s.db.runs.get? id = some run → RunOk s.db run
  /-- A refresh that hasn't ended has stored nothing. -/
  unstored : ∀ id row, s.db.refreshes.get? id = some row → row.status.active = true →
    row.snapshotId = none ∧ ∀ k snapshot, s.db.snapshots.get? k = some snapshot →
      snapshot.refreshId ≠ some id
  known : ∀ k snapshot refresh, s.db.snapshots.get? k = some snapshot →
    snapshot.refreshId = some refresh → ∃ row, s.db.refreshes.get? refresh = some row
  unique : ∀ k k' a b refresh, s.db.snapshots.get? k = some a → s.db.snapshots.get? k' = some b →
    a.refreshId = some refresh → b.refreshId = some refresh → k = k'
  /-- A run only ever moves from the refresh it asked for along merges. -/
  asked : ∀ id run refresh, s.db.runs.get? id = some run → run.waitingRefreshId = some refresh →
    ∃ first, s.askedFor.get? id = some first ∧ Relation.ReflTransGen (Merged s) first refresh

theorem inv_init : Inv {} := by
  constructor
  · intro id run h
    exact absurd h (by simp)
  · intro id row h
    exact absurd h (by simp)
  · intro k snapshot refresh h
    exact absurd h (by simp)
  · intro k k' a b refresh h
    exact absurd h (by simp)
  · intro id run refresh h
    exact absurd h (by simp)

/-! ## What keeps a run in order -/

/-- The database goes on, and the run keeps what it is pinned to. -/
theorem RunOk.mono {db db' : Db} {run : Run} (h : RunOk db run)
    (hwaits : ∀ refresh, run.waitingRefreshId = some refresh → run.status = .queued →
      Waits db refresh → Waits db' refresh)
    (hkept : ∀ id snapshot, run.inventorySnapshotId = some id → run.status.active = true →
      db.snapshots.get? id = some snapshot → ∃ snapshot', db'.snapshots.get? id = some snapshot' ∧
        snapshot'.refreshId = snapshot.refreshId ∧ snapshot'.data = snapshot.data) :
    RunOk db' run := by
  intro refresh hwaiting hactive
  rcases h refresh hwaiting hactive with ⟨hqueued, hw⟩ | ⟨id, snapshot, hid, hsnap, hstored, hgroup⟩
  · exact Or.inl ⟨hqueued, hwaits refresh hwaiting hqueued hw⟩
  · obtain ⟨snapshot', hsnap', hrefresh, hdata⟩ := hkept id snapshot hid hactive hsnap
    refine Or.inr ⟨id, snapshot', hid, hsnap', by rw [hrefresh]; exact hstored, ?_⟩
    rw [hdata]
    exact hgroup

/-- The run moves on, with the same pin; it only starts or goes back to the queue when it no
longer waits. -/
theorem RunOk.moved {db : Db} {run run' : Run} (h : RunOk db run) (hpin : run'.pin = run.pin)
    (hmoved : run'.status.active = true → run.status.active = true ∧ (run'.status = run.status ∨
      ∀ refresh, run.waitingRefreshId = some refresh → ¬(run.status = .queued ∧ Waits db refresh)))
        :
    RunOk db run' := by
  intro refresh hwaiting hactive
  obtain ⟨hold, hsame⟩ := hmoved hactive
  have hwaiting' : run.waitingRefreshId = some refresh := by
    rw [← hwaiting]
    exact (congrArg Pin.waiting hpin).symm
  rcases h refresh hwaiting' hold with hw | hp
  · rcases hsame with heq | hnot
    · exact Or.inl ⟨heq.trans hw.1, hw.2⟩
    · exact absurd hw (hnot refresh hwaiting')
  · exact Or.inr (by rw [hpin]; exact hp)

theorem RunOk.of_ended {db : Db} {run : Run} (h : run.status.active = false) : RunOk db run := by
  intro refresh _ hactive
  rw [h] at hactive
  exact absurd hactive (by simp)

theorem Inv.putRun {s : State} (h : Inv s) {id : RunId} {run run' : Run}
    (hid : s.db.runs.get? id = some run) (hpin : run'.pin = run.pin) (hok : RunOk s.db run') :
    Inv (putRun s id run') := by
  refine ⟨?_, h.unstored, h.known, h.unique, ?_⟩
  · intro k r hk
    simp only [RefreshFirst.putRun, Table.get?_put] at hk
    split at hk
    · obtain rfl := Option.some.inj hk
      exact hok
    · exact h.runs k r hk
  · intro k r refresh hk hwaiting
    simp only [RefreshFirst.putRun, Table.get?_put] at hk
    split at hk
    · next hkid =>
      obtain rfl := Option.some.inj hk
      rw [hkid]
      exact h.asked id run refresh hid (by rw [← hwaiting]; exact (congrArg Pin.waiting hpin).symm)
    · exact h.asked k r refresh hk hwaiting

theorem Waits.putRefresh {s : State} {id refresh : RefreshId} {row' : InventoryRefresh}
    (hactive : row'.status.active = true) (hw : Waits s.db refresh) :
    Waits (putRefresh s id row').db refresh := by
  by_cases hr : refresh = id
  · exact ⟨row', by rw [hr]; exact Table.get?_put_self _ _ _, hactive⟩
  · obtain ⟨row, hget, hact⟩ := hw
    exact ⟨row, by
      rw [← hget]
      exact Table.get?_put_of_ne _ _ hr, hact⟩

/-- A refresh is queued, or goes on without ending. -/
theorem Inv.putRefresh {s : State} (h : Inv s) {id : RefreshId} {row' : InventoryRefresh}
    (hactive : row'.status.active = true)
    (hrow : ∀ row, s.db.refreshes.get? id = some row → row.status.active = true)
    (hsnap : row'.snapshotId = none) : Inv (putRefresh s id row') := by
  refine ⟨?_, ?_, ?_, h.unique, h.asked⟩
  · intro k run hk
    exact (h.runs k run hk).mono (fun _ _ _ => Waits.putRefresh hactive)
      (fun sid snapshot _ _ hs => ⟨snapshot, hs, rfl, rfl⟩)
  · intro k row hk hact
    simp only [RefreshFirst.putRefresh, Table.get?_put] at hk
    split at hk
    · next hkid =>
      obtain rfl := Option.some.inj hk
      refine ⟨hsnap, ?_⟩
      intro sid snapshot hs hstored
      obtain ⟨row, hget⟩ := h.known sid snapshot k hs hstored
      rw [hkid] at hget hstored
      exact (h.unstored id row hget (hrow row hget)).2 sid snapshot hs hstored
    · exact h.unstored k row hk hact
  · intro k snapshot refresh hs hstored
    obtain ⟨row, hget⟩ := h.known k snapshot refresh hs hstored
    by_cases hr : refresh = id
    · exact ⟨row', by rw [hr]; exact Table.get?_put_self _ _ _⟩
    · exact ⟨row, by
        rw [← hget]
        exact Table.get?_put_of_ne _ _ hr⟩

end RefreshFirst

end AnsiDeck
