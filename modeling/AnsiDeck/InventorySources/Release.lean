import AnsiDeck.InventorySources.Snapshots

/-!
# What the end of a refresh does

The refresh's row ends, and each run that waited for it gets the snapshot it made or fails
(`Released`); nothing else changes.
-/

namespace AnsiDeck

namespace InventorySources

open Lib (Table)
open Db (release targets waitsFor ended)
open InventoryRender (merge)

variable {ε : Type} {fmt : EventFormat ε}

theorem queuedRefresh?_eq_some {db : Db} {inventory : InventoryId} {id : RefreshId}
    {row : InventoryRefresh} (h : db.queuedRefresh? inventory = some (id, row)) :
    db.refreshes.get? id = some row ∧ row.status = .queued := by
  obtain ⟨e, he, heq⟩ := Option.map_eq_some_iff.mp h
  obtain ⟨rfl, rfl⟩ := Prod.mk.inj heq
  refine ⟨Table.get?_eq_some_iff.mpr (List.mem_of_find?_eq_some he), ?_⟩
  have hfound := List.find?_some he
  simp only [Bool.and_eq_true, decide_eq_true_eq] at hfound
  exact hfound.2

/-- A waiting run fails, or gets the snapshot. -/
theorem release_cases {now : Time} {status : RunStatus} {error : Option String}
    {snapshot : Option (SnapshotId × InventorySnapshot)} {run run' : Run}
    (h : release fmt now status error snapshot run = .ok run') :
    (run'.status = .failed ∧ run'.waitingRefreshId = run.waitingRefreshId) ∨
      ∃ id snap, snapshot = some (id, snap) ∧ run'.pin = { run.pin with snapshot := some id } ∧
        targets run.pin snap.data = .ok true := by
  cases snapshot with
  | none =>
    obtain rfl := Except.ok.inj h
    exact Or.inl ⟨rfl, rfl⟩
  | some found =>
    obtain ⟨id, snap⟩ := found
    unfold release at h
    dsimp only at h
    cases ht : targets run.pin snap.data with
    | error e =>
      rw [ht] at h
      exact absurd h (by simp [bind, Except.bind])
    | ok inGraph =>
      rw [ht] at h
      cases inGraph with
      | true =>
        obtain rfl := Except.ok.inj h
        exact Or.inr ⟨id, snap, rfl, rfl, ht⟩
      | false =>
        obtain rfl := Except.ok.inj h
        exact Or.inl ⟨rfl, rfl⟩

/-- Without a snapshot it fails. -/
theorem release_none {now : Time} {status : RunStatus} {error : Option String} {run run' : Run}
    (h : release fmt now status error none run = .ok run') : run'.status = .failed := by
  obtain rfl := Except.ok.inj h
  rfl

theorem targets_true {pin : Pin} {data : SnapshotData} (h : targets pin data = .ok true) :
    ∃ graph, merge (pin.static.getD ⟨∅, ∅⟩) (some data) = .ok graph ∧
      ∀ group, pin.groupName = some group → graph.groups.contains (Lib.str group) = true := by
  unfold targets at h
  cases hm : merge (pin.static.getD ⟨∅, ∅⟩) (some data) with
  | error e =>
    rw [hm] at h
    exact absurd h (by simp [bind, Except.bind])
  | ok graph =>
    rw [hm] at h
    refine ⟨graph, rfl, ?_⟩
    intro group hgroup
    have hall : (pin.groupName.all fun group => graph.groups.contains (Lib.str group)) = true :=
      Except.ok.inj h
    rw [hgroup] at hall
    exact hall

theorem ok_of_toOption {α β : Type} {e : Except α β} {b : β} (h : e.toOption = some b) :
    e = .ok b := by
  cases e with
  | error a => exact absurd h (by simp [Except.toOption])
  | ok b' => exact congrArg Except.ok (Option.some.inj h)

/-- What the end of a refresh does: its row ends, the runs that waited for it are released, and
nothing else changes. -/
structure Released (fmt : EventFormat ε) (now : Time) (id : RefreshId) (refresh : InventoryRefresh)
    (status : RunStatus) (error : Option String) (db db' : Db) : Prop where
  refreshes : db'.refreshes = db.refreshes.put id (ended now status error refresh)
  snapshots : db'.snapshots = db.snapshots
  runs : ∀ k run, db.runs.get? k = some run → ∃ run', db'.runs.get? k = some run' ∧
    (waitsFor id run = false → run' = run) ∧
    (waitsFor id run = true →
      release fmt now status error (db.made refresh status) run = .ok run')
  back : ∀ k run', db'.runs.get? k = some run' → ∃ run, db.runs.get? k = some run

theorem endRefresh_released {now : Time} {db db' : Db} {id : RefreshId} {refresh : InventoryRefresh}
    {status : RunStatus} {error : Option String}
    (h : db.endRefresh fmt now id refresh status error = some db') :
    Released fmt now id refresh status error db db' := by
  unfold Db.endRefresh Db.releaseWaitingRuns at h
  dsimp only at h
  split at h
  · next hall =>
    obtain rfl := Option.some.inj h
    refine ⟨rfl, rfl, ?_, ?_⟩
    · intro k run hk
      obtain ⟨run', hrun'⟩ := Option.isSome_iff_exists.mp (Table.all_iff.mp hall k run hk)
      refine ⟨run', ?_, ?_, ?_⟩
      · rw [Table.get?_mapRows, hk, Option.map_some, hrun', Option.getD_some]
      · intro hno
        rw [Db.releaseRun, if_neg (by simp [hno])] at hrun'
        exact (Option.some.inj hrun').symm
      · intro hyes
        rw [Db.releaseRun, if_pos hyes] at hrun'
        exact ok_of_toOption hrun'
    · intro k run' hk
      rw [Table.get?_mapRows] at hk
      obtain ⟨run, hrun, -⟩ := Option.map_eq_some_iff.mp hk
      exact ⟨run, hrun⟩
  · exact absurd h (by simp)

theorem sourcesOutcome_finished (rows : List InventoryRefreshSource) :
    (sourcesOutcome rows).1.finished = true := by
  unfold sourcesOutcome
  dsimp only
  split <;> rfl

end InventorySources

end AnsiDeck
