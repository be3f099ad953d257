import AnsiDeck.RefreshReport.Results
import AnsiDeck.RefreshReport.Stage

/-!
# A refresh that succeeds has stored a snapshot

`sources_outcome` and `keep_current_snapshot` look at the same rows: a refresh without a failed row
is a success, and keeps the old snapshot when no row that ran worked. They disagree only when no
row that ran has a status at all, which is when every source it ran was deleted before the report.
-/

namespace AnsiDeck

namespace RefreshReport

open Lib (Table)
open Lib.System (ReachableBy)
open InventorySources (Db SourcesDb Outputs Released endRefresh_released release_cases
  sourcesOutcome keepCurrentSnapshot)
open InventorySources.SourcesDb (orphanedRow)
open InventorySources.Db (waitsFor ended)
open InternalApi

variable {ε : Type} {out : Outputs} {fmt : EventFormat ε} {id : RefreshId} {claim : Digest}

/-- Some row the refresh runs is settled, or it runs none. -/
def Settled (rows : List InventoryRefreshSource) : Prop :=
  (∃ row ∈ rows, row.ran = true) → ∃ row ∈ rows, row.ran = true ∧ row.status.isSome = true

/-- Some row the refresh runs is settled or will be by its report, or it runs none: not every
source it runs was deleted first. -/
def settles (rows : List InventoryRefreshSource) : Bool :=
  rows.all (!·.ran) || rows.any fun row => row.ran && (row.sourceId.isSome || row.status.isSome)

/-- A report is only taken while one of the sources the refresh runs is left, or settled. -/
def someLeft (id : RefreshId) (s : State) : Label → Prop
  | .report _ _ _ => ((s.db.refreshes.get? id).all fun row =>
      row.stage ≠ some "sources" || settles (s.db.refreshRows id)) = true
  | _ => True

instance (s : State) (a : Label) : Decidable (someLeft id s a) := by
  cases a <;> unfold someLeft <;> infer_instance

/-- A success without a snapshot has only rows that aren't settled. -/
theorem not_keep {rows : List InventoryRefreshSource} {current : Option InventorySnapshot}
    {withOutput : List SourceId} (hsettled : Settled rows)
    (hsuccess : (sourcesOutcome rows).1 = .success) :
    keepCurrentSnapshot current withOutput rows = false := by
  have hnone : ∀ row ∈ rows, row.status ≠ some .failed := by
    intro row hrow hfailed
    unfold sourcesOutcome at hsuccess
    dsimp only at hsuccess
    split at hsuccess
    · next hempty =>
      rw [List.map_eq_nil_iff] at hempty
      have hmem : row ∈ rows.filter (·.status = some .failed) :=
        List.mem_filter.mpr ⟨hrow, by simp [hfailed]⟩
      rw [hempty] at hmem
      exact absurd hmem (by simp)
    · exact absurd hsuccess (by simp)
  unfold keepCurrentSnapshot
  dsimp only
  split
  · next hkeep =>
    simp only [Bool.and_eq_true, decide_eq_true_eq, Bool.not_eq_true'] at hkeep
    obtain ⟨hran, hworked⟩ := hkeep
    obtain ⟨row, hrow⟩ := List.exists_mem_of_ne_nil _ hran
    obtain ⟨hmem, hrun⟩ := List.mem_filter.mp hrow
    obtain ⟨done, hdone, hdrun, hstatus⟩ := hsettled ⟨row, hmem, hrun⟩
    obtain ⟨status, hsome⟩ := Option.isSome_iff_exists.mp hstatus
    have hw := List.any_eq_false.mp hworked done (List.mem_filter.mpr ⟨hdone, hdrun⟩)
    rw [hsome] at hw
    cases status with
    | success => exact absurd hw (by simp)
    | stale => exact absurd hw (by simp)
    | failed => exact absurd hsome (hnone done hdone)
  · cases current with
    | none => rfl
    | some current =>
      apply List.any_eq_false.mpr
      intro row hrow
      simp [hnone row hrow]

theorem Settled.of_stored {rows rows' : List InventoryRefreshSource} {db : SourcesDb}
    {after : SourcesDb} (hall : SettlesAll rows db (rows', after)) (h : settles rows = true) :
    Settled rows' := by
  have hran : (∃ row ∈ rows', row.ran = true) → ∃ row ∈ rows, row.ran = true := by
    rintro ⟨row', hrow', hrun⟩
    obtain ⟨row, hrow, hran, -⟩ := exists_of_mem_right hall.each hrow'
    exact ⟨row, hrow, by rw [← hran]; exact hrun⟩
  have hsettled : (∃ row ∈ rows, row.ran = true ∧
      (row.sourceId.isSome = true ∨ row.status.isSome = true)) →
      ∃ row' ∈ rows', row'.ran = true ∧ row'.status.isSome = true := by
    rintro ⟨row, hrow, hrun, hleft⟩
    obtain ⟨row', hrow', hran, -, hdone⟩ := exists_of_mem_left hall.each hrow
    exact ⟨row', hrow', by rw [hran]; exact hrun, hdone hrun hleft⟩
  intro hruns
  apply hsettled
  unfold settles at h
  rcases Bool.or_eq_true _ _ |>.mp h with hnone | hsome
  · obtain ⟨row, hrow, hrun⟩ := hran hruns
    have := List.all_eq_true.mp hnone row hrow
    rw [hrun] at this
    exact absurd this (by simp)
  · obtain ⟨row, hrow, hleft⟩ := List.any_eq_true.mp hsome
    simp only [Bool.and_eq_true, Bool.or_eq_true] at hleft
    exact ⟨row, hrow, hleft⟩

theorem Settled.orphaned {rows : List InventoryRefreshSource} (h : Settled rows)
    (source : SourceId) : Settled (rows.map (orphanedRow source)) := by
  have hran : ∀ row, (orphanedRow source row).ran = row.ran := by
    intro row
    unfold orphanedRow
    split <;> rfl
  have hstatus : ∀ row, (orphanedRow source row).status = row.status := by
    intro row
    unfold orphanedRow
    split <;> rfl
  rintro ⟨row', hrow', hrun⟩
  obtain ⟨row, hrow, rfl⟩ := List.mem_map.mp hrow'
  rw [hran] at hrun
  obtain ⟨done, hdone, hdrun, hdstatus⟩ := h ⟨row, hrow, hrun⟩
  exact ⟨_, List.mem_map_of_mem hdone, by rw [hran]; exact hdrun, by rw [hstatus]; exact hdstatus⟩

/-! ## The invariant -/

/-- Once the sources are reported, some row that ran is settled. -/
def Kept (id : RefreshId) (claim : Digest) (s : State) : Prop :=
  stage? id claim s.db = some (some "combine") → Settled (s.db.refreshRows id)

theorem Kept.calm {s t : State} {a : Label} (h : Kept id claim s) (hc : Calm id claim a s t) :
    Kept id claim t := by
  intro hstage
  rcases hc.stage with hsame | hover
  · rw [hsame] at hstage
    rcases hc.rows with hrows | ⟨source, -, hrows⟩
    · rw [hrows]
      exact h hstage
    · rw [hrows]
      exact (h hstage).orphaned source
  · rw [hover] at hstage
    exact absurd hstage (by simp)

theorem Kept.ofOver {t : State} (h : stage? id claim t.db = none) : Kept id claim t := by
  intro hstage
  rw [h] at hstage
  exact absurd hstage (by simp)

theorem Kept.combined {s : State} {db : SourcesDb} {row : InventoryRefresh} {new : SnapshotId}
    {o : RefreshOutcome} (hsettled : Settled (db.refreshRows id))
    (h : Combined fmt s.now db id row new o) : Kept id claim (after s o) := by
  cases h with
  | handedOut ho =>
    subst ho
    intro _
    exact hsettled
  | failed hf => exact .ofOver hf.stage?
  | finished hf => exact .ofOver hf.stage?

theorem settles_of_someLeft {s : State} {row : InventoryRefresh}
    {results : List RefreshSourceResultIn} {combined : Except CombineError SnapshotData}
    {new : SnapshotId} (h : someLeft id s (.report results combined new))
    (hrow : lockedRefresh s.db id claim = some row) (hstage : row.stage = some "sources") :
    settles (s.db.refreshRows id) = true := by
  unfold someLeft at h
  rw [(lockedRefresh_eq_some.mp hrow).1] at h
  simpa [hstage] using h

theorem kept_inductive :
    (system out fmt id claim).Inductive (someLeft id) (Kept id claim) := by
  constructor
  · intro s hs hstage
    simp only [system, claimed, Bool.and_eq_true] at hs
    obtain ⟨row, hrow, hfresh⟩ := (Option.any_eq_true _ _).mp hs.1.1
    rw [stage?_of_locked hrow] at hstage
    simp [Option.some.inj hstage] at hfresh
  · intro s a t h hok hstep
    cases hworker : a.ofWorker with
    | false => exact h.calm (calm_step hworker hstep)
    | true =>
      cases a with
      | job how =>
        rcases fetchJob_spec hstep with hcalm | ⟨row, unreadable, -, hbuilt, -⟩
        · exact h.calm hcalm
        · intro hstage
          rw [hbuilt] at hstage
          exact absurd hstage (by simp)
      | output offset part chunk =>
        obtain rfl := Option.some.inj hstep
        exact h
      | report results combined new =>
        simp only [system, step] at hstep
        split at hstep
        · obtain ⟨o, ho, rfl⟩ := Option.map_eq_some_iff.mp hstep
          rcases refreshSources_spec ho with ⟨hdb, -⟩ |
            ⟨row, hrow, hf | ⟨hstage, stored, hstored, hc⟩ |
            ⟨hstage, hc⟩⟩
          · intro hstage
            rw [show (after s o).db = s.db from hdb] at hstage ⊢
            exact h hstage
          · exact .ofOver hf.stage?
          · obtain ⟨rows, db, hrows, rfl⟩ := storeResults_spec hstored
            refine .combined ?_ hc
            rw [refreshRows_putRows]
            exact .of_stored (settlesAll_rows hrows) (settles_of_someLeft hok hrow hstage)
          · exact .combined (h (by rw [stage?_of_locked hrow, hstage])) hc
        · exact absurd hstep (by simp)
      | complete body combined new =>
        simp only [system, step] at hstep
        split at hstep
        · next hcond =>
          obtain ⟨o, ho, rfl⟩ := Option.map_eq_some_iff.mp hstep
          rcases refreshComplete_spec (Bool.and_eq_true _ _ |>.mp hcond).1 ho with
            ⟨hdb, -⟩ | ⟨row, hrow, hf | ⟨-, hf⟩⟩
          · intro hstage
            rw [show (after s o).db = s.db from hdb] at hstage ⊢
            exact h hstage
          · exact .ofOver hf.stage?
          · exact .ofOver hf.stage?
        · exact absurd hstep (by simp)
      | _ => exact absurd hworker (by simp [Label.ofWorker])

/-! ## What a success has stored -/

/-- What a waiting run gets from a refresh that stored `snapshot`: it is pinned to it, or fails as
its target group isn't in it. -/
def Served (fmt : EventFormat ε) (snapshot : SnapshotId) (run run' : Run) : Prop :=
  run'.inventorySnapshotId = some snapshot ∨
    run'.statusReason = some (clip 500 (s!"not run: its target group " ++
      s!"{fmt.repr (shown run.groupName)} is not in the refreshed inventory"))

theorem served_of_release {now : Time} {status : RunStatus} {error : Option String}
    {new : SnapshotId} {snapshot : InventorySnapshot} {run run' : Run}
    (h : InventorySources.Db.release fmt now status error (some (new, snapshot)) run = .ok run') :
    Served fmt new run run' := by
  unfold InventorySources.Db.release at h
  dsimp only at h
  cases ht : InventorySources.Db.targets run.pin snapshot.data with
  | error e =>
    rw [ht] at h
    exact absurd h (by simp [bind, Except.bind])
  | ok inGraph =>
    rw [ht] at h
    cases inGraph with
    | true =>
      obtain rfl := Except.ok.inj h
      exact Or.inl rfl
    | false =>
      obtain rfl := Except.ok.inj h
      exact Or.inr rfl

/-- What the refresh stored as it ended, and what its waiting runs got. -/
def Stored (fmt : EventFormat ε) (id : RefreshId) (before after : Db) : Prop :=
  ∃ row new snapshot, after.refreshes.get? id = some row ∧ row.snapshotId = some new ∧
    before.snapshots.get? new = none ∧ after.snapshots.get? new = some snapshot ∧
    snapshot.refreshId = some id ∧
    ∀ k run, before.runs.get? k = some run → waitsFor id run = true →
      ∃ run', after.runs.get? k = some run' ∧ Served fmt new run run'

theorem Finished.stored {now : Time} {db : SourcesDb} {row row' : InventoryRefresh}
    {new : SnapshotId} {o : RefreshOutcome} (h : Finished fmt now db id row new o)
    (hnew : db.snapshots.get? new = none) (hsettled : Settled (db.refreshRows id))
    (hrow' : o.db.refreshes.get? id = some row') (hsuccess : row'.status = .success) :
    Stored fmt id db.toDb o.db.toDb := by
  obtain ⟨data, d, hdb, hend⟩ := h.finished
  rw [hdb] at hrow' ⊢
  have hended : ∀ status error refresh (before : Db),
      before.endRefresh fmt now id refresh status error = some d → status = .success := by
    intro status error refresh before hd
    have hr := endRefresh_released hd
    rw [show (({ db with toDb := d } : SourcesDb).refreshes) = d.refreshes from rfl,
      hr.refreshes, Table.get?_put_self] at hrow'
    rw [← Option.some.inj hrow'] at hsuccess
    exact hsuccess
  unfold Db.finishRefresh at hend
  dsimp only at hend
  split at hend
  · next hkeep =>
    rw [not_keep hsettled (hended _ _ _ _ hend)] at hkeep
    exact absurd hkeep (by simp)
  · have hr := endRefresh_released hend
    have hstatus := hended _ _ _ _ hend
    have hsnap : (db.toDb.storeSnapshot now id row new data).snapshots.get? new
        = some { inventoryId := row.inventoryId, refreshId := some id, data := data,
                 sources := row.sources, createdAt := now } := Table.get?_put_self _ _ _
    refine ⟨_, new, _, by rw [hr.refreshes]; exact Table.get?_put_self _ _ _, rfl, hnew,
      by rw [hr.snapshots]; exact hsnap, rfl, ?_⟩
    intro k run hk hwaits
    obtain ⟨run', hk', -, hrelease⟩ := hr.runs k run hk
    refine ⟨run', hk', ?_⟩
    have hreleased := hrelease hwaits
    rw [Db.made, if_pos hstatus, Option.bind_some, hsnap, Option.map_some] at hreleased
    exact served_of_release hreleased

theorem Failed.not_success {now : Time} {db : SourcesDb} {row row' : InventoryRefresh}
    {o : RefreshOutcome} (h : Failed fmt now db id row o)
    (hrow' : o.db.refreshes.get? id = some row') : row'.status ≠ .success := by
  obtain ⟨status, error, d, -, hfailed, hdb, hend⟩ := h.failed
  rw [hdb, show (({ db with toDb := d } : SourcesDb).refreshes) = d.refreshes from rfl,
    (endRefresh_released hend).refreshes, Table.get?_put_self] at hrow'
  rw [← Option.some.inj hrow']
  exact hfailed

theorem Combined.stored {now : Time} {db : SourcesDb} {row row' : InventoryRefresh}
    {new : SnapshotId} {o : RefreshOutcome} (h : Combined fmt now db id row new o)
    (hrunning : row.status = .running) (hnew : db.snapshots.get? new = none)
    (hsettled : Settled (db.refreshRows id)) (hrow' : o.db.refreshes.get? id = some row')
    (hsuccess : row'.status = .success) : Stored fmt id db.toDb o.db.toDb := by
  cases h with
  | handedOut ho =>
    subst ho
    simp only [Table.get?_put_self, Option.some.injEq] at hrow'
    rw [← hrow'] at hsuccess
    exact absurd (hrunning.symm.trans hsuccess) RunStatus.noConfusion
  | failed hf => exact absurd hsuccess (hf.not_success hrow')
  | finished hf => exact hf.stored hnew hsettled hrow' hsuccess

/-- **A refresh that becomes a success has stored a snapshot in that same transaction**, to which
the runs that waited for it are pinned (or their target group isn't in it): in every run, of any
edits and any bodies, in which no report is taken after all the sources the refresh runs were
deleted. -/
theorem success_stored {s t : State} {a : Label} {row' : InventoryRefresh}
    (hs : (system out fmt id claim).ReachableBy (someLeft id) s) (hok : someLeft id s a)
    (hstep : (system out fmt id claim).step s a = some t)
    (hbefore : ∀ row, s.db.refreshes.get? id = some row → row.status ≠ .success)
    (hrow' : t.db.refreshes.get? id = some row') (hsuccess : row'.status = .success) :
    Stored fmt id s.db.toDb t.db.toDb := by
  have hkept := kept_inductive.of_reachable hs
  have hcalm : ∀ {b}, ¬Calm id claim b s t := by
    intro b hc
    obtain ⟨row, hrow, hstatus⟩ := hc.success row' hrow' hsuccess
    exact hbefore row hrow hstatus
  cases hworker : a.ofWorker with
  | false => exact absurd (calm_step hworker hstep) hcalm
  | true =>
    cases a with
    | job how =>
      rcases fetchJob_spec hstep with hc | ⟨row, unreadable, -, hstage, -⟩
      · exact absurd hc hcalm
      · obtain ⟨found, hfound, -⟩ := Option.map_eq_some_iff.mp hstage
        obtain ⟨hget, hrunning, -⟩ := lockedRefresh_eq_some.mp hfound
        rw [hrow'] at hget
        rw [Option.some.inj hget, hrunning] at hsuccess
        exact absurd hsuccess RunStatus.noConfusion
    | output offset part chunk =>
      obtain rfl := Option.some.inj hstep
      exact absurd hsuccess (hbefore row' hrow')
    | report results combined new =>
      simp only [system, step] at hstep
      split at hstep
      · next hnew =>
        have hnew := Option.isNone_iff_eq_none.mp hnew
        obtain ⟨o, ho, rfl⟩ := Option.map_eq_some_iff.mp hstep
        rcases refreshSources_spec ho with ⟨hdb, -⟩ |
          ⟨row, hrow, hf | ⟨hstage, stored, hstored, hc⟩ |
          ⟨hstage, hc⟩⟩
        · exact absurd hsuccess (hbefore row' (by rw [← hdb]; exact hrow'))
        · exact absurd hsuccess (hf.not_success hrow')
        · obtain ⟨rows, db, hrows, rfl⟩ := storeResults_spec hstored
          have hall := settlesAll_rows hrows
          have hdb : (db.putRows id rows).toDb = s.db.toDb := hall.tables
          rw [← hdb]
          refine hc.stored (lockedRefresh_eq_some.mp hrow).2.1 ?_ ?_ hrow' hsuccess
          · rw [hdb]
            exact hnew
          · rw [refreshRows_putRows]
            exact .of_stored hall (settles_of_someLeft hok hrow hstage)
        · exact hc.stored (lockedRefresh_eq_some.mp hrow).2.1 hnew
            (hkept (by rw [stage?_of_locked hrow, hstage])) hrow' hsuccess
      · exact absurd hstep (by simp)
    | complete body combined new =>
      simp only [system, step] at hstep
      split at hstep
      · next hcond =>
        obtain ⟨hbody, hnew⟩ := Bool.and_eq_true _ _ |>.mp hcond
        have hnew := Option.isNone_iff_eq_none.mp hnew
        obtain ⟨o, ho, rfl⟩ := Option.map_eq_some_iff.mp hstep
        rcases refreshComplete_spec hbody ho with ⟨hdb, -⟩ | ⟨row, hrow, hf | ⟨hstage, hf⟩⟩
        · exact absurd hsuccess (hbefore row' (by rw [← hdb]; exact hrow'))
        · exact absurd hsuccess (hf.not_success hrow')
        · exact hf.stored hnew (hkept (by rw [stage?_of_locked hrow, hstage])) hrow' hsuccess
      · exact absurd hstep (by simp)
    | _ => exact absurd hworker (by simp [Label.ofWorker])

/-! ## The runs that show it -/

/-- Refresh 1 of an inventory with one source, claimed, and a run that waits for it. -/
def oneSource : State where
  db :=
    { runs := (∅ : Table RunId Run).put 1
        { inventoryId := some 1, queuedAt := 0, waitingRefreshId := some 1 }
      refreshes := (∅ : Table RefreshId InventoryRefresh).put 1
        { inventoryId := 1, queuedAt := 0, status := .running, claimTokenHash := some "claim",
          jobTokenHash := some "job" }
      inventories := (∅ : Table InventoryId Inventory).put 1 {}
      sources := (∅ : Table SourceId InventorySource).put 1
        { inventoryId := 1, name := "cloud", plugin := "cloud", config := some "a" } }

def noHosts : SnapshotData := ⟨∅, ∅, ∅, []⟩

/-- The source is run and its output uploaded. -/
def uploadedRun : List Label := [.job (.built fun _ => none), .output 0 (.source 1) [1, 2]]

def goodReport : Label :=
  .report [{ sourceId := 1, status := .success, bytes := 2, sha256 := some "raw" }] (.ok noHosts) 1

def uploaded : State :=
  ((system InventorySources.plainOutputs byteFormat 1 "claim").run (someLeft 1) oneSource
    uploadedRun).get rfl

def reportTaken : State :=
  ((system InventorySources.plainOutputs byteFormat 1 "claim").step uploaded goodReport).get rfl

theorem success_stored_reported :
    Stored byteFormat 1 uploaded.db.toDb reportTaken.db.toDb := by
  refine success_stored (a := goodReport) (.of_isSome rfl uploadedRun rfl) rfl rfl ?_ rfl rfl
  intro row hrow hsuccess
  have hrunning : ((uploaded.db.refreshes.get? 1).map InventoryRefresh.status)
      = some RunStatus.running := rfl
  rw [hrow, Option.map_some, hsuccess] at hrunning
  exact absurd (Option.some.inj hrunning) RunStatus.noConfusion

/-- The source is deleted while it runs. -/
def deletedRun : List Label := [.job (.built fun _ => none), .deleteSource 1]

def deleted : State :=
  ((system InventorySources.plainOutputs byteFormat 1 "claim").run Lib.anyStep oneSource
    deletedRun).get rfl

/-- A report without results is taken. -/
def emptyReport : Label := .report [] (.ok noHosts) 1

def succeededWithout : State :=
  ((system InventorySources.plainOutputs byteFormat 1 "claim").step deleted emptyReport).get rfl

/-- With the only source deleted, an empty report makes the refresh a success that stored nothing.
-/
theorem not_success_stored :
    ¬ ∀ (s t : State) (a : Label) (row' : InventoryRefresh),
      (system InventorySources.plainOutputs byteFormat 1 "claim").Reachable s →
      (system InventorySources.plainOutputs byteFormat 1 "claim").step s a = some t →
      (∀ row, s.db.refreshes.get? 1 = some row → row.status ≠ .success) →
      t.db.refreshes.get? 1 = some row' → row'.status = .success →
      Stored byteFormat 1 s.db.toDb t.db.toDb := by
  intro h
  have hstored := h deleted succeededWithout emptyReport
    ((succeededWithout.db.refreshes.get? 1).get rfl) (.of_isSome rfl deletedRun rfl) rfl ?_ rfl rfl
  · obtain ⟨row, new, -, hrow, hnew, -⟩ := hstored
    have hnone : (succeededWithout.db.refreshes.get? 1).bind InventoryRefresh.snapshotId = none :=
      rfl
    rw [hrow, Option.bind_some, hnew] at hnone
    exact absurd hnone (by simp)
  · intro row hrow hsuccess
    have hrunning : ((deleted.db.refreshes.get? 1).map InventoryRefresh.status)
        = some RunStatus.running := rfl
    rw [hrow, Option.map_some, hsuccess] at hrunning
    exact absurd (Option.some.inj hrunning) RunStatus.noConfusion

end RefreshReport

end AnsiDeck
