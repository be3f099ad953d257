import AnsiDeck.RefreshReport.System
import AnsiDeck.InventorySources.Release

/-!
# What a step does to the refresh

The claim is at a stage (`stage?`) until it is over. Most steps leave the stage as it is or end the
claim (`Calm`); the others fetch the job, report or complete.
-/

namespace AnsiDeck

namespace RefreshReport

open Lib (Table)
open InventorySources (Db SourcesDb Outputs queuedRefresh?_eq_some endRefresh_released
  sourcesOutcome_finished)
open InventorySources.SourcesDb (orphanedRow)
open InternalApi

variable {ε : Type} {out : Outputs} {fmt : EventFormat ε} {id : RefreshId} {claim : Digest}

theorem lockedRefresh_eq_some {db : SourcesDb} {row : InventoryRefresh} :
    lockedRefresh db id claim = some row ↔ db.refreshes.get? id = some row ∧
      row.status = .running ∧ row.claimTokenHash = some claim := by
  unfold lockedRefresh
  rw [Option.filter_eq_some_iff]
  simp

/-- The stage the refresh is at, while the claim owns it. -/
def stage? (id : RefreshId) (claim : Digest) (db : SourcesDb) : Option (Option String) :=
  (lockedRefresh db id claim).map InventoryRefresh.stage

theorem stage?_congr {db db' : SourcesDb} (h : db'.refreshes.get? id = db.refreshes.get? id) :
    stage? id claim db' = stage? id claim db := by
  simp only [stage?, lockedRefresh, h]

theorem stage?_of_locked {db : SourcesDb} {row : InventoryRefresh}
    (h : lockedRefresh db id claim = some row) : stage? id claim db = some row.stage := by
  rw [stage?, h, Option.map_some]

theorem stage?_of_not_running {db : SourcesDb} (row : InventoryRefresh)
    (h : db.refreshes.get? id = some row) (hstatus : row.status ≠ .running) :
    stage? id claim db = none := by
  rw [stage?, lockedRefresh, h, Option.filter_some, if_neg (by simp [hstatus])]
  rfl

/-- The refresh's row is written, still under the claim. -/
theorem stage?_put {db : SourcesDb} (row : InventoryRefresh)
    (h : db.refreshes.get? id = some row) (hstatus : row.status = .running)
    (hclaim : row.claimTokenHash = some claim) : stage? id claim db = some row.stage :=
  stage?_of_locked (lockedRefresh_eq_some.mpr ⟨h, hstatus, hclaim⟩)

/-! ## Ends -/

theorem endRefresh_spec {db : SourcesDb} {now : Time} {row : InventoryRefresh} {status : RunStatus}
    {error : Option String} {answer : RefreshAnswer} {o : RefreshOutcome}
    (h : endRefresh fmt now db id row status error answer = some o) :
    o.answer = answer ∧ o.ended = true ∧ ∃ d, o.db = { db with toDb := d } ∧
      db.toDb.endRefresh fmt now id row status error = some d := by
  unfold endRefresh SourcesDb.lift at h
  obtain ⟨db', hdb', rfl⟩ := Option.map_eq_some_iff.mp h
  obtain ⟨d, hd, rfl⟩ := Option.map_eq_some_iff.mp hdb'
  exact ⟨rfl, rfl, d, rfl, hd⟩

/-- A refresh that has ended is nobody's. -/
theorem stage?_ended {db : SourcesDb} {d d' : Db} {now : Time} {row : InventoryRefresh}
    {status : RunStatus} {error : Option String} (hstatus : status.finished = true)
    (h : d.endRefresh fmt now id row status error = some d') :
    stage? id claim { db with toDb := d' } = none := by
  have hr := endRefresh_released h
  apply stage?_of_not_running (InventorySources.Db.ended now status error row)
  · show d'.refreshes.get? id = _
    rw [hr.refreshes, Table.get?_put_self]
  · show status ≠ .running
    rintro rfl
    exact absurd hstatus (by decide)

theorem get?_requeue {db : Db} {now : Time} {row : InventoryRefresh} {waitingFor : String} :
    ∃ row', (db.requeueRefresh now id row waitingFor).refreshes.get? id = some row' ∧
      row'.status ≠ .running ∧ row'.status ≠ .success := by
  cases hq : db.queuedRefresh? row.inventoryId with
  | none =>
    refine ⟨InventorySources.unclaimed .queued row, ?_, RunStatus.noConfusion,
      RunStatus.noConfusion⟩
    simp only [Db.requeueRefresh, hq, Table.get?_put_self]
  | some found =>
    obtain ⟨other, queued⟩ := found
    refine ⟨InventorySources.mergedInto other waitingFor now row, ?_, RunStatus.noConfusion,
      RunStatus.noConfusion⟩
    simp only [Db.requeueRefresh, hq, Table.get?_put_self]

/-- Only a queued refresh absorbs a request. -/
theorem get?_enqueue {db : Db} {now : Time} {inventory : InventoryId} {new : RefreshId}
    {scope : Option (Finset SourceId)} (hnew : db.refreshes.get? new = none) :
    (db.enqueueRefresh now inventory new scope).2.refreshes.get? id = db.refreshes.get? id ∨
      (∃ row', (db.enqueueRefresh now inventory new scope).2.refreshes.get? id = some row' ∧
        row'.status = .queued) ∧ ∀ row, db.refreshes.get? id = some row → row.status = .queued := by
  unfold Db.enqueueRefresh
  cases hq : db.queuedRefresh? inventory with
  | none =>
    by_cases hk : id = new
    · subst hk
      refine Or.inr ⟨⟨_, Table.get?_put_self _ _ _, rfl⟩, ?_⟩
      intro row hrow
      rw [hnew] at hrow
      exact absurd hrow (by simp)
    · exact Or.inl (Table.get?_put_of_ne _ _ hk)
  | some found =>
    obtain ⟨k, queued⟩ := found
    obtain ⟨hget, hstatus⟩ := queuedRefresh?_eq_some hq
    by_cases hk : id = k
    · subst hk
      refine Or.inr ⟨⟨_, Table.get?_put_self _ _ _, hstatus⟩, ?_⟩
      intro row hrow
      rw [hget] at hrow
      obtain rfl := Option.some.inj hrow
      exact hstatus
    · exact Or.inl (Table.get?_put_of_ne _ _ hk)

/-! ## Steps that leave the stage as it is -/

/-- The step neither moves the stage, nor the job, nor what is staged, unless the claim is over. A
deleted source is gone from the rows. It doesn't make the refresh a success. -/
structure Calm (id : RefreshId) (claim : Digest) (a : Label) (s t : State) : Prop where
  stage : stage? id claim t.db = stage? id claim s.db ∨ stage? id claim t.db = none
  calls : t.calls = s.calls
  staged : t.staged = s.staged ∨ stage? id claim t.db = none
  rows : t.db.refreshRows id = s.db.refreshRows id ∨ ∃ source, a = .deleteSource source ∧
    t.db.refreshRows id = (s.db.refreshRows id).map (orphanedRow source)
  success : ∀ row', t.db.refreshes.get? id = some row' → row'.status = .success →
    ∃ row, s.db.refreshes.get? id = some row ∧ row.status = .success

theorem Calm.of_eq {a : Label} {s t : State}
    (hget : t.db.refreshes.get? id = s.db.refreshes.get? id)
    (hrows : t.db.refreshSources = s.db.refreshSources) (hcalls : t.calls = s.calls)
    (hstaged : t.staged = s.staged) : Calm id claim a s t :=
  ⟨Or.inl (stage?_congr hget), hcalls, Or.inl hstaged,
    Or.inl (by rw [SourcesDb.refreshRows, hrows, SourcesDb.refreshRows]),
    fun row' hrow' hstatus => ⟨row', by rw [← hget, hrow'], hstatus⟩⟩

/-- The claim is over, and the refresh isn't a success. -/
theorem Calm.ofOver {a : Label} {s t : State} {row' : InventoryRefresh}
    (hget : t.db.refreshes.get? id = some row') (hrunning : row'.status ≠ .running)
    (hsuccess : row'.status ≠ .success) (hrows : t.db.refreshSources = s.db.refreshSources)
    (hcalls : t.calls = s.calls) : Calm id claim a s t := by
  have hstage : stage? id claim t.db = none := stage?_of_not_running _ hget hrunning
  refine ⟨Or.inr hstage, hcalls, Or.inr hstage,
    Or.inl (by rw [SourcesDb.refreshRows, hrows, SourcesDb.refreshRows]), ?_⟩
  intro row'' hrow'' hstatus
  rw [hget] at hrow''
  rw [← Option.some.inj hrow''] at hstatus
  exact absurd hstatus hsuccess

theorem Calm.endWith {a : Label} {s t : State} {row : InventoryRefresh} {status : RunStatus}
    {error : String} (hstatus : status.finished = true) (hsuccess : status ≠ .success)
    (h : endWith fmt id s row status error = some t) : Calm id claim a s t := by
  unfold RefreshReport.endWith at h
  obtain ⟨o, ho, rfl⟩ := Option.map_eq_some_iff.mp h
  obtain ⟨-, -, d, hdb, hend⟩ := endRefresh_spec ho
  have hget : o.db.refreshes.get? id
      = some (InventorySources.Db.ended s.now status (some error) row) := by
    rw [hdb]
    show d.refreshes.get? id = _
    rw [(endRefresh_released hend).refreshes, Table.get?_put_self]
  refine .ofOver hget ?_ hsuccess (by rw [hdb]) rfl
  show status ≠ .running
  rintro rfl
  exact absurd hstatus (by decide)

theorem get?_otherwise (s : State) (db : Db) :
    (otherwise id s db).refreshes.get? id = s.db.refreshes.get? id := by
  unfold otherwise
  cases h : s.db.refreshes.get? id with
  | none =>
    show (db.refreshes.remove id).get? id = none
    rw [Table.get?_remove, if_pos rfl]
  | some row => exact Table.get?_put_self _ _ _

theorem refreshVerdict_finished (rule : Reaper.RefreshRule) (row : InventoryRefresh) :
    (Reaper.refreshVerdict fmt rule row).1.finished = true := by cases rule <;> rfl

theorem refreshVerdict_ne_success (rule : Reaper.RefreshRule) (row : InventoryRefresh) :
    (Reaper.refreshVerdict fmt rule row).1 ≠ .success := by
  cases rule
  · exact RunStatus.noConfusion
  · exact RunStatus.noConfusion

theorem calm_sourcesChanged {s : State} {inventory : InventoryId} {new : RefreshId}
    {scope : Finset SourceId} (hnew : s.db.refreshes.get? new = none) :
    Calm id claim (.sourcesChanged inventory new scope) s
      (setDb s (s.db.sourcesChanged s.now inventory new scope)) := by
  unfold SourcesDb.sourcesChanged
  split
  · rcases @get?_enqueue id _ _ _ _ _ hnew with hget | ⟨⟨row', hget, hqueued⟩, hall⟩
    · exact .of_eq hget rfl rfl rfl
    · have hne : ∀ row : InventoryRefresh, row.status = .queued → row.status ≠ .running := by
        intro row hrow
        rw [hrow]
        exact RunStatus.noConfusion
      refine .ofOver hget (hne row' hqueued) ?_ rfl rfl
      rw [hqueued]
      exact RunStatus.noConfusion
  · exact .of_eq rfl rfl rfl rfl

/-- What anyone but the worker does leaves the refresh at its stage, or ends the claim. -/
theorem calm_step {s t : State} {a : Label} (ha : a.ofWorker = false)
    (h : step out fmt id claim s a = some t) : Calm id claim a s t := by
  cases a with
  | tick seconds =>
    obtain rfl := Option.some.inj h
    exact .of_eq rfl rfl rfl rfl
  | others db =>
    obtain rfl := Option.some.inj h
    exact .of_eq (get?_otherwise s db) rfl rfl rfl
  | createSource source row =>
    simp only [step] at h
    split at h
    · obtain rfl := Option.some.inj h
      exact .of_eq rfl rfl rfl rfl
    · exact absurd h (by simp)
  | updateSource source new =>
    obtain ⟨row, -, hput⟩ := Option.bind_eq_some_iff.mp h
    obtain rfl := Option.some.inj hput
    exact .of_eq rfl rfl rfl rfl
  | deleteSource source =>
    obtain rfl := Option.some.inj h
    refine ⟨Or.inl (stage?_congr rfl), rfl, Or.inl rfl, Or.inr ⟨source, rfl, ?_⟩,
      fun row' hrow' hstatus => ⟨row', hrow', hstatus⟩⟩
    show ((s.db.refreshSources.mapRows fun _ rows => rows.map (orphanedRow source)).get? id).getD []
      = _
    rw [Table.get?_mapRows, SourcesDb.refreshRows]
    cases s.db.refreshSources.get? id <;> rfl
  | sourcesChanged inventory new scope =>
    simp only [step] at h
    split at h
    · next hnew =>
      obtain rfl := Option.some.inj h
      exact calm_sourcesChanged (Option.isNone_iff_eq_none.mp hnew)
    · exact absurd h (by simp)
  | heartbeat lease =>
    obtain ⟨row, hrow, hput⟩ := Option.bind_eq_some_iff.mp h
    obtain rfl := Option.some.inj hput
    obtain ⟨-, hstatus, hclaim⟩ := lockedRefresh_eq_some.mp hrow
    refine ⟨Or.inl ?_, rfl, Or.inl rfl, Or.inl rfl, ?_⟩
    · rw [stage?_of_locked hrow]
      exact stage?_put { row with
        heartbeatAt := some s.now, leaseExpiresAt := some (s.now + lease) }
        (Table.get?_put_self _ _ _) hstatus hclaim
    · intro row' hrow' hsuccess
      simp only [setDb, Table.get?_put_self, Option.some.injEq] at hrow'
      rw [← hrow'] at hsuccess
      exact absurd (hstatus.symm.trans hsuccess) RunStatus.noConfusion
  | reap rule =>
    obtain ⟨row, hrow, hend⟩ := Option.bind_eq_some_iff.mp h
    split at hend
    · exact .endWith (refreshVerdict_finished rule row) (refreshVerdict_ne_success rule row) hend
    · exact absurd hend (by simp)
  | job how => exact absurd ha (by simp [Label.ofWorker])
  | output offset part chunk => exact absurd ha (by simp [Label.ofWorker])
  | report results combined new => exact absurd ha (by simp [Label.ofWorker])
  | complete body combined new => exact absurd ha (by simp [Label.ofWorker])

/-! ## The worker's own steps -/

theorem stage?_built {db : SourcesDb} {now : Time} {row : InventoryRefresh}
    {unreadable : SourceId → Option String} (hstatus : row.status = .running)
    (hclaim : row.claimTokenHash = some claim) :
    stage? id claim (db.buildRefreshJob out now id row unreadable).2 = some (some "sources") := by
  unfold SourcesDb.buildRefreshJob
  dsimp only
  exact stage?_put { row with
    stage := some "sources", sources := (db.orderedSources row.inventoryId).map Prod.fst }
    (Table.get?_put_self _ _ _) hstatus hclaim

/-- The job is built, or the claim is over. -/
theorem fetchJob_spec {s t : State} {how : JobOutcome}
    (h : step out fmt id claim s (.job how) = some t) :
    Calm id claim (.job how) s t ∨ ∃ row unreadable, lockedRefresh s.db id claim = some row ∧
      stage? id claim t.db = some (some "sources") ∧
        (t.calls, t.db) = s.db.buildRefreshJob out s.now id { row with
        jobTokenHash := none, jobTokenExpiresAt := none, startedAt := some s.now } unreadable ∧
      t.staged = s.staged := by
  obtain ⟨row, hrow, hjob⟩ := Option.bind_eq_some_iff.mp h
  split at hjob
  · cases how with
    | fails error => exact Or.inl (.endWith rfl RunStatus.noConfusion hjob)
    | waits waitingFor =>
      obtain rfl := Option.some.inj hjob
      obtain ⟨row', hget, hrunning, hsuccess⟩ := get?_requeue
      exact Or.inl (.ofOver hget hrunning hsuccess rfl rfl)
    | built unreadable =>
      unfold fetchJob at hjob
      dsimp only at hjob
      split at hjob
      · exact Or.inl (.endWith rfl RunStatus.noConfusion hjob)
      · obtain rfl := Option.some.inj hjob
        obtain ⟨-, hstatus, hclaim⟩ := lockedRefresh_eq_some.mp hrow
        exact Or.inr ⟨row, unreadable, hrow, stage?_built (by exact hstatus) hclaim, rfl, rfl⟩
  · exact absurd hjob (by simp)

/-- The refresh ended as a failure. -/
structure Failed (fmt : EventFormat ε) (now : Time) (db : SourcesDb) (id : RefreshId)
    (row : InventoryRefresh) (o : RefreshOutcome) : Prop where
  ended : o.ended = true
  answer : ∀ detail, o.answer ≠ .conflict detail
  failed : ∃ status error d, status.finished = true ∧ status ≠ .success ∧
    o.db = { db with toDb := d } ∧ db.toDb.endRefresh fmt now id row status error = some d

/-- It ended with what its sources did. -/
structure Finished (fmt : EventFormat ε) (now : Time) (db : SourcesDb) (id : RefreshId)
    (row : InventoryRefresh) (new : SnapshotId) (o : RefreshOutcome) : Prop where
  ended : o.ended = true
  answer : o.answer = .done
  finished : ∃ data d, o.db = { db with toDb := d } ∧ db.toDb.finishRefresh fmt now id row new data
    (withOutput db row.inventoryId) (db.refreshRows id) = some d

/-- How combining goes: the combine job, or the refresh's end. -/
inductive Combined (fmt : EventFormat ε) (now : Time) (db : SourcesDb) (id : RefreshId)
    (row : InventoryRefresh) (new : SnapshotId) (o : RefreshOutcome) : Prop
  | handedOut (ho : o = ⟨.combine, { db with
      refreshes := db.refreshes.put id { row with stage := some "combine" } }, false⟩)
  | failed (hf : Failed fmt now db id row o)
  | finished (hf : Finished fmt now db id row new o)

theorem Failed.of_end {now : Time} {db : SourcesDb} {row : InventoryRefresh} {status : RunStatus}
    {error : Option String} {answer : RefreshAnswer} {o : RefreshOutcome}
    (hstatus : status.finished = true) (hfailed : status ≠ .success)
    (hanswer : ∀ detail, answer ≠ .conflict detail)
    (h : endRefresh fmt now db id row status error answer = some o) :
    Failed fmt now db id row o := by
  obtain ⟨ha, hended, d, hdb, hend⟩ := endRefresh_spec h
  refine ⟨hended, ?_, status, error, d, hstatus, hfailed, hdb, hend⟩
  rw [ha]
  exact hanswer

theorem Finished.of_finish {now : Time} {db : SourcesDb} {row : InventoryRefresh}
    {new : SnapshotId} {data : SnapshotData} {o : RefreshOutcome}
    (h : finishRefresh fmt now db id row new data = some o) :
    Finished fmt now db id row new o := by
  unfold finishRefresh SourcesDb.lift at h
  obtain ⟨db', hdb', rfl⟩ := Option.map_eq_some_iff.mp h
  obtain ⟨d, hd, rfl⟩ := Option.map_eq_some_iff.mp hdb'
  exact ⟨rfl, rfl, data, d, rfl, hd⟩

theorem combineSources_spec {now : Time} {db : SourcesDb} {row : InventoryRefresh}
    {combined : Except CombineError SnapshotData} {new : SnapshotId} {o : RefreshOutcome}
    (h : combineSources fmt now db id row combined new = some o) :
    Combined fmt now db id row new o := by
  unfold combineSources at h
  split at h
  · exact absurd h (by simp)
  · exact .failed (.of_end rfl RunStatus.noConfusion (fun _ => RefreshAnswer.noConfusion) h)
  · split at h
    · exact .handedOut (Option.some.inj h).symm
    · exact .finished (.of_finish h)

/-- How a report goes: nothing changes, or the results are stored (once) and combined. -/
theorem refreshSources_spec {now : Time} {db : SourcesDb} {staged : Staged}
    {results : List RefreshSourceResultIn} {combined : Except CombineError SnapshotData}
    {new : SnapshotId} {o : RefreshOutcome}
    (h : refreshSources out fmt now db staged id claim results combined new = some o) :
    (o.db = db ∧ o.ended = false) ∨ ∃ row, lockedRefresh db id claim = some row ∧
      (Failed fmt now db id row o ∨
        (row.stage = some "sources" ∧ ∃ stored,
          storeResults out now db staged id results = .ok stored ∧
          Combined fmt now stored id row new o) ∨
        (row.stage = some "combine" ∧ Combined fmt now db id row new o)) := by
  unfold refreshSources at h
  split at h
  · obtain rfl := Option.some.inj h
    exact Or.inl ⟨rfl, rfl⟩
  · next row hrow =>
    split at h
    · exact Or.inr ⟨row, hrow, Or.inl
        (.of_end rfl RunStatus.noConfusion (fun _ => RefreshAnswer.noConfusion) h)⟩
    · split at h
      · next hstage =>
        split at h
        · obtain rfl := Option.some.inj h
          exact Or.inl ⟨rfl, rfl⟩
        · next stored hstored =>
          exact Or.inr ⟨row, hrow, Or.inr (Or.inl ⟨hstage, stored, hstored, combineSources_spec h⟩)⟩
      · split at h
        · next hstage => exact Or.inr ⟨row, hrow, Or.inr (Or.inr ⟨hstage, combineSources_spec h⟩)⟩
        · obtain rfl := Option.some.inj h
          exact Or.inl ⟨rfl, rfl⟩

/-- How a completion goes: nothing changes, or the refresh ends; with its combined snapshot only
once the sources are reported. -/
theorem refreshComplete_spec {now : Time} {db : SourcesDb} {staged : Staged}
    {body : RefreshCompleteIn} {combined : Except CombineError SnapshotData} {new : SnapshotId}
    {o : RefreshOutcome} (hbody : body.ends = true)
    (h : refreshComplete out fmt now db staged id claim body combined new = some o) :
    (o.db = db ∧ o.ended = false) ∨ ∃ row, lockedRefresh db id claim = some row ∧
      (Failed fmt now db id row o ∨
        (row.stage = some "combine" ∧ Finished fmt now db id row new o)) := by
  unfold refreshComplete at h
  split at h
  · obtain rfl := Option.some.inj h
    exact Or.inl ⟨rfl, rfl⟩
  · next row hrow =>
    split at h
    · next hfailed =>
      have hstatus : body.status.finished = true := by
        unfold RefreshCompleteIn.ends at hbody
        cases hs : body.status <;> simp_all
      exact Or.inr ⟨row, hrow, Or.inl
        (.of_end hstatus hfailed (fun _ => RefreshAnswer.noConfusion) h)⟩
    · split at h
      · obtain rfl := Option.some.inj h
        exact Or.inl ⟨rfl, rfl⟩
      · next hstage =>
        have hstage : row.stage = some "combine" := Decidable.not_not.mp hstage
        split at h
        · obtain rfl := Option.some.inj h
          exact Or.inl ⟨rfl, rfl⟩
        · split at h
          · exact Or.inr ⟨row, hrow, Or.inl
              (.of_end rfl RunStatus.noConfusion (fun _ => RefreshAnswer.noConfusion) h)⟩
          · split at h
            · exact absurd h (by simp)
            · exact Or.inr ⟨row, hrow, Or.inl
                (.of_end rfl RunStatus.noConfusion (fun _ => RefreshAnswer.noConfusion) h)⟩
            · exact Or.inr ⟨row, hrow, Or.inr ⟨hstage, .of_finish h⟩⟩

/-! ## The stage after them -/

theorem Failed.stage? {now : Time} {db : SourcesDb} {row : InventoryRefresh} {o : RefreshOutcome}
    (h : Failed fmt now db id row o) : stage? id claim o.db = none := by
  obtain ⟨status, error, d, hstatus, -, hdb, hend⟩ := h.failed
  rw [hdb]
  exact stage?_ended hstatus hend

theorem Finished.stage? {now : Time} {db : SourcesDb} {row : InventoryRefresh} {new : SnapshotId}
    {o : RefreshOutcome} (h : Finished fmt now db id row new o) : stage? id claim o.db = none := by
  obtain ⟨data, d, hdb, hend⟩ := h.finished
  rw [hdb]
  unfold Db.finishRefresh at hend
  dsimp only at hend
  split at hend
  · exact stage?_ended (sourcesOutcome_finished _) hend
  · exact stage?_ended (sourcesOutcome_finished _) hend

end RefreshReport

end AnsiDeck
