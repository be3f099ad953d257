import AnsiDeck.Lease.Clock

/-!
# The worker's fence before the end of the lease

What each step does to a run and to the claims on it. A worker that works on a run owns it, so the
reaper finds no run of which the lease ran out and a process is left (`Inv.free_of_lost`), and a run
that has ended stays so.
-/

namespace AnsiDeck

namespace Lease

open Lib (Table)
open InternalApi (owns)
open RunQueue (Keeps Served)

variable {ε : Type} {hashToken : Token → Digest} {fmt : EventFormat ε} {m : Margin}

/-! ## What the server does to a run -/

/-- `_owned`: the run is running under the claim that the token's digest is of. -/
theorem owns_iff {run : Run} {token : Token} : owns hashToken run token = true ↔
    run.status = .running ∧ run.claimTokenHash = some (hashToken token) := by
  simp [owns]

/-- Columns change that none of this is about. -/
theorem Inv.touch {s : State} (h : Inv m hashToken s) {id : RunId} {run run' : Run}
    (hid : s.runs.get? id = some run) (hstatus : run'.status = run.status)
    (hclaim : run'.claimTokenHash = run.claimTokenHash)
    (hinventory : run'.inventoryId = run.inventoryId)
    (hlease : run'.leaseExpiresAt = run.leaseExpiresAt ∨
      run'.leaseExpiresAt = some (s.now + runLeaseSeconds)) : Inv m hashToken
        (Lease.putRun s id run') := by
  have howns : ∀ token, owns hashToken run' token = owns hashToken run token := by
    intro token
    simp only [owns, hstatus, hclaim]
  refine h.putRun ?_ ?_ ?_
  · intro token ho t ht hl
    rcases hlease with hsame | hnew
    · rw [hsame]
      exact hl run hid (by rw [← howns]; exact ho)
    · exact ⟨_, hnew, ht⟩
  · rintro token task - - - ⟨r, hr, ho⟩
    rw [hid] at hr
    obtain rfl := Option.some.inj hr
    rw [howns]
    exact ho
  · intro hrunning k r hk hr hrun
    rw [hstatus] at hrunning
    cases hsame : RunQueue.sameInventory r run' with
    | false => rfl
    | true =>
      refine absurd (h.one k id r run hr hid hrun hrunning ?_) hk
      unfold RunQueue.sameInventory at hsame ⊢
      rw [← hinventory]
      exact hsame

/-- A run ends that no worker works on. -/
theorem Inv.endRun {s : State} (h : Inv m hashToken s) {id : RunId} {run' : Run}
    (hstatus : run'.status.finished = true)
    (hfree : ∀ token task, s.tasks.get? token = some task → task.run = id → task.working = true →
      ¬Owns hashToken s token id) : Inv m hashToken (Lease.putRun s id run') := by
  have hnot : run'.status ≠ .running := (RunStatus.finished_eq_true.mp hstatus).2
  refine h.putRun ?_ ?_ ?_
  · intro token ho
    exact absurd (owns_iff.mp ho).1 hnot
  · intro token task htask hrun hworking howns
    exact absurd howns (hfree token task htask hrun hworking)
  · intro hrunning
    exact absurd hrunning hnot

/-- The run's claim is that of a task that doesn't work on it. -/
theorem Inv.free_of_idle {s : State} (h : Inv m hashToken s) {token : Token} {task : Task}
    (htask : s.tasks.get? token = some task) (hidle : task.working = false) {run : Run}
    (hid : s.runs.get? task.run = some run) (howns : owns hashToken run token = true) :
    ∀ other t, s.tasks.get? other = some t → t.run = task.run → t.working = true →
      ¬Owns hashToken s other task.run := by
  rintro other t hother - hworking ⟨r, hr, ho⟩
  rw [hid] at hr
  obtain rfl := Option.some.inj hr
  have hclaim := (owns_iff.mp howns).2
  rw [(owns_iff.mp ho).2] at hclaim
  obtain rfl := h.fresh other token t task hother htask (Option.some.inj hclaim)
  rw [htask] at hother
  obtain rfl := Option.some.inj hother
  rw [hidle] at hworking
  exact absurd hworking (by simp)

/-- Only a running run is owned. -/
theorem free_of_not_running {s : State} {id : RunId} {run : Run} (hid : s.runs.get? id = some run)
    (hnot : run.status ≠ .running) (token : Token) : ¬Owns hashToken s token id := by
  rintro ⟨r, hr, ho⟩
  rw [hid] at hr
  obtain rfl := Option.some.inj hr
  exact hnot (owns_iff.mp ho).1

/-- **The margin**: while a worker works on a run, its lease hasn't run out. -/
theorem Inv.free_of_lost {s : State} (h : Inv m hashToken s) {id : RunId}
    {run : Run} (hid : s.runs.get? id = some run) (hlost : Reaper.applies .lost s.now run = true) :
    ∀ token task, s.tasks.get? token = some task → task.run = id → task.working = true →
      ¬Owns hashToken s token id := by
  rintro token task htask rfl hworking ⟨r, hr, ho⟩
  rw [hid] at hr
  obtain rfl := Option.some.inj hr
  obtain ⟨heart, hheart⟩ := (h.tasks token task htask).worker
  have hphase := (h.tasks token task htask).phase
  have hdeadline : Held m hashToken s token task.run task.renewed ∧
      s.now + m.answer ≤ task.renewed + runLeaseSeconds := by
    unfold PhaseOk at hphase
    unfold Task.working at hworking
    cases hp : task.phase with
    | answering => exact absurd hworking (by simp [hp])
    | claimed => exact absurd hworking (by simp [hp])
    | ended => exact absurd hworking (by simp [hp])
    | stopping since =>
      rw [hp] at hphase
      exact hphase
    | _ =>
      rw [hp] at hphase
      exact ⟨hphase.1, (hphase.2 heart hheart).within⟩
  -- the lease that the claim had then ends after this, and no write since has made it shorter
  obtain ⟨hheld, hnow⟩ := hdeadline
  obtain ⟨lease, hlease, hle⟩ := hheld.leased run hid ho
  simp only [Reaper.applies, Bool.and_eq_true, hlease, Option.any_some, decide_eq_true_eq] at hlost
  have hexpired := hlost.2
  lia

/-! ## Steps -/

/-- `/job` answers that the claim is over, or fails a run that can't be run any more, or hands
the job out once. -/
theorem job_cases {now : Time} {run : Run} {token jobToken : Token} {h : Handled}
    (hjob : InternalApi.job hashToken fmt now run token jobToken .built = .answer h) :
    (h.run = run ∧ h.answer = .gone) ∨
      (owns hashToken run token = true ∧ h.run.status.finished = true ∧
        h.run.claimTokenHash = none ∧ h.answer = .gone) ∨
      (owns hashToken run token = true ∧ h.answer = .payload ∧ h.run =
        { run with jobTokenHash := none, jobTokenExpiresAt := none, startedAt := some now }) := by
  unfold InternalApi.job InternalApi.unchanged at hjob
  split at hjob
  · obtain rfl := InternalApi.JobStep.answer.inj hjob
    exact Or.inl ⟨rfl, rfl⟩
  · next hgate =>
    simp only [Bool.not_eq_true', Bool.not_eq_false, Bool.and_eq_true] at hgate
    dsimp only at hjob
    split at hjob
    · obtain rfl := InternalApi.JobStep.answer.inj hjob
      exact Or.inr (Or.inl ⟨hgate.1.1, rfl, rfl, rfl⟩)
    · obtain rfl := InternalApi.JobStep.answer.inj hjob
      exact Or.inr (Or.inr ⟨hgate.1.1, rfl, rfl⟩)

/-- `/complete` ends a run for the claim that owns it, and otherwise leaves it. -/
theorem complete_cases (now : Time) (run : Run) (token : Token) (body : InternalApi.CompleteIn) :
    (InternalApi.complete hashToken now run token body).run = run ∨
      (owns hashToken run token = true ∧
        (InternalApi.complete hashToken now run token body).run.status.finished = true ∧
        (InternalApi.complete hashToken now run token body).run.claimTokenHash = none) := by
  unfold InternalApi.complete InternalApi.unchanged
  split
  · exact Or.inl rfl
  · next hvalid =>
    split
    · exact Or.inl rfl
    · next howns =>
      split
      · exact Or.inl rfl
      · rw [Bool.not_eq_true', Bool.not_eq_false] at hvalid howns
        exact Or.inr ⟨howns, hvalid, rfl⟩

/-- `cancel_run` ends a queued run at once; of a running one it is only a request, which a
heartbeat's answer takes to the worker. -/
theorem cancelRun_cases (now : Time) (run : Run) (user : String) :
    (InternalApi.cancelRun fmt now run user).run = run ∨
      (InternalApi.cancelRun fmt now run user).run =
        { run with cancelRequestedAt := some now, cancelRequestedBy := some user } ∨
      (run.status = .queued ∧ (InternalApi.cancelRun fmt now run user).run.status.finished = true ∧
        (InternalApi.cancelRun fmt now run user).run.claimTokenHash = none) := by
  unfold InternalApi.cancelRun InternalApi.unchanged
  split
  · exact Or.inl rfl
  · split
    · exact Or.inl rfl
    · dsimp only
      split
      · next hqueued => exact Or.inr (Or.inr ⟨hqueued, rfl, rfl⟩)
      · exact Or.inr (Or.inl rfl)

/-- `/heartbeat` renews the lease for the claim that owns the run, and otherwise answers `gone`. -/
theorem heartbeat_cases (now : Time) (lease : Nat) (run : Run) (token : Token) :
    InternalApi.heartbeat hashToken now lease run token = (run, .gone) ∨
      owns hashToken run token = true ∧
        (InternalApi.heartbeat hashToken now lease run token).1 =
          { run with heartbeatAt := some now, leaseExpiresAt := some (now + lease) } := by
  unfold InternalApi.heartbeat
  split
  · next howns => exact Or.inr ⟨howns, rfl⟩
  · exact Or.inl rfl

/-- The row is written as it was. -/
theorem Inv.same {s : State} (h : Inv m hashToken s) {id : RunId} {run : Run}
    (hid : s.runs.get? id = some run) : Inv m hashToken (Lease.putRun s id run) :=
  h.touch hid rfl rfl rfl (Or.inl rfl)

/-- A heartbeat for a run, also one that comes late: all it can do is lengthen the lease. -/
theorem Inv.heartbeat {s : State} (h : Inv m hashToken s) {id : RunId} {run : Run}
    (hid : s.runs.get? id = some run) (token : Token) :
    Inv m hashToken (Lease.putRun s id
      (InternalApi.heartbeat hashToken s.now runLeaseSeconds run token).1) := by
  rcases heartbeat_cases s.now runLeaseSeconds run token with heq | ⟨-, heq⟩
  · rw [heq]
    exact h.same hid
  · rw [heq]
    exact h.touch hid rfl rfl rfl (Or.inr rfl)

/-- A heartbeat is processed: it renews the lease before its answer is sent. -/
theorem Inv.deliver {s : State} (h : Inv m hashToken s) {worker : String} {began : Time}
    {tasks : List Token} {answers : List (Token × InternalApi.Beat)} {token : Token} {task : Task}
    {run : Run} (hw : s.workers.get? worker = some (.posting began tasks answers))
    (htask : s.tasks.get? token = some task) (hid : s.runs.get? task.run = some run) :
    Inv m hashToken { Lease.putRun s task.run
        (InternalApi.heartbeat hashToken s.now runLeaseSeconds run token).1 with
      workers := s.workers.put worker (.posting began tasks
        ((token, (InternalApi.heartbeat hashToken s.now runLeaseSeconds run token).2) :: answers))
          } := by
  have h' := h.heartbeat hid token
  have hbegan : began ≤ s.now := (h.hearts _ _ hw).1
  -- the answers make no difference to what is looked at when
  have hheart : ∀ (P : Heart → Prop) (more : List (Token × InternalApi.Beat)) (w : String),
      (∀ b t a a', P (.posting b t a) → P (.posting b t a')) →
      (∀ heart, s.workers.get? w = some heart → P heart) →
      ∀ heart, (s.workers.put worker (.posting began tasks more)).get? w =
        some heart → P heart := by
    intro P more w hP hold heart hget
    simp only [Table.get?_put] at hget
    split at hget
    · next hwk =>
      obtain rfl := Option.some.inj hget
      exact hP _ _ _ _ (hold _ (by rw [hwk]; exact hw))
    · exact hold heart hget
  refine ⟨?_, ?_, ?_, h'.fresh, h'.one⟩
  · intro k t hk
    have hok := h'.tasks k t hk
    refine ⟨?_, ?_, hok.owned⟩
    · obtain ⟨heart, hget⟩ := hok.worker
      simp only [Table.get?_put]
      split
      · exact ⟨_, rfl⟩
      · exact ⟨heart, hget⟩
    · have hphase := hok.phase
      unfold PhaseOk at hphase ⊢
      cases hp : t.phase with
      | answering => rw [hp] at hphase; exact hphase
      | ended => trivial
      | stopping since => rw [hp] at hphase; exact ⟨⟨hphase.1.past, hphase.1.leased⟩, hphase.2⟩
      | _ =>
        rw [hp] at hphase
        exact ⟨⟨hphase.1.past, hphase.1.leased⟩,
          hheart (Checked m s.now t.renewed k) _ t.worker (fun _ _ _ _ hc => hc) hphase.2⟩
  · intro w heart hget
    exact hheart (HeartOk m s.now) _ w (fun _ _ _ _ hc => hc)
      (fun heart => h.hearts w heart) heart hget
  · intro w began' tasks' answers' hget k beat t hmem hbeat hk
    simp only [Table.get?_put] at hget
    split at hget
    · next hwk =>
      obtain ⟨rfl, rfl, rfl⟩ := Heart.posting.inj (Option.some.inj hget)
      rcases List.mem_cons.mp hmem with heq | hmem
      · obtain ⟨rfl, rfl⟩ := Prod.mk.inj heq
        have hsame : s.tasks.get? k = some t := hk
        rw [htask] at hsame
        obtain rfl := Option.some.inj hsame
        rcases heartbeat_cases s.now runLeaseSeconds run k with hgone | ⟨-, hrow⟩
        · rw [hgone] at hbeat
          exact absurd rfl hbeat
        · intro r hr _
          simp only [Lease.putRun, Table.get?_put_self, Option.some.injEq] at hr
          subst hr
          rw [hrow]
          refine ⟨_, rfl, ?_⟩
          lia
      · exact h'.answers w _ _ _ (by rw [hwk]; exact hw) k beat t hmem hbeat hk
    · exact h'.answers w _ _ _ hget k beat t hmem hbeat hk

/-- A queued run is claimed: nobody owned it, its inventory has none that runs, and its lease is
as long as the fence counts on. -/
theorem Inv.claim {s : State} (h : Inv m hashToken s) {worker : String} {id : RunId}
    {token jobToken : Token} {run : Run} {heart : Heart} (hid : s.runs.get? id = some run)
    (hw : s.workers.get? worker = some heart) (hqueued : run.status = .queued)
    (hidle : ∀ k busy, s.runs.get? k = some busy → busy.status = .running →
      RunQueue.sameInventory busy run = false)
    (hfresh : ∀ other task, s.tasks.get? other = some task → hashToken other ≠ hashToken token) :
    Inv m hashToken (Lease.putTask (Lease.putRun s id (claimedRun runLeaseSeconds s.now
      ⟨worker, hashToken token, hashToken jobToken⟩ none run)) token
      { worker := worker, run := id, claimedAt := s.now }) := by
  have hput : Inv m hashToken (Lease.putRun s id (claimedRun runLeaseSeconds s.now
      ⟨worker, hashToken token, hashToken jobToken⟩ none run)) := by
    refine h.putRun ?_ ?_ ?_
    · intro other _ t ht _
      exact ⟨_, rfl, ht⟩
    · intro other task _ _ _ howns
      exact absurd howns (free_of_not_running hid (by rw [hqueued]; simp) other)
    · intro _ k r hk hr hrun
      exact hidle k r hr hrun
  have hleased : ∀ t, t ≤ s.now + runLeaseSeconds →
      Leased hashToken (Lease.putRun s id (claimedRun runLeaseSeconds s.now
        ⟨worker, hashToken token, hashToken jobToken⟩ none run)) token id t := by
    intro t ht r hr _
    simp only [Lease.putRun, Table.get?_put_self, Option.some.injEq] at hr
    subst hr
    exact ⟨_, rfl, ht⟩
  refine hput.putTask ⟨⟨heart, hw⟩, ⟨Nat.le_refl _, hleased _ (Nat.le_refl _)⟩, ?_⟩ ?_ ?_
  · intro hworking
    exact absurd hworking (by simp [Task.working])
  · intro t ht _
    exact hleased t ht
  · intro other task hother heq
    exact absurd heq (hfresh other task hother)

/-- A worker comes up: it has no tasks yet. -/
theorem Inv.startWorker {s : State} (h : Inv m hashToken s) {worker : String}
    (hnew : s.workers.get? worker = none) :
    Inv m hashToken { s with workers := s.workers.put worker (.waiting s.now) } := by
  have hother : ∀ token task, s.tasks.get? token = some task → task.worker ≠ worker := by
    intro token task htask heq
    obtain ⟨heart, hheart⟩ := (h.tasks token task htask).worker
    rw [heq, hnew] at hheart
    exact absurd hheart (by simp)
  refine ⟨?_, ?_, ?_, h.fresh, h.one⟩
  · intro k t hk
    have hok := h.tasks k t hk
    have hsame : (s.workers.put worker (.waiting s.now)).get? t.worker = s.workers.get? t.worker :=
      Table.get?_put_of_ne _ _ (hother k t hk)
    obtain ⟨heart, hheart⟩ := hok.worker
    refine ⟨⟨heart, by rw [← hheart]; exact hsame⟩, ?_, hok.owned⟩
    have hphase := hok.phase
    unfold PhaseOk at hphase ⊢
    rw [hsame]
    cases hp : t.phase with
    | answering => rw [hp] at hphase; exact hphase
    | ended => trivial
    | _ =>
      rw [hp] at hphase
      exact ⟨⟨hphase.1.past, hphase.1.leased⟩, hphase.2⟩
  · intro w heart hget
    simp only [Table.get?_put] at hget
    split at hget
    · obtain rfl := Option.some.inj hget
      exact ⟨Nat.le_refl _, Nat.le_add_right _ _⟩
    · exact h.hearts w heart hget
  · intro w began tasks answers hget
    simp only [Table.get?_put] at hget
    split at hget
    · exact absurd hget (by simp)
    · exact h.answers w began tasks answers hget

/-- A job is fetched: only the claim's own worker gets it, and only while the claim owns the
run. -/
theorem Inv.job {s : State} (h : Inv m hashToken s) {token jobToken : Token} {task : Task}
    {run : Run} (htask : s.tasks.get? token = some task) (hid : s.runs.get? task.run = some run)
    (hclaimed : task.phase = .claimed) (lost : Bool) {handled : Handled}
    (hjob : InternalApi.job hashToken fmt s.now run token jobToken .built = .answer handled) :
    Inv m hashToken (Lease.putTask (Lease.putRun s task.run handled.run) token
      { task with phase :=
          if lost then task.phase else if handled.answer = .payload then .fetched
              else .ended }) := by
  have hidle : task.working = false := by simp [Task.working, hclaimed]
  have hrun : Inv m hashToken (Lease.putRun s task.run handled.run) ∧
      (handled.answer = .payload → owns hashToken handled.run token = true) := by
    rcases job_cases hjob with ⟨heq, hgone⟩ | ⟨howns, hfinished, -, hgone⟩ | ⟨howns, -, heq⟩
    · rw [heq, hgone]
      exact ⟨h.same hid, fun hpayload => absurd hpayload (by simp)⟩
    · refine ⟨h.endRun hfinished (h.free_of_idle htask hidle hid howns), ?_⟩
      rw [hgone]
      exact fun hpayload => absurd hpayload (by simp)
    · rw [heq]
      exact ⟨h.touch hid rfl rfl rfl (Or.inl rfl), fun _ => howns⟩
  obtain ⟨h', hpayload⟩ := hrun
  have hok := h'.tasks token task htask
  refine h'.moveTask htask rfl ?_
  cases lost with
  | true => exact ⟨hok.worker, hok.phase, fun hw => hok.owned hw⟩
  | false =>
    by_cases hanswer : handled.answer = .payload
    · have hphase := hok.phase
      unfold PhaseOk at hphase
      rw [hclaimed] at hphase
      simp only [Bool.false_eq_true, if_false, if_pos hanswer]
      exact ⟨hok.worker, hphase, fun _ => ⟨_, Table.get?_put_self _ _ _, hpayload hanswer⟩⟩
    · simp only [Bool.false_eq_true, if_false, if_neg hanswer]
      refine ⟨hok.worker, trivial, ?_⟩
      intro hworking
      exact absurd hworking (by simp [Task.working])

/-- The clock moves on. `prompt` bounds the posts on their way and the processes that are
stopping. -/
theorem inv_tick {s s' : State} {seconds : Nat} (h : Inv m hashToken s)
    (hprompt : prompt m s (.tick seconds) = true)
    (hs : step hashToken fmt s (.tick seconds) = some s') : Inv m hashToken s' := by
  simp only [step] at hs
  split at hs
  · next hpatient =>
    obtain rfl := Option.some.inj hs
    exact h.tick hpatient hprompt
  · exact absurd hs (by simp)

/-- A queued run has no claim. -/
theorem inv_trigger {s s' : State} {id : RunId} {inventory : InventoryId} (h : Inv m hashToken s)
    (hs : step hashToken fmt s (.trigger id inventory) = some s') : Inv m hashToken s' := by
  simp only [step, Option.isNone_iff_eq_none] at hs
  split at hs
  · next hnone =>
    obtain rfl := Option.some.inj hs
    refine h.putRun ?_ ?_ ?_
    · intro token howns
      exact absurd (owns_iff.mp howns).1 (by simp)
    · rintro token task - - - ⟨r, hr, -⟩
      rw [hnone] at hr
      exact absurd hr (by simp)
    · intro hrunning
      exact absurd hrunning (by simp)
  · exact absurd hs (by simp)

/-- A worker's name is its own. -/
theorem inv_startWorker {s s' : State} {worker : String} (h : Inv m hashToken s)
    (hs : step hashToken fmt s (.startWorker worker) = some s') : Inv m hashToken s' := by
  simp only [step, Option.isNone_iff_eq_none] at hs
  split at hs
  · next hnone =>
    obtain rfl := Option.some.inj hs
    exact h.startWorker hnone
  · exact absurd hs (by simp)

/-- The claim's statement takes a queued run whose inventory is idle, and a token that nobody has
had. -/
theorem inv_claim {s s' : State} {worker : String} {id : RunId} {token jobToken : Token}
    (h : Inv m hashToken s)
    (hs : step hashToken fmt s (.claim worker id token jobToken) = some s') :
    Inv m hashToken s' := by
  obtain ⟨run, hid, hs⟩ := Option.bind_eq_some_iff.mp hs
  obtain ⟨heart, hw, hs⟩ := Option.bind_eq_some_iff.mp hs
  split at hs
  · next hcan =>
    simp only [Bool.and_eq_true, decide_eq_true_eq, Bool.not_eq_true', Table.all_iff,
      Table.any_eq_false_iff] at hcan
    obtain rfl := Option.some.inj hs
    obtain ⟨⟨hqueued, hidle⟩, hfresh⟩ := hcan
    refine h.claim hid hw hqueued ?_
      (fun other task hother => by simpa using hfresh other task hother)
    intro k busy hk hbusy
    simpa [hbusy] using hidle k busy hk
  · exact absurd hs (by simp)

/-- The answer's delay is within the margin, so the fence clock is no further ahead of the lease. -/
theorem inv_answer {s s' : State} {token : Token} (h : Inv m hashToken s)
    (hprompt : prompt m s (.answer token) = true)
    (hs : step hashToken fmt s (.answer token) = some s') : Inv m hashToken s' := by
  obtain ⟨task, htask, hs⟩ := Option.bind_eq_some_iff.mp hs
  split at hs
  · next hcan =>
    obtain rfl := Option.some.inj hs
    have hok := h.tasks token task htask
    have hphase := hok.phase
    unfold PhaseOk at hphase
    rw [hcan] at hphase
    simp only [prompt, htask, Option.all_some, decide_eq_true_eq] at hprompt
    refine h.moveTask htask rfl ⟨hok.worker, ⟨⟨Nat.le_refl _, hphase.2.le ?_⟩, ?_⟩, ?_⟩
    · lia
    · intro heart hheart
      have hbeats := h.hearts _ heart hheart
      cases heart with
      | waiting since => exact ⟨Nat.le_add_right_of_le hbeats.1, hbeats.2⟩
      | posting began tasks answers =>
        by_cases hmem : token ∈ tasks
        · refine ⟨hbeats.2, Or.inl ⟨hmem, ?_⟩⟩
          exact Nat.le_add_right_of_le (Nat.le_add_right_of_le hbeats.1)
        · exact ⟨hbeats.2, Or.inr ⟨hmem, hbeats.1⟩⟩
    · intro hworking
      exact absurd hworking (by simp [Task.working])
  · exact absurd hs (by simp)

/-- `/job`: from here on the worker may work on the run. -/
theorem inv_job {s s' : State} {token jobToken : Token} {lost : Bool} (h : Inv m hashToken s)
    (hs : step hashToken fmt s (.job token jobToken lost) = some s') : Inv m hashToken s' := by
  obtain ⟨task, htask, hs⟩ := Option.bind_eq_some_iff.mp hs
  obtain ⟨run, hid, hs⟩ := Option.bind_eq_some_iff.mp hs
  split at hs
  · next hclaimed =>
    split at hs
    · next handled hjob =>
      obtain rfl := Option.some.inj hs
      exact h.job htask hid hclaimed lost hjob
    · exact absurd hs (by simp)
  · exact absurd hs (by simp)

/-- The child is started on what `/job` handed out. -/
theorem inv_start {s s' : State} {token : Token} (h : Inv m hashToken s)
    (hs : step hashToken fmt s (.start token) = some s') : Inv m hashToken s' := by
  obtain ⟨task, htask, hs⟩ := Option.bind_eq_some_iff.mp hs
  split at hs
  · next hfetched =>
    obtain rfl := Option.some.inj hs
    have hok := h.tasks token task htask
    have hphase := hok.phase
    unfold PhaseOk at hphase
    rw [hfetched] at hphase
    refine h.moveTask htask rfl ⟨hok.worker, hphase, fun _ => hok.owned ?_⟩
    simp [Task.working, hfetched]
  · exact absurd hs (by simp)

/-- A task is stopped: its process is told to, or it ends before there is one. -/
theorem inv_stop {s s' : State} {token : Token} (h : Inv m hashToken s)
    (hs : step hashToken fmt s (.stop token) = some s') : Inv m hashToken s' := by
  obtain ⟨task, htask, hs⟩ := Option.bind_eq_some_iff.mp hs
  obtain rfl := Option.some.inj hs
  exact h.moveTask htask (stopTask_run _ _) ((h.tasks token task htask).stop)

/-- The process is gone, so the claim's worker doesn't work on the run any more. -/
theorem inv_exit {s s' : State} {token : Token} (h : Inv m hashToken s)
    (hs : step hashToken fmt s (.exit token) = some s') : Inv m hashToken s' := by
  obtain ⟨task, htask, hs⟩ := Option.bind_eq_some_iff.mp hs
  split at hs
  · obtain rfl := Option.some.inj hs
    refine h.moveTask htask rfl ⟨(h.tasks token task htask).worker, trivial, ?_⟩
    intro hworking
    exact absurd hworking (by simp [Task.working])
  · exact absurd hs (by simp)

/-- What a worker reports ends a run only under the claim of a process that is gone. -/
theorem inv_complete {s s' : State} {token : Token} {status : RunStatus} (h : Inv m hashToken s)
    (hs : step hashToken fmt s (.complete token status) = some s') : Inv m hashToken s' := by
  obtain ⟨task, htask, hs⟩ := Option.bind_eq_some_iff.mp hs
  obtain ⟨run, hid, hs⟩ := Option.bind_eq_some_iff.mp hs
  split at hs
  · next hended =>
    obtain rfl := Option.some.inj hs
    rcases complete_cases s.now run token ⟨run.logSeq, status, none, none⟩ with
      heq | ⟨howns, hfinished, -⟩
    · rw [heq]
      exact h.same hid
    · exact h.endRun hfinished (h.free_of_idle htask (by simp [Task.working, hended]) hid howns)
  · exact absurd hs (by simp)

/-- Somebody cancels the run; what has started goes on until its worker hears of it. -/
theorem inv_cancel {s s' : State} {id : RunId} {user : String} (h : Inv m hashToken s)
    (hs : step hashToken fmt s (.cancel id user) = some s') : Inv m hashToken s' := by
  obtain ⟨run, hid, hs⟩ := Option.bind_eq_some_iff.mp hs
  obtain rfl := Option.some.inj hs
  rcases cancelRun_cases s.now run user with heq | heq | ⟨hqueued, hfinished, -⟩
  · rw [heq]
    exact h.same hid
  · rw [heq]
    exact h.touch hid rfl rfl rfl (Or.inl rfl)
  · refine h.endRun hfinished ?_
    intro token _ _ _ _
    exact free_of_not_running hid (by rw [hqueued]; simp) token

/-- A heartbeat begins with the tasks that the worker has then. -/
theorem inv_beat {s s' : State} {worker : String} (h : Inv m hashToken s)
    (hs : step hashToken fmt s (.beat worker) = some s') : Inv m hashToken s' := by
  simp only [step] at hs
  split at hs
  · next since hw =>
    split at hs
    · obtain rfl := Option.some.inj hs
      refine h.beat hw ?_
      intro token task htask hworker hlisted
      refine List.mem_map.mpr ⟨⟨token, task⟩, List.mem_filter.mpr ⟨?_, ?_⟩, rfl⟩
      · exact Table.get?_eq_some_iff.mp htask
      · simp [hworker, hlisted]
    · exact absurd hs (by simp)
  · exact absurd hs (by simp)

/-- The server takes one of the posts, whether or not its answer arrives. -/
theorem inv_deliver {s s' : State} {worker : String} {token : Token} (h : Inv m hashToken s)
    (hs : step hashToken fmt s (.deliver worker token) = some s') : Inv m hashToken s' := by
  simp only [step] at hs
  split at hs
  · next began tasks answers hw =>
    obtain ⟨task, htask, hs⟩ := Option.bind_eq_some_iff.mp hs
    obtain ⟨run, hid, hs⟩ := Option.bind_eq_some_iff.mp hs
    split at hs
    · obtain rfl := Option.some.inj hs
      exact h.deliver hw htask hid
    · exact absurd hs (by simp)
  · exact absurd hs (by simp)

/-- All of the posts are answered in time, and the clock of each task that was renewed starts
anew. -/
theorem inv_answered {s s' : State} {worker : String} (h : Inv m hashToken s)
    (hs : step hashToken fmt s (.answered worker) = some s') : Inv m hashToken s' := by
  simp only [step] at hs
  split at hs
  · next began tasks answers hw =>
    split at hs
    · obtain rfl := Option.some.inj hs
      exact h.endBeat hw (List.Subset.refl _)
    · exact absurd hs (by simp)
  · exact absurd hs (by simp)

/-- The posts fail: no clock starts anew, and the fence looks at the tasks as after any beat. -/
theorem inv_unanswered {s s' : State} {worker : String} (h : Inv m hashToken s)
    (hs : step hashToken fmt s (.unanswered worker) = some s') : Inv m hashToken s' := by
  simp only [step] at hs
  split at hs
  · next began tasks answers hw =>
    obtain rfl := Option.some.inj hs
    exact h.endBeat hw (List.nil_subset _)
  · exact absurd hs (by simp)

/-- A post that the worker gave up on is still processed. -/
theorem inv_late {s s' : State} {token : Token} (h : Inv m hashToken s)
    (hs : step hashToken fmt s (.late token) = some s') : Inv m hashToken s' := by
  obtain ⟨task, htask, hs⟩ := Option.bind_eq_some_iff.mp hs
  obtain ⟨run, hid, hs⟩ := Option.bind_eq_some_iff.mp hs
  obtain rfl := Option.some.inj hs
  exact h.heartbeat hid token

/-- Nobody works on a run whose lease ran out. -/
theorem inv_reap {s s' : State} {id : RunId} (h : Inv m hashToken s)
    (hs : step hashToken fmt s (.reap id) = some s') : Inv m hashToken s' := by
  obtain ⟨run, hid, hs⟩ := Option.bind_eq_some_iff.mp hs
  split at hs
  · next happlies =>
    obtain rfl := Option.some.inj hs
    exact h.endRun (Reaper.verdict_finished _ _ _) (h.free_of_lost hid happlies)
  · exact absurd hs (by simp)

/-- Within `prompt`, a step keeps the invariant. -/
theorem inv_step {s s' : State} {a : Label} (h : Inv m hashToken s)
    (hprompt : prompt m s a = true) (hs : step hashToken fmt s a = some s') :
    Inv m hashToken s' := by
  cases a with
  | tick seconds => exact inv_tick h hprompt hs
  | trigger id inventory => exact inv_trigger h hs
  | startWorker worker => exact inv_startWorker h hs
  | claim worker id token jobToken => exact inv_claim h hs
  | answer token => exact inv_answer h hprompt hs
  | job token jobToken lost => exact inv_job h hs
  | start token => exact inv_start h hs
  | stop token => exact inv_stop h hs
  | exit token => exact inv_exit h hs
  | complete token status => exact inv_complete h hs
  | cancel id user => exact inv_cancel h hs
  | beat worker => exact inv_beat h hs
  | deliver worker token => exact inv_deliver h hs
  | answered worker => exact inv_answered h hs
  | unanswered worker => exact inv_unanswered h hs
  | late token => exact inv_late h hs
  | reap id => exact inv_reap h hs

/-! ## A run that has ended -/

/-- No claim owns it, now or later. -/
def Over (s : State) (id : RunId) : Prop :=
  ∃ run, s.runs.get? id = some run ∧ run.status.finished = true

/-- A run that has ended is nobody's. -/
theorem not_owns {run : Run} (h : run.status.finished = true) (token : Token) :
    owns hashToken run token = false := by
  have hnot : run.status ≠ .running := (RunStatus.finished_eq_true.mp h).2
  simp [owns, hnot]

/-- Every later write of a run that has ended leaves it ended. -/
theorem Over.putRun {s : State} {id other : RunId} (h : Over s id) {run' : Run}
    (hkeeps : ∀ run, s.runs.get? other = some run → run.status.finished = true →
      run'.status.finished = true) : Over (Lease.putRun s other run') id := by
  obtain ⟨run, hid, hfinished⟩ := h
  by_cases heq : id = other
  · subst heq
    exact ⟨run', Table.get?_put_self _ _ _, hkeeps run hid hfinished⟩
  · exact ⟨run, by rw [← hid]; exact Table.get?_put_of_ne _ _ heq, hfinished⟩

/-- A heartbeat leaves the status alone. -/
theorem heartbeat_status (now : Time) (lease : Nat) (run : Run) (token : Token) :
    (InternalApi.heartbeat hashToken now lease run token).1.status = run.status := by
  rcases heartbeat_cases now lease run token with heq | ⟨-, heq⟩
  · rw [heq]
  · rw [heq]

/-- A claim goes on with its run, and a run that has ended stays so. -/
structure Moves (s s' : State) : Prop where
  tasks : ∀ token task, s.tasks.get? token = some task →
    ∃ task', s'.tasks.get? token = some task' ∧ task'.run = task.run
  staysOver : ∀ id, Over s id → Over s' id

theorem Moves.refl (s : State) : Moves s s :=
  ⟨fun _ task htask => ⟨task, htask, rfl⟩, fun _ hover => hover⟩

theorem Moves.trans {s t w : State} (h₁ : Moves s t) (h₂ : Moves t w) : Moves s w := by
  refine ⟨?_, fun id hover => h₂.staysOver id (h₁.staysOver id hover)⟩
  intro token task htask
  obtain ⟨next, hnext, hrun⟩ := h₁.tasks token task htask
  obtain ⟨last, hlast, hsame⟩ := h₂.tasks token next hnext
  exact ⟨last, hlast, hsame.trans hrun⟩

/-- One run is written; if it had ended, it still has. -/
theorem Moves.putRun {s : State} {id : RunId} {run run' : Run} (hid : s.runs.get? id = some run)
    (hkeeps : run.status.finished = true → run'.status.finished = true) :
    Moves s (Lease.putRun s id run') := by
  refine ⟨fun _ task htask => ⟨task, htask, rfl⟩, ?_⟩
  intro other hover
  refine hover.putRun ?_
  intro r hr hfinished
  rw [hid] at hr
  obtain rfl := Option.some.inj hr
  exact hkeeps hfinished

/-- A claim goes on. -/
theorem Moves.putTask {s : State} {token : Token} {task task' : Task}
    (htask : s.tasks.get? token = some task) (hrun : task'.run = task.run) :
    Moves s (Lease.putTask s token task') := by
  refine ⟨?_, fun _ hover => hover⟩
  intro k t hk
  by_cases heq : k = token
  · subst heq
    rw [htask] at hk
    obtain rfl := Option.some.inj hk
    exact ⟨task', Table.get?_put_self _ _ _, hrun⟩
  · exact ⟨t, by rw [← hk]; exact Table.get?_put_of_ne _ _ heq, rfl⟩

/-- The answers of a heartbeat change phases and clocks. -/
theorem Moves.endBeat (s : State) (worker : String) (began : Time) (tasks : List Token)
    (answers : List (Token × InternalApi.Beat)) :
    Moves s (Lease.endBeat s worker began tasks answers) := by
  refine ⟨?_, fun _ hover => hover⟩
  intro k t hk
  simp only [Lease.endBeat, Table.get?_mapRows, hk, Option.map_some]
  refine ⟨_, rfl, ?_⟩
  split
  · rw [fence_run, hear_run]
  · rfl

/-- The clock or the workers change. -/
theorem Moves.same {s t : State} (hruns : t.runs = s.runs) (htasks : t.tasks = s.tasks) :
    Moves s t := by
  refine ⟨fun token task htask => ⟨task, by rw [htasks, htask], rfl⟩, ?_⟩
  rintro id ⟨run, hid, hfinished⟩
  exact ⟨run, by rw [hruns, hid], hfinished⟩

theorem moves_tick {s s' : State} {seconds : Nat}
    (hs : step hashToken fmt s (.tick seconds) = some s') : Moves s s' := by
  simp only [step] at hs
  split at hs
  · obtain rfl := Option.some.inj hs
    exact .same rfl rfl
  · exact absurd hs (by simp)

theorem moves_trigger {s s' : State} {id : RunId} {inventory : InventoryId}
    (hs : step hashToken fmt s (.trigger id inventory) = some s') : Moves s s' := by
  simp only [step, Option.isNone_iff_eq_none] at hs
  split at hs
  · next hnone =>
    obtain rfl := Option.some.inj hs
    refine ⟨fun _ task htask => ⟨task, htask, rfl⟩, fun _ hover => hover.putRun ?_⟩
    intro run hid
    rw [hnone] at hid
    exact absurd hid (by simp)
  · exact absurd hs (by simp)

theorem moves_startWorker {s s' : State} {worker : String}
    (hs : step hashToken fmt s (.startWorker worker) = some s') : Moves s s' := by
  simp only [step] at hs
  split at hs
  · obtain rfl := Option.some.inj hs
    exact .same rfl rfl
  · exact absurd hs (by simp)

theorem moves_claim {s s' : State} {worker : String} {id : RunId} {token jobToken : Token}
    (hs : step hashToken fmt s (.claim worker id token jobToken) = some s') : Moves s s' := by
  obtain ⟨run, hid, hs⟩ := Option.bind_eq_some_iff.mp hs
  obtain ⟨heart, -, hs⟩ := Option.bind_eq_some_iff.mp hs
  split at hs
  · next hcan =>
    simp only [Bool.and_eq_true, decide_eq_true_eq, Table.all_iff] at hcan
    obtain ⟨⟨hqueued, -⟩, hfresh⟩ := hcan
    obtain rfl := Option.some.inj hs
    refine ⟨?_, ?_⟩
    · intro k t hk
      have hne : k ≠ token := by
        rintro rfl
        exact absurd rfl (hfresh k t hk)
      exact ⟨t, by rw [← hk]; exact Table.get?_put_of_ne _ _ hne, rfl⟩
    · intro other hover
      refine hover.putRun ?_
      intro r hr hfinished
      rw [hid] at hr
      obtain rfl := Option.some.inj hr
      rw [hqueued] at hfinished
      exact absurd hfinished (by simp)
  · exact absurd hs (by simp)

theorem moves_answer {s s' : State} {token : Token}
    (hs : step hashToken fmt s (.answer token) = some s') : Moves s s' := by
  obtain ⟨task, htask, hs⟩ := Option.bind_eq_some_iff.mp hs
  split at hs
  · obtain rfl := Option.some.inj hs
    exact .putTask htask rfl
  · exact absurd hs (by simp)

theorem moves_job {s s' : State} {token jobToken : Token} {lost : Bool}
    (hs : step hashToken fmt s (.job token jobToken lost) = some s') : Moves s s' := by
  obtain ⟨task, htask, hs⟩ := Option.bind_eq_some_iff.mp hs
  obtain ⟨run, hid, hs⟩ := Option.bind_eq_some_iff.mp hs
  split at hs
  · split at hs
    · next handled hjob =>
      obtain rfl := Option.some.inj hs
      have hrun : Moves s (Lease.putRun s task.run handled.run) := by
        refine .putRun hid ?_
        intro hfinished
        rcases job_cases hjob with ⟨heq, -⟩ | ⟨-, hended, -⟩ | ⟨-, -, heq⟩
        · rw [heq]
          exact hfinished
        · exact hended
        · rw [heq]
          exact hfinished
      exact hrun.trans (.putTask htask rfl)
    · exact absurd hs (by simp)
  · exact absurd hs (by simp)

theorem moves_start {s s' : State} {token : Token}
    (hs : step hashToken fmt s (.start token) = some s') : Moves s s' := by
  obtain ⟨task, htask, hs⟩ := Option.bind_eq_some_iff.mp hs
  split at hs
  · obtain rfl := Option.some.inj hs
    exact .putTask htask rfl
  · exact absurd hs (by simp)

theorem moves_stop {s s' : State} {token : Token}
    (hs : step hashToken fmt s (.stop token) = some s') : Moves s s' := by
  obtain ⟨task, htask, hs⟩ := Option.bind_eq_some_iff.mp hs
  obtain rfl := Option.some.inj hs
  exact .putTask htask (stopTask_run _ _)

theorem moves_exit {s s' : State} {token : Token}
    (hs : step hashToken fmt s (.exit token) = some s') : Moves s s' := by
  obtain ⟨task, htask, hs⟩ := Option.bind_eq_some_iff.mp hs
  split at hs
  · obtain rfl := Option.some.inj hs
    exact .putTask htask rfl
  · exact absurd hs (by simp)

theorem moves_complete {s s' : State} {token : Token} {status : RunStatus}
    (hs : step hashToken fmt s (.complete token status) = some s') : Moves s s' := by
  obtain ⟨task, -, hs⟩ := Option.bind_eq_some_iff.mp hs
  obtain ⟨run, hid, hs⟩ := Option.bind_eq_some_iff.mp hs
  split at hs
  · obtain rfl := Option.some.inj hs
    refine .putRun hid ?_
    intro hfinished
    rcases complete_cases s.now run token ⟨run.logSeq, status, none, none⟩ with
      heq | ⟨howns, -⟩
    · rw [heq]
      exact hfinished
    · exact absurd howns (by simp [not_owns hfinished])
  · exact absurd hs (by simp)

theorem moves_cancel {s s' : State} {id : RunId} {user : String}
    (hs : step hashToken fmt s (.cancel id user) = some s') : Moves s s' := by
  obtain ⟨run, hid, hs⟩ := Option.bind_eq_some_iff.mp hs
  obtain rfl := Option.some.inj hs
  refine .putRun hid ?_
  intro hfinished
  rcases cancelRun_cases s.now run user with heq | heq | ⟨-, hended, -⟩
  · rw [heq]
    exact hfinished
  · rw [heq]
    exact hfinished
  · exact hended

theorem moves_beat {s s' : State} {worker : String}
    (hs : step hashToken fmt s (.beat worker) = some s') : Moves s s' := by
  simp only [step] at hs
  split at hs
  · split at hs
    · obtain rfl := Option.some.inj hs
      exact .same rfl rfl
    · exact absurd hs (by simp)
  · exact absurd hs (by simp)

theorem moves_deliver {s s' : State} {worker : String} {token : Token}
    (hs : step hashToken fmt s (.deliver worker token) = some s') : Moves s s' := by
  simp only [step] at hs
  split at hs
  · obtain ⟨task, -, hs⟩ := Option.bind_eq_some_iff.mp hs
    obtain ⟨run, hid, hs⟩ := Option.bind_eq_some_iff.mp hs
    split at hs
    · obtain rfl := Option.some.inj hs
      have hrun := @Moves.putRun _ _ _
        (InternalApi.heartbeat hashToken s.now runLeaseSeconds run token).1 hid
        (by rw [heartbeat_status]; exact fun hfinished => hfinished)
      exact ⟨hrun.tasks, hrun.staysOver⟩
    · exact absurd hs (by simp)
  · exact absurd hs (by simp)

theorem moves_answered {s s' : State} {worker : String}
    (hs : step hashToken fmt s (.answered worker) = some s') : Moves s s' := by
  simp only [step] at hs
  split at hs
  · split at hs
    · obtain rfl := Option.some.inj hs
      exact .endBeat _ _ _ _ _
    · exact absurd hs (by simp)
  · exact absurd hs (by simp)

theorem moves_unanswered {s s' : State} {worker : String}
    (hs : step hashToken fmt s (.unanswered worker) = some s') : Moves s s' := by
  simp only [step] at hs
  split at hs
  · obtain rfl := Option.some.inj hs
    exact .endBeat _ _ _ _ _
  · exact absurd hs (by simp)

theorem moves_late {s s' : State} {token : Token}
    (hs : step hashToken fmt s (.late token) = some s') : Moves s s' := by
  obtain ⟨task, -, hs⟩ := Option.bind_eq_some_iff.mp hs
  obtain ⟨run, hid, hs⟩ := Option.bind_eq_some_iff.mp hs
  obtain rfl := Option.some.inj hs
  exact .putRun hid (by rw [heartbeat_status]; exact fun hfinished => hfinished)

theorem moves_reap {s s' : State} {id : RunId} (hs : step hashToken fmt s (.reap id) = some s') :
    Moves s s' := by
  obtain ⟨run, hid, hs⟩ := Option.bind_eq_some_iff.mp hs
  split at hs
  · obtain rfl := Option.some.inj hs
    exact .putRun hid fun _ => Reaper.verdict_finished _ _ _
  · exact absurd hs (by simp)

/-- Every step, whether or not it is within `prompt`. -/
theorem moves {s s' : State} {a : Label} (hs : step hashToken fmt s a = some s') : Moves s s' := by
  cases a with
  | tick seconds => exact moves_tick hs
  | trigger id inventory => exact moves_trigger hs
  | startWorker worker => exact moves_startWorker hs
  | claim worker id token jobToken => exact moves_claim hs
  | answer token => exact moves_answer hs
  | job token jobToken lost => exact moves_job hs
  | start token => exact moves_start hs
  | stop token => exact moves_stop hs
  | exit token => exact moves_exit hs
  | complete token status => exact moves_complete hs
  | cancel id user => exact moves_cancel hs
  | beat worker => exact moves_beat hs
  | deliver worker token => exact moves_deliver hs
  | answered worker => exact moves_answered hs
  | unanswered worker => exact moves_unanswered hs
  | late token => exact moves_late hs
  | reap id => exact moves_reap hs

/-- A process is alive only while the worker works on its run. -/
theorem working_of_alive {task : Task} (h : task.alive = true) : task.working = true := by
  unfold Task.alive at h
  unfold Task.working
  split at h
  · next hp => rw [hp]
  · next hp => rw [hp]
  · exact absurd h (by simp)

/-- Nobody runs a run that has ended. -/
theorem Inv.idle_of_over {s : State} (h : Inv m hashToken s) {token : Token} {task : Task}
    (htask : s.tasks.get? token = some task) (hover : Over s task.run) : task.alive = false := by
  cases halive : task.alive with
  | false => rfl
  | true =>
    obtain ⟨run, hid, howns⟩ := (h.tasks token task htask).owned (working_of_alive halive)
    obtain ⟨r, hr, hfinished⟩ := hover
    rw [hid] at hr
    obtain rfl := Option.some.inj hr
    exact absurd howns (by simp [not_owns hfinished])

/-- What the fence is for. -/
structure Fenced (hashToken : Token → Digest) (fmt : EventFormat ε) (ok : State → Label → Prop)
    (s : State) : Prop where
  /-- A run that the reaper ends for its lease isn't executed by a worker that claimed it, then or
  later. -/
  stopped : ∀ id s', ok s (.reap id) → step hashToken fmt s (.reap id) = some s' →
    ∀ token task, s.tasks.get? token = some task → task.run = id →
      ∀ t task', (system hashToken fmt).Path ok s' t → t.tasks.get? token = some task' →
        task'.alive = false
  /-- No two claims execute runs of one inventory. -/
  alone : ∀ a b ta tb ra rb, s.tasks.get? a = some ta → s.tasks.get? b = some tb →
    ta.alive = true → tb.alive = true → s.runs.get? ta.run = some ra →
    s.runs.get? tb.run = some rb →
    RunQueue.sameInventory ra rb = true → a = b

/-- The reaper's end of a run, and any path of steps after it. -/
theorem Inv.stopped {s s' t : State} (h : Inv m hashToken s) {id : RunId}
    (hok : prompt m s (.reap id) = true) (hs : step hashToken fmt s (.reap id) = some s')
    {token : Token} {task task' : Task} (htask : s.tasks.get? token = some task)
    (hrun : task.run = id)
    (hpath : (system hashToken fmt).Path (fun s a => prompt m s a = true) s' t)
    (htask' : t.tasks.get? token = some task') : task'.alive = false := by
  have hover : Over s' id := by
    obtain ⟨run, -, hs⟩ := Option.bind_eq_some_iff.mp hs
    split at hs
    · obtain rfl := Option.some.inj hs
      exact ⟨_, Table.get?_put_self _ _ _, Reaper.verdict_finished _ _ _⟩
    · exact absurd hs (by simp)
  have hreaped : Inv m hashToken s' := inv_step h hok hs
  have hinv : Inv m hashToken t :=
    hpath.stable (I := fun _ => True) (fun _ _ _ _ _ _ => trivial)
      (fun _ _ _ _ h hok hs => inv_step h hok hs) trivial hreaped
  have hmoves : Moves s' t :=
    hpath.rel (I := Inv m hashToken) (fun _ _ _ h hok hs => inv_step h hok hs) Moves.refl
      (fun _ _ _ _ _ h _ hs => h.trans (moves hs)) hreaped
  obtain ⟨later, hlater, hid⟩ := ((moves hs).trans hmoves).tasks token task htask
  rw [htask'] at hlater
  obtain rfl := Option.some.inj hlater
  exact hinv.idle_of_over htask' (by rw [hid, hrun]; exact hmoves.staysOver id hover)

/-- The steps are those within `prompt`: the delays of which the margin was made. -/
theorem inv_inductive :
    Lib.System.Inductive (system hashToken fmt) (fun s a => prompt m s a = true)
    (Inv m hashToken) where
  init := by
    rintro s rfl
    exact inv_init
  step _ _ _ h hok hs := inv_step h hok hs

/-- A worker that is cut off stops its run, the reaper ends it, and another worker runs the next
one of the inventory. -/
def cutOff : List Label :=
  [.startWorker "a", .trigger 1 7, .trigger 2 7, .claim "a" 1 "c1" "j1", .tick 3, .answer "c1",
    .job "c1" "j1" false, .start "c1", .tick 2, .beat "a", .tick 1, .deliver "a" "c1",
    .answered "a"] ++
  (List.replicate 5 [.tick 5, .beat "a", .tick 5, .unanswered "a"]).flatten ++
  [.tick 3, .exit "c1", .tick 2, .beat "a", .tick 5, .unanswered "a", .tick 1, .reap 1,
    .startWorker "b", .claim "b" 2 "c2" "j2", .answer "c2", .job "c2" "j2" false, .start "c2"]

/-- Half of the ten seconds for each. -/
def evenMargin : Margin := ⟨5, 5, by decide⟩

/-- The claim's answer arrives 40 seconds late, and then the worker is cut off: its fence clock is
that much ahead of the lease, so it still runs its run when another worker runs the next one of the
inventory. -/
def lateAnswer : List Label :=
  [.startWorker "a", .trigger 1 7, .trigger 2 7, .claim "a" 1 "c1" "j1"] ++
  (List.replicate 4 [.tick 5, .beat "a", .tick 5, .unanswered "a"]).flatten ++
  [.answer "c1", .job "c1" "j1" false, .start "c1"] ++
  (List.replicate 2 [.tick 5, .beat "a", .tick 5, .unanswered "a"]).flatten ++
  [.tick 1, .reap 1, .startWorker "b", .claim "b" 2 "c2" "j2", .answer "c2",
    .job "c2" "j2" false, .start "c2"]

end Lease

end AnsiDeck
