import AnsiDeck.Galaxy.Gate

/-!
# How an install ends

The thread that runs an install records its outcome whatever the row says by then; the reaper ends
one whose lease ran out, and whoever holds the gate next takes it for ended. So an install stays
ended, and runs alone, as long as the reaper only ends one that nobody runs any more: its process
went away, and its commands have ended (`abandoned`).
-/

namespace AnsiDeck

namespace Galaxy

open Lib (Table)

variable {ε : Type} {cfg : Settings} {fmt : EventFormat ε}

/-- Whether its commands run. -/
def Thread.commandsRun : Thread → Bool
  | .installing _ | .orphaned => true
  | _ => false

/-- An install the reaper ends has no commands left, nor a thread that would record anything
else. -/
def abandoned (s : State) : Label → Bool
  | .reap id _ => match s.threads.get? id with
    | none => true
    | some (.done _ returnCode) => outcome returnCode = .failed
    | some _ => false
  | _ => true

/-! ## What a step does to the installs and their threads -/

inductive InstallMove (cfg : Settings) (s : State) (a : Label) :
    Table InstallId GalaxyInstall → Table InstallId Thread → Prop
  | same : InstallMove cfg s a s.installs s.threads
  | created (id : InstallId) (hnew : s.installs.get? id = none) :
      InstallMove cfg s a (s.installs.put id {}) s.threads
  | started (k : Nat) (began : Time) (id : InstallId) (install : GalaxyInstall)
      (hk : s.txs.get? k = some (.install began (.noLint id)))
      (hid : s.installs.get? id = some install) :
      InstallMove cfg s a (s.installs.put id (startedInstall cfg began install))
        (s.threads.put id .starting)
  /-- The thread gets on, before its commands have ended. -/
  | thread (id : InstallId) (old new : Thread) (hid : s.threads.get? id = some old)
      (hold : ∀ began returnCode, old ≠ .done began returnCode) :
      InstallMove cfg s a s.installs (s.threads.put id new)
  | gone (id : InstallId) : InstallMove cfg s a s.installs (s.threads.remove id)
  | recorded (id : InstallId) (began : Time) (returnCode : Option Int) (install : GalaxyInstall)
      (hthread : s.threads.get? id = some (.done began returnCode))
      (hid : s.installs.get? id = some install) :
      InstallMove cfg s a (s.installs.put id (recorded began returnCode install))
        (s.threads.remove id)
  | renewed (id : InstallId) (install row : GalaxyInstall)
      (hid : s.installs.get? id = some install) (hstatus : row.status = install.status) :
      InstallMove cfg s a (s.installs.put id row) s.threads
  | reaped (id : InstallId) (started : Time) (install : GalaxyInstall) (ha : a = .reap id started)
      (hid : s.installs.get? id = some install) (hrunning : install.status = .running) :
      InstallMove cfg s a (s.installs.put id (interrupted started install)) s.threads

theorem renewed_status (started : Time) (install : GalaxyInstall) :
    (renewed cfg started install).status = install.status := by
  unfold renewed
  split <;> rfl

theorem installMove {s s' : State} {a : Label} (hs : step cfg fmt s a = some s') :
    InstallMove cfg s a s'.installs s'.threads := by
  cases a with
  | tick seconds =>
    obtain rfl := Option.some.inj hs
    exact .same
  | write write =>
    simp only [step] at hs
    split at hs
    · obtain rfl := Option.some.inj hs
      cases write <;> exact .same
    · exact absurd hs (by simp)
  | delete row =>
    simp only [step] at hs
    split at hs
    · obtain rfl := Option.some.inj hs
      cases row <;> exact .same
    · exact absurd hs (by simp)
  | checkInstalls k =>
    simp only [step] at hs
    split at hs
    · obtain rfl := Option.some.inj hs
      split <;> exact .same
    · exact absurd hs (by simp)
  | claim k kind started =>
    simp only [step] at hs
    split at hs
    · obtain rfl := Option.some.inj hs
      exact .same
    · exact absurd hs (by simp)
  | lockLints k =>
    simp only [step] at hs
    split at hs
    · split at hs
      · obtain rfl := Option.some.inj hs
        exact .same
      · exact absurd hs (by simp)
    · exact absurd hs (by simp)
  | lintStatement k =>
    simp only [step] at hs
    split at hs
    · obtain rfl := Option.some.inj hs
      exact .same
    · exact absurd hs (by simp)
  | claimRun k id inventory by_ =>
    simp only [step] at hs
    split at hs
    · split at hs
      · obtain rfl := Option.some.inj hs
        exact .same
      · exact absurd hs (by simp)
    · exact absurd hs (by simp)
  | claimRefresh k id by_ =>
    simp only [step] at hs
    split at hs
    · split at hs
      · obtain rfl := Option.some.inj hs
        exact .same
      · exact absurd hs (by simp)
    · exact absurd hs (by simp)
  | claimLint k id by_ =>
    simp only [step] at hs
    split at hs
    · split at hs
      · obtain rfl := Option.some.inj hs
        exact .same
      · exact absurd hs (by simp)
    · exact absurd hs (by simp)
  | commit k =>
    simp only [step] at hs
    split at hs
    · next kind began write hk =>
      obtain rfl := Option.some.inj hs
      cases write <;> exact .same
    · next began id hk =>
      obtain ⟨install, hid, hs⟩ := Option.bind_eq_some_iff.mp hs
      obtain rfl := Option.some.inj hs
      exact .started k began id install hk hid
    · exact absurd hs (by simp)
  | rollback k =>
    obtain ⟨tx, -, hs⟩ := Option.bind_eq_some_iff.mp hs
    obtain rfl := Option.some.inj hs
    exact .same
  | createInstall id =>
    simp only [step, Option.isNone_iff_eq_none] at hs
    split at hs
    · next hnew =>
      obtain rfl := Option.some.inj hs
      exact .created id hnew
    · exact absurd hs (by simp)
  | tryStart k started =>
    simp only [step] at hs
    split at hs
    · obtain rfl := Option.some.inj hs
      exact .same
    · exact absurd hs (by simp)
  | nextStatement k =>
    simp only [step] at hs
    split at hs
    · split at hs
      · obtain rfl := Option.some.inj hs
        exact .same
      · obtain rfl := Option.some.inj hs
        exact .same
    · exact absurd hs (by simp)
  | boot id =>
    simp only [step] at hs
    split at hs
    · next hid =>
      obtain rfl := Option.some.inj hs
      exact .thread id _ _ hid (by simp)
    · exact absurd hs (by simp)
  | commandsEnd id returnCode =>
    simp only [step] at hs
    split at hs
    · next began hid =>
      obtain rfl := Option.some.inj hs
      exact .thread id _ _ hid (by simp)
    · obtain rfl := Option.some.inj hs
      exact .gone id
    · exact absurd hs (by simp)
  | record id =>
    simp only [step] at hs
    split at hs
    · next began returnCode install hthread hid =>
      obtain rfl := Option.some.inj hs
      exact .recorded id began returnCode install hthread hid
    · exact absurd hs (by simp)
  | renew id started =>
    obtain ⟨install, hid, hs⟩ := Option.bind_eq_some_iff.mp hs
    split at hs
    · obtain rfl := Option.some.inj hs
      exact .renewed id install _ hid (renewed_status started install)
    · exact absurd hs (by simp)
  | crash id =>
    simp only [step] at hs
    split at hs
    · next began hid =>
      obtain rfl := Option.some.inj hs
      exact .thread id _ _ hid (by simp)
    · exact absurd hs (by simp)
    · exact absurd hs (by simp)
    · obtain rfl := Option.some.inj hs
      exact .gone id
  | reap id started =>
    obtain ⟨install, hid, hs⟩ := Option.bind_eq_some_iff.mp hs
    split at hs
    · next hlost =>
      simp only [Bool.and_eq_true, decide_eq_true_eq] at hlost
      obtain rfl := Option.some.inj hs
      exact .reaped id started install rfl hid hlost.1.1
    · exact absurd hs (by simp)

/-! ## The row runs as long as the thread does -/

/-- What the row says while its thread is there. -/
def Lives (status : RunStatus) : Thread → Prop
  | .done _ returnCode => status = .running ∨ status = .failed ∧ outcome returnCode = .failed
  | _ => status = .running

structure FinalInv (cfg : Settings) (s : State) : Prop where
  gate : Inv cfg s
  lives : ∀ id thread, s.threads.get? id = some thread →
    ∃ row, s.installs.get? id = some row ∧ Lives row.status thread

theorem Lives.of_running {status : RunStatus} (h : status = .running) (thread : Thread) :
    Lives status thread := by
  cases thread with
  | done began returnCode => exact Or.inl h
  | _ => exact h

theorem Lives.running {status : RunStatus} {thread : Thread} (h : Lives status thread)
    (hdone : ∀ began returnCode, thread ≠ .done began returnCode) : status = .running := by
  cases thread with
  | done began returnCode => exact absurd rfl (hdone began returnCode)
  | _ => exact h

/-- A new version of one install's row suits its thread, if it still has one. -/
theorem lives_put {s : State} {id : InstallId} {row : GalaxyInstall}
    {threads : Table InstallId Thread}
    (hlives : ∀ id thread, s.threads.get? id = some thread →
      ∃ row, s.installs.get? id = some row ∧ Lives row.status thread)
    (hsame : ∀ k thread, k ≠ id → threads.get? k = some thread → s.threads.get? k = some thread)
    (hid : ∀ thread, threads.get? id = some thread → Lives row.status thread) :
    ∀ k thread, threads.get? k = some thread →
      ∃ r, (s.installs.put id row).get? k = some r ∧ Lives r.status thread := by
  intro k thread hk
  by_cases heq : k = id
  · subst heq
    exact ⟨row, Table.get?_put_self _ _ _, hid thread hk⟩
  · rw [Table.get?_put_of_ne _ _ heq]
    exact hlives k thread (hsame k thread heq hk)

theorem lives_step {s : State} {a : Label} {installs : Table InstallId GalaxyInstall}
    {threads : Table InstallId Thread} (h : FinalInv cfg s) (hok : abandoned s a = true)
    (hmove : InstallMove cfg s a installs threads) :
    ∀ id thread, threads.get? id = some thread →
      ∃ row, installs.get? id = some row ∧ Lives row.status thread := by
  cases hmove with
  | same => exact h.lives
  | created id hnew =>
    refine lives_put h.lives (fun _ _ _ hk => hk) ?_
    intro thread hid
    obtain ⟨row, hrow, -⟩ := h.lives id thread hid
    rw [hnew] at hrow
    exact absurd hrow (by simp)
  | started k began id install hk hid =>
    refine lives_put h.lives ?_ fun thread _ => .of_running rfl thread
    intro other thread hne hother
    rw [Table.get?_put_of_ne _ _ hne] at hother
    exact hother
  | thread id old new hid hold =>
    intro other thread hother
    rw [Table.get?_put] at hother
    split at hother
    · next heq =>
      obtain ⟨row, hrow, hlives⟩ := h.lives id old hid
      rw [heq]
      exact ⟨row, hrow, .of_running (hlives.running hold) thread⟩
    · exact h.lives other thread hother
  | gone id =>
    intro other thread hother
    obtain ⟨-, hother⟩ := Table.get?_remove_eq_some.1 hother
    exact h.lives other thread hother
  | recorded id began returnCode install hthread hid =>
    refine lives_put h.lives ?_ ?_
    · intro other thread hne hother
      rw [Table.get?_remove, if_neg hne] at hother
      exact hother
    · intro thread hgone
      rw [Table.get?_remove, if_pos rfl] at hgone
      exact absurd hgone (by simp)
  | renewed id install row hid hstatus =>
    refine lives_put h.lives (fun _ _ _ hk => hk) ?_
    intro thread hthread
    obtain ⟨old, hold, hlives⟩ := h.lives id thread hthread
    rw [hid] at hold
    obtain rfl := Option.some.inj hold
    rw [hstatus]
    exact hlives
  | reaped id started install ha hid hrunning =>
    refine lives_put h.lives (fun _ _ _ hk => hk) ?_
    intro thread hthread
    subst ha
    simp only [abandoned, hthread] at hok
    cases thread with
    | done began returnCode => exact Or.inr ⟨rfl, by simpa using hok⟩
    | _ => exact absurd hok (by simp)

/-- The status of an install that has ended. -/
def Ended (s : State) (id : InstallId) (status : RunStatus) : Prop :=
  ∃ row, s.installs.get? id = some row ∧ row.status = status ∧ status.finished = true

theorem ended_step {s s' : State} {a : Label} (h : FinalInv cfg s) {id : InstallId}
    {status : RunStatus} (hended : Ended s id status)
    (hmove : InstallMove cfg s a s'.installs s'.threads) : Ended s' id status := by
  obtain ⟨row, hrow, hstatus, hfinished⟩ := hended
  have hkeep : ∀ k new, s'.installs = s.installs.put k new →
      (∀ old, s.installs.get? k = some old → old.status = status → new.status = status) →
      Ended s' id status := by
    intro k new heq hnew
    by_cases hk : id = k
    · subst hk
      exact ⟨new, by rw [heq]; exact Table.get?_put_self _ _ _, hnew row hrow hstatus, hfinished⟩
    · exact ⟨row, by rw [heq, Table.get?_put_of_ne _ _ hk, hrow], hstatus, hfinished⟩
  have hactive := RunStatus.finished_eq_true.mp hfinished
  generalize hinstalls : s'.installs = installs at hmove
  generalize hthreads : s'.threads = threads at hmove
  cases hmove with
  | same => exact ⟨row, by rw [hinstalls, hrow], hstatus, hfinished⟩
  | thread k old new hk hold => exact ⟨row, by rw [hinstalls, hrow], hstatus, hfinished⟩
  | gone k => exact ⟨row, by rw [hinstalls, hrow], hstatus, hfinished⟩
  | created k hnew =>
    refine hkeep k _ hinstalls ?_
    intro old hold
    rw [hnew] at hold
    exact absurd hold (by simp)
  | started k began other install hk hid =>
    refine hkeep other _ hinstalls ?_
    intro old hold heq
    obtain ⟨r, hr, hqueued⟩ := (h.gate.txs k _ hk).queued other rfl
    rw [hold] at hr
    obtain rfl := Option.some.inj hr
    exact absurd (heq.symm.trans hqueued) hactive.1
  | recorded k began returnCode install hthread hid =>
    refine hkeep k _ hinstalls ?_
    intro old hold heq
    obtain ⟨r, hr, hrunning | ⟨hfailed, houtcome⟩⟩ := h.lives k _ hthread
    · rw [hold] at hr
      obtain rfl := Option.some.inj hr
      exact absurd (heq.symm.trans hrunning) hactive.2
    · rw [hold] at hr
      obtain rfl := Option.some.inj hr
      exact houtcome.trans (hfailed.symm.trans heq)
  | renewed k install new hid hsame =>
    refine hkeep k _ hinstalls ?_
    intro old hold heq
    rw [hid] at hold
    obtain rfl := Option.some.inj hold
    exact hsame.trans heq
  | reaped k started install ha hid hrunning =>
    refine hkeep k _ hinstalls ?_
    intro old hold heq
    rw [hid] at hold
    obtain rfl := Option.some.inj hold
    exact absurd (heq.symm.trans hrunning) hactive.2

theorem finalInv_step {s s' : State} {a : Label} (h : FinalInv cfg s) (hok : abandoned s a = true)
    (hs : step cfg fmt s a = some s') : FinalInv cfg s' :=
  ⟨inv_step h.gate hs, lives_step h hok (installMove hs)⟩

theorem finalInv_inductive :
    Lib.System.Inductive (system cfg fmt) (fun s a => abandoned s a = true) (FinalInv cfg) where
  init := by
    rintro s rfl
    refine ⟨inv_init, ?_⟩
    intro id thread hid
    exact absurd hid (by simp)
  step _ _ _ h hok hs := finalInv_step h hok hs

/-- While a row of an install runs, no step sets another row running. -/
theorem Inv.starts_nothing {s s' : State} {a : Label} (h : Inv cfg s) {id : InstallId}
    (hid : isRunning s (.install id) = true) (hs : step cfg fmt s a = some s') {row : Row}
    (hrow : isRunning s' row = true) : isRunning s row = true := by
  rcases quiet_or_commits h hs with hquiet | hcommits
  · exact hquiet.calm.running row hrow
  · cases hcommits with
    | claim k kind began write hk =>
      have hidle := (h.txs k _ hk).checked (.install id) rfl
      rw [hid] at hidle
      exact absurd hidle (by simp)
    | install k began other install hk hother =>
      have hidle := (h.txs k _ hk).checked (.install id) rfl
      rw [hid] at hidle
      exact absurd hidle (by simp)

/-- How an install ends, and what waits for it. -/
structure Final (cfg : Settings) (fmt : EventFormat ε) (ok : State → Label → Prop) (s : State) :
    Prop where
  /-- An install that failed or succeeded stays so. -/
  ended : ∀ id status, Ended s id status → ∀ t, (system cfg fmt).Path ok s t → Ended t id status
  /-- While an install's commands run, nothing is claimed and no install starts. -/
  alone : ∀ id thread, s.threads.get? id = some thread → thread.commandsRun = true →
    ∀ a s', ok s a → step cfg fmt s a = some s' → ∀ row, isRunning s' row = true →
      isRunning s row = true

/-- **An install's end is final, and its commands run alone**, where the reaper only ends an
install that nobody runs any more. -/
theorem final {s : State}
    (hr : (system cfg fmt).ReachableBy (fun s a => abandoned s a = true) s) :
    Final cfg fmt (fun s a => abandoned s a = true) s := by
  have h : FinalInv cfg s := finalInv_inductive.of_reachable hr
  refine ⟨?_, ?_⟩
  · intro id status hended t hpath
    exact hpath.stable (I := FinalInv cfg) (P := fun t => Ended t id status)
      (fun _ _ _ h hok hs => finalInv_step h hok hs)
      (fun _ _ _ h hended _ hs => ended_step h hended (installMove hs)) h hended
  · intro id thread hid hcommands a s' _ hs row hrow
    obtain ⟨install, hinstall, hlives⟩ := h.lives id thread hid
    have hrunning : install.status = .running := by
      refine hlives.running ?_
      rintro began returnCode rfl
      exact absurd hcommands (by simp [Thread.commandsRun])
    exact h.gate.starts_nothing (running_install_iff.mpr ⟨install, hinstall, hrunning⟩) hs hrow

/-- An install whose process goes away: its commands end, and the reaper ends it. -/
def processLost : List Label :=
  [.createInstall 1, .tryStart 1 0, .nextStatement 1, .nextStatement 1, .nextStatement 1,
    .nextStatement 1, .nextStatement 1, .commit 1, .boot 1, .tick 15, .renew 1 15, .crash 1,
    .commandsEnd 1 none, .tick 61, .reap 1 76]

theorem final_processLost :
    Final {} byteFormat (fun s a => abandoned s a = true)
      (((system {} byteFormat).run (fun s a => abandoned s a = true) {} processLost).get rfl) :=
  final (.of_isSome rfl processLost rfl)

/-- The renewals fail for a minute: the reaper ends the install while its commands run. -/
def leaseLost : List Label :=
  [.createInstall 1, .tryStart 1 0, .nextStatement 1, .nextStatement 1, .nextStatement 1,
    .nextStatement 1, .nextStatement 1, .commit 1, .boot 1, .tick 61, .reap 1 61]

/-- Its thread then records its success. -/
theorem not_final :
    ¬∀ s, (system {} byteFormat).Reachable s → Final {} byteFormat Lib.anyStep s := by
  intro h
  have hs : (system {} byteFormat).Reachable
      (((system {} byteFormat).run Lib.anyStep {} leaseLost).get rfl) :=
      .of_isSome rfl leaseLost rfl
  have hlater : (system {} byteFormat).Path Lib.anyStep
      (((system {} byteFormat).run Lib.anyStep {} leaseLost).get rfl) _ :=
    .of_run (show (system {} byteFormat).run _ _ [.commandsEnd 1 (some 0), .record 1] =
      some _ from rfl)
  obtain ⟨row, hrow, hstatus, -⟩ := (h _ hs).ended 1 .failed ⟨_, rfl, rfl, rfl⟩ _ hlater
  obtain rfl := Option.some.inj hrow
  exact absurd hstatus (by decide)

end Galaxy

end AnsiDeck
