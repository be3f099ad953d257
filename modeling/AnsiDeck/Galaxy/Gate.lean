import AnsiDeck.Galaxy.System

/-!
# The gate keeps installs and jobs apart

A transaction that holds the gate knows that what it found stays so: an install's, which holds it
alone, that nothing it looked for began to run, and a claim's that no install did. Only the commit
of one of them sets a row running.
-/

namespace AnsiDeck

namespace Galaxy

open Lib (Table)

variable {ε : Type} {cfg : Settings} {fmt : EventFormat ε}

/-! ## What sets a row running -/

/-- The two commits that set a row running: a claim's, and the one of `try_start_install`. -/
inductive Commits (cfg : Settings) (s : State) : State → Prop
  | claim (k : Nat) (kind : Kind) (began : Time) (write : Write)
      (hk : s.txs.get? k = some (.claim kind began (.claimed write))) :
      Commits cfg s (endTx (put s write) k)
  | install (k : Nat) (began : Time) (id : InstallId) (install : GalaxyInstall)
      (hk : s.txs.get? k = some (.install began (.noLint id)))
      (hid : s.installs.get? id = some install) :
      Commits cfg s
        (putThread (putInstall (endTx s k) id (startedInstall cfg began install)) id .starting)

/-- The two ways of `commit`: by a claim that has its row, and by an install whose last look
found no check. -/
theorem commits_commit {s s' : State} {k : Nat} (hs : step cfg fmt s (.commit k) = some s') :
    Commits cfg s s' := by
  simp only [step] at hs
  split at hs
  · next kind began write hk =>
    obtain rfl := Option.some.inj hs
    exact .claim k kind began write hk
  · next began id hk =>
    obtain ⟨install, hid, hs⟩ := Option.bind_eq_some_iff.mp hs
    obtain rfl := Option.some.inj hs
    exact .install k began id install hk hid
  · exact absurd hs (by simp)

/-- The checks that are committed as running, as `_CLAIM_LINT` counts them. -/
def runningLints (lints : Table LintId LintJob) : Nat :=
  lints.count fun _ row => row.status = .running

theorem running_lint_iff {s : State} {id : LintId} : isRunning s (.lint id) = true ↔
    ∃ row, s.lints.get? id = some row ∧ row.status = .running := by
  simp [isRunning, Option.any_eq_true]

theorem running_install_iff {s : State} {id : InstallId} : isRunning s (.install id) = true ↔
    ∃ row, s.installs.get? id = some row ∧ row.status = .running := by
  simp [isRunning, Option.any_eq_true]

/-! ## Steps that set no row running -/

/-- What an `other` transaction, a thread's step or the reaper does to the tables: rows stop
running, none begins to. -/
structure Calm (s s' : State) : Prop where
  running : ∀ row, isRunning s' row = true → isRunning s row = true
  /-- Only `try_start_install` takes an install out of the queue. -/
  queued : ∀ id row, s.installs.get? id = some row →
    ∃ row', s'.installs.get? id = some row' ∧ (row'.status = .queued ↔ row.status = .queued)
  lints : ∀ id row', s'.lints.get? id = some row' → row'.status = .running →
    ∃ row, s.lints.get? id = some row ∧ row.status = .running ∧
      row.requestedByUserId = row'.requestedByUserId
  count : runningLints s'.lints ≤ runningLints s.lints

/-- A step that leaves the four tables of work alone. -/
theorem Calm.same {s s' : State} (hruns : s'.runs = s.runs)
    (hrefreshes : s'.refreshes = s.refreshes)
    (hlints : s'.lints = s.lints) (hinstalls : s'.installs = s.installs) : Calm s s' := by
  constructor
  · intro row hrow
    cases row <;> simpa [isRunning, hruns, hrefreshes, hlints, hinstalls] using hrow
  · intro id row hid
    exact ⟨row, by rw [hinstalls, hid], Iff.rfl⟩
  · intro id row hid hrunning
    rw [hlints] at hid
    exact ⟨row, hid, hrunning, rfl⟩
  · rw [hlints]

/-- A row another transaction writes. `calm` only lets it write a running row where one ran
before, and a check's requester is never changed: `_claim_lint` relies on it for the users that
have one running. -/
theorem Calm.put {s : State} {write : Write} (h : calm s write = true) :
    Calm s (Galaxy.put s write) := by
  cases write with
  | run id row =>
    refine ⟨?_, fun _ row hid => ⟨row, hid, Iff.rfl⟩,
      fun _ row hid hrunning => ⟨row, hid, hrunning, rfl⟩, Nat.le_refl _⟩
    intro k hk
    cases k with
    | run k =>
      simp only [isRunning, Galaxy.put, Table.get?_put] at hk
      split at hk
      · next heq =>
        subst heq
        simp only [calm, Bool.or_eq_true, decide_eq_true_eq] at h
        exact h.resolve_left (by simpa using hk)
      · exact hk
    | _ => exact hk
  | refresh id row =>
    refine ⟨?_, fun _ row hid => ⟨row, hid, Iff.rfl⟩,
      fun _ row hid hrunning => ⟨row, hid, hrunning, rfl⟩, Nat.le_refl _⟩
    intro k hk
    cases k with
    | refresh k =>
      simp only [isRunning, Galaxy.put, Table.get?_put] at hk
      split at hk
      · next heq =>
        subst heq
        simp only [calm, Bool.or_eq_true, decide_eq_true_eq] at h
        exact h.resolve_left (by simpa using hk)
      · exact hk
    | _ => exact hk
  | lint id row =>
    have hold : row.status = .running → ∃ old, s.lints.get? id = some old ∧
        old.status = .running ∧ old.requestedByUserId = row.requestedByUserId := by
      intro hrunning
      simpa [calm, hrunning, Option.any_eq_true] using h
    have hlints : ∀ k row', (s.lints.put id row).get? k = some row' → row'.status = .running →
        ∃ old, s.lints.get? k = some old ∧ old.status = .running ∧
          old.requestedByUserId = row'.requestedByUserId := by
      intro k row' hk hrunning
      rw [Table.get?_put] at hk
      split at hk
      · next heq =>
        subst heq
        obtain rfl := Option.some.inj hk
        exact hold hrunning
      · exact ⟨row', hk, hrunning, rfl⟩
    refine ⟨?_, fun _ row hid => ⟨row, hid, Iff.rfl⟩, hlints, ?_⟩
    · intro k hk
      cases k with
      | lint k =>
        obtain ⟨row', hget, hrunning⟩ := running_lint_iff.mp hk
        obtain ⟨old, hget', hrunning', -⟩ := hlints k row' hget hrunning
        exact running_lint_iff.mpr ⟨old, hget', hrunning'⟩
      | _ => exact hk
    · refine Table.count_put_le ?_
      intro hrunning
      obtain ⟨old, hget, hrunning', -⟩ := hold (by simpa using hrunning)
      exact ⟨old, hget, by simp [hrunning']⟩

/-- A row is deleted with what it belongs to, running or not. -/
theorem Calm.delete (s : State) (row : Row) : Calm s (Galaxy.delete s row) := by
  cases row with
  | run id =>
    refine ⟨?_, fun _ row hid => ⟨row, hid, Iff.rfl⟩,
      fun _ row hid hrunning => ⟨row, hid, hrunning, rfl⟩, Nat.le_refl _⟩
    intro k hk
    cases k with
    | run k =>
      simp only [isRunning, Galaxy.delete, Table.get?_remove] at hk
      split at hk
      · exact absurd hk (by simp)
      · exact hk
    | _ => exact hk
  | refresh id =>
    refine ⟨?_, fun _ row hid => ⟨row, hid, Iff.rfl⟩,
      fun _ row hid hrunning => ⟨row, hid, hrunning, rfl⟩, Nat.le_refl _⟩
    intro k hk
    cases k with
    | refresh k =>
      simp only [isRunning, Galaxy.delete, Table.get?_remove] at hk
      split at hk
      · exact absurd hk (by simp)
      · exact hk
    | _ => exact hk
  | lint id =>
    have hlints : ∀ k row, (s.lints.remove id).get? k = some row → s.lints.get? k = some row := by
      intro k row hk
      obtain ⟨-, hk⟩ := Table.get?_remove_eq_some.1 hk
      exact hk
    refine ⟨?_, fun _ row hid => ⟨row, hid, Iff.rfl⟩, ?_, Table.count_remove_le _ _ _⟩
    · intro k hk
      cases k with
      | lint k =>
        obtain ⟨row, hget, hrunning⟩ := running_lint_iff.mp hk
        exact running_lint_iff.mpr ⟨row, hlints k row hget, hrunning⟩
      | _ => exact hk
    · intro k row hk hrunning
      exact ⟨row, hlints k row hk, hrunning, rfl⟩
  | install id => exact .same rfl rfl rfl rfl

/-- An install's row changes. -/
theorem Calm.putInstall {s : State} {id : InstallId} {install : GalaxyInstall}
    (hrunning : install.status = .running → isRunning s (.install id) = true)
    (hqueued : ∀ old, s.installs.get? id = some old →
      (install.status = .queued ↔ old.status = .queued)) : Calm s
        (Galaxy.putInstall s id install) := by
  refine ⟨?_, ?_, fun _ row hid hrunning => ⟨row, hid, hrunning, rfl⟩, Nat.le_refl _⟩
  · intro k hk
    cases k with
    | install k =>
      obtain ⟨row, hget, hrow⟩ := running_install_iff.mp hk
      simp only [Galaxy.putInstall, Table.get?_put] at hget
      split at hget
      · next heq =>
        subst heq
        obtain rfl := Option.some.inj hget
        exact hrunning hrow
      · exact running_install_iff.mpr ⟨row, hget, hrow⟩
    | _ => exact hk
  · intro k row hk
    simp only [Galaxy.putInstall, Table.get?_put]
    split
    · next heq =>
      subst heq
      exact ⟨install, rfl, hqueued row hk⟩
    · exact ⟨row, hk, Iff.rfl⟩

/-! ## What a transaction found, while it holds the gate -/

/-- The rows `try_start_install` has looked at so far: each of its statements looks for one kind. -/
def InstallPhase.checked : InstallPhase → Row → Bool
  | .gate, _ => false
  | _, .install _ => true
  | .noRun _, .run _ | .noRefresh _, .run _ | .noLint _, .run _ => true
  | .noRefresh _, .refresh _ | .noLint _, .refresh _ => true
  | .noLint _, .lint _ => true
  | _, _ => false

/-- The rows it found not to run. -/
def Tx.checked : Tx → Row → Bool
  | .claim _ _ .gate, _ => false
  | .claim _ _ _, .install _ => true
  | .claim _ _ _, _ => false
  | .install _ phase, row => phase.checked row

/-- The install it found queued. -/
def Tx.install? : Tx → Option InstallId
  | .install _ (.queued id) | .install _ (.noRun id) | .install _ (.noRefresh id)
  | .install _ (.noLint id) => some id
  | _ => none

/-- A statement that began while nobody else could claim a check sees all those that run. -/
structure Sees (s : State) (seen : Table LintId LintJob) : Prop where
  running : ∀ id row, s.lints.get? id = some row → row.status = .running →
    ∃ old, seen.get? id = some old ∧ old.status = .running ∧
      old.requestedByUserId = row.requestedByUserId
  count : runningLints s.lints ≤ runningLints seen

/-- One more check may run. -/
structure Free (cfg : Settings) (s : State) (user : Nat) : Prop where
  requester : ∀ id row, s.lints.get? id = some row → row.status = .running →
    row.requestedByUserId ≠ user
  count : runningLints s.lints < cfg.lintMaxRunning

/-- What holds of an open transaction because of the locks it has: the gate keeps every answer it
got true until it commits. -/
structure TxOk (cfg : Settings) (s : State) (tx : Tx) : Prop where
  checked : ∀ row, tx.checked row = true → isRunning s row = false
  queued : ∀ id, tx.install? = some id → ∃ row, s.installs.get? id = some row ∧ row.status = .queued
  sees : ∀ kind began seen, tx = .claim kind began (.statement seen) → Sees s seen
  free : ∀ kind began id row, tx = .claim kind began (.claimed (.lint id row)) →
    Free cfg s row.requestedByUserId

/-- What doesn't run goes on not to. -/
theorem Calm.idle {s s' : State} (h : Calm s s') {row : Row} (hidle : isRunning s row = false) :
    isRunning s' row = false := by
  cases hrow : isRunning s' row with
  | false => rfl
  | true =>
    rw [h.running row hrow] at hidle
    exact absurd hidle (by simp)

theorem Sees.calm {s s' : State} {seen : Table LintId LintJob} (h : Sees s seen) (hc : Calm s s') :
    Sees s' seen := by
  refine ⟨?_, Nat.le_trans hc.count h.count⟩
  intro id row hid hrunning
  obtain ⟨old, hold, hrunning', huser⟩ := hc.lints id row hid hrunning
  obtain ⟨first, hfirst, hrunning'', huser'⟩ := h.running id old hold hrunning'
  exact ⟨first, hfirst, hrunning'', huser'.trans huser⟩

theorem Free.calm {s s' : State} {user : Nat} (h : Free cfg s user) (hc : Calm s s') :
    Free cfg s' user := by
  refine ⟨?_, Nat.lt_of_le_of_lt hc.count h.count⟩
  intro id row hid hrunning
  obtain ⟨old, hold, hrunning', huser⟩ := hc.lints id row hid hrunning
  rw [← huser]
  exact h.requester id old hold hrunning'

/-- While other transactions only do calm things, what a transaction found stays true. -/
theorem TxOk.calm {s s' : State} {tx : Tx} (h : TxOk cfg s tx) (hc : Calm s s') :
    TxOk cfg s' tx := by
  refine ⟨fun row hrow => hc.idle (h.checked row hrow), ?_, ?_, ?_⟩
  · intro id hid
    obtain ⟨row, hrow, hqueued⟩ := h.queued id hid
    obtain ⟨row', hrow', hsame⟩ := hc.queued id row hrow
    exact ⟨row', hrow', hsame.mpr hqueued⟩
  · intro kind began seen heq
    exact (h.sees kind began seen heq).calm hc
  · intro kind began id row heq
    exact (h.free kind began id row heq).calm hc

/-- How a transaction that holds the gate gets on. -/
inductive Advances (cfg : Settings) (s : State) (k : Nat) : Tx → Prop
  | claim (kind : Kind) (began : Time) (hnew : s.txs.get? k = none)
      (hgate : ∀ other tx, s.txs.get? other = some tx → tx.isInstall = false) :
      Advances cfg s k (.claim kind began .gate)
  | clear (kind : Kind) (began : Time) (hk : s.txs.get? k = some (.claim kind began .gate))
      (hnone : installPending s = false) : Advances cfg s k (.claim kind began .clear)
  | lintLock (began : Time) (hk : s.txs.get? k = some (.claim .lint began .clear))
      (hfree : ∀ other tx, s.txs.get? other = some tx → tx.holdsLints = false) :
      Advances cfg s k (.claim .lint began .lintLock)
  | statement (began : Time) (hk : s.txs.get? k = some (.claim .lint began .lintLock)) :
      Advances cfg s k (.claim .lint began (.statement s.lints))
  | claimed (kind : Kind) (began : Time) (write : Write)
      (hk : s.txs.get? k = some (.claim kind began .clear))
      (hother : ∀ id row, write ≠ .lint id row) :
      Advances cfg s k (.claim kind began (.claimed write))
  | claimedLint (began : Time) (seen : Table LintId LintJob) (id : LintId) (lint row : LintJob)
      (hk : s.txs.get? k = some (.claim .lint began (.statement seen)))
      (hclaims : claimsLint cfg seen id lint = true)
      (huser : row.requestedByUserId = lint.requestedByUserId) :
      Advances cfg s k (.claim .lint began (.claimed (.lint id row)))
  | tryStart (began : Time) (hgate : ∀ other, s.txs.get? other = none) :
      Advances cfg s k (.install began .gate)
  | next (began : Time) (phase phase' : InstallPhase)
      (hk : s.txs.get? k = some (.install began phase)) (hnext : phase.next s = some phase') :
      Advances cfg s k (.install began phase')

/-- At most one transaction of those that hold the gate changes in a step. -/
inductive TxMove (cfg : Settings) (s : State) : Table Nat Tx → Prop
  | same : TxMove cfg s s.txs
  | advance (k : Nat) (tx : Tx) (h : Advances cfg s k tx) : TxMove cfg s (s.txs.put k tx)
  | ended (k : Nat) : TxMove cfg s (s.txs.remove k)

/-- A step other than a commit. -/
structure Quiet (cfg : Settings) (s s' : State) : Prop where
  calm : Calm s s'
  txs : TxMove cfg s s'.txs
  threads : ∀ id, (s'.threads.get? id).isSome = true → (s.threads.get? id).isSome = true

/-! ## The invariant -/

/-- What the gate is for, in every committed state. -/
structure Excluded (cfg : Settings) (s : State) : Prop where
  /-- While an install runs, nothing else does. -/
  alone : ∀ id row, isRunning s (.install id) = true → isRunning s row = true → row = .install id
  lints : runningLints s.lints ≤ cfg.lintMaxRunning
  requesters : ∀ a b ra rb, s.lints.get? a = some ra → s.lints.get? b = some rb →
    ra.status = .running → rb.status = .running →
    ra.requestedByUserId = rb.requestedByUserId → a = b

/-- The invariant: what each open transaction found still holds, the two advisory locks are held
as Postgres grants them, and the committed rows are kept apart. -/
structure Inv (cfg : Settings) (s : State) : Prop where
  txs : ∀ k tx, s.txs.get? k = some tx → TxOk cfg s tx
  gate : s.txs.Pairs fun tx _ => tx.isInstall = false
  lints : s.txs.Pairs fun tx tx' => ¬(tx.holdsLints = true ∧ tx'.holdsLints = true)
  /-- An install with a thread was started. -/
  threads : ∀ id, (s.threads.get? id).isSome = true →
    ∃ row, s.installs.get? id = some row ∧ row.status ≠ .queued
  excluded : Excluded cfg s

theorem inv_init : Inv cfg {} := by
  refine ⟨?_, ?_, ?_, ?_, ?_, ?_, ?_⟩
  · intro k tx hk
    exact absurd hk (by simp)
  · exact Table.pairs_empty _
  · exact Table.pairs_empty _
  · intro id hid
    exact absurd hid (by simp)
  · intro id row hid
    exact absurd hid (by simp [isRunning])
  · exact Nat.zero_le _
  · intro a b ra rb ha
    exact absurd ha (by simp)

/-- Rows that only stop running stay apart. -/
theorem Excluded.calm {s s' : State} (h : Excluded cfg s) (hc : Calm s s') : Excluded cfg s' := by
  refine ⟨?_, Nat.le_trans hc.count h.lints, ?_⟩
  · intro id row hid hrow
    exact h.alone id row (hc.running _ hid) (hc.running _ hrow)
  · intro a b ra rb ha hb hra hrb huser
    obtain ⟨oa, hoa, hora, hua⟩ := hc.lints a ra ha hra
    obtain ⟨ob, hob, horb, hub⟩ := hc.lints b rb hb hrb
    exact h.requesters a b oa ob hoa hob hora horb ((hua.trans huser).trans hub.symm)

/-- The gate in its two modes: while `try_start_install` has it, there is no other transaction of
the system. -/
theorem Inv.alone {s : State} (h : Inv cfg s) {k k' : Nat} {tx tx' : Tx}
    (hk : s.txs.get? k = some tx) (hinstall : tx.isInstall = true)
    (hk' : s.txs.get? k' = some tx') :
    k' = k := by
  by_cases heq : k' = k
  · exact heq
  · rw [h.gate k k' tx tx' hk hk' heq] at hinstall
    exact absurd hinstall (by simp)

/-- `LINT_CLAIM_KEY` is held by one transaction at a time. -/
theorem Inv.lintLock {s : State} (h : Inv cfg s) {k k' : Nat} {tx tx' : Tx}
    (hk : s.txs.get? k = some tx) (hk' : s.txs.get? k' = some tx') (hholds : tx.holdsLints = true)
    (hholds' : tx'.holdsLints = true) : k' = k := by
  by_cases heq : k' = k
  · exact heq
  · exact absurd ⟨hholds, hholds'⟩ (h.lints k k' tx tx' hk hk' heq)

/-! ## Statements -/

/-- `try_start_install` takes an install that waits. -/
theorem oldestQueued_queued {s : State} {id : InstallId} (h : oldestQueued s = some id) :
    ∃ row, s.installs.get? id = some row ∧ row.status = .queued := by
  have hmem := List.min?_mem h
  obtain ⟨⟨k, row⟩, hentry, rfl⟩ := List.mem_map.mp hmem
  obtain ⟨hentry, hqueued⟩ := List.mem_filter.mp hentry
  exact ⟨row, Table.get?_eq_some_iff.mpr hentry, by simpa using hqueued⟩

/-- A statement of `try_start_install` that goes on has found no such row to run. -/
theorem InstallPhase.next_checked {s : State} {phase phase' : InstallPhase}
    (h : phase.next s = some phase') {row : Row} (hrow : phase'.checked row = true) :
    phase.checked row = true ∨ isRunning s row = false := by
  have hidle : ∀ {κ ρ : Type} [DecidableEq κ] (t : Table κ ρ) (status : ρ → RunStatus) (k : κ),
      ¬t.any (fun _ r => status r = .running) = true →
      (t.get? k).any (fun r => status r = .running) = false := by
    intro κ ρ _ t status k hany
    rw [Bool.not_eq_true, Table.any_eq_false_iff] at hany
    cases hk : t.get? k with
    | none => rfl
    | some r => simpa using hany k r hk
  cases phase with
  | gate =>
    simp only [next] at h
    split at h
    · exact absurd h (by simp)
    · next hany =>
      obtain rfl := Option.some.inj h
      cases row with
      | install id => exact Or.inr (hidle _ _ id hany)
      | _ => exact absurd hrow (by simp [checked])
  | noneRunning =>
    simp only [next] at h
    obtain ⟨id, -, rfl⟩ := Option.map_eq_some_iff.mp h
    cases row with
    | install k => exact Or.inl rfl
    | _ => exact absurd hrow (by simp [checked])
  | queued id =>
    simp only [next] at h
    split at h
    · exact absurd h (by simp)
    · next hany =>
      obtain rfl := Option.some.inj h
      cases row with
      | run k => exact Or.inr (hidle _ _ k hany)
      | install k => exact Or.inl rfl
      | _ => exact absurd hrow (by simp [checked])
  | noRun id =>
    simp only [next] at h
    split at h
    · exact absurd h (by simp)
    · next hany =>
      obtain rfl := Option.some.inj h
      cases row with
      | refresh k => exact Or.inr (hidle _ _ k hany)
      | lint k => exact absurd hrow (by simp [checked])
      | _ => exact Or.inl rfl
  | noRefresh id =>
    simp only [next] at h
    split at h
    · exact absurd h (by simp)
    · next hany =>
      obtain rfl := Option.some.inj h
      cases row with
      | lint k => exact Or.inr (hidle _ _ k hany)
      | _ => exact Or.inl rfl
  | noLint id =>
    obtain rfl := Option.some.inj h
    exact Or.inl hrow

/-- The install of a transaction is the one its second statement selected. -/
theorem InstallPhase.next_install {s : State} {phase phase' : InstallPhase} {began : Time}
    (h : phase.next s = some phase') {id : InstallId}
    (hid : (Tx.install began phase').install? = some id) :
    (Tx.install began phase).install? = some id ∨ oldestQueued s = some id := by
  cases phase with
  | noneRunning =>
    simp only [next] at h
    obtain ⟨k, hk, rfl⟩ := Option.map_eq_some_iff.mp h
    exact Or.inr (by rw [hk]; exact hid)
  | noLint k =>
    obtain rfl := Option.some.inj h
    exact Or.inl hid
  | gate =>
    simp only [next] at h
    split at h
    · exact absurd h (by simp)
    · obtain rfl := Option.some.inj h
      exact absurd hid (by simp [Tx.install?])
  | _ =>
    simp only [next] at h
    split at h
    · exact absurd h (by simp)
    · obtain rfl := Option.some.inj h
      exact Or.inl hid

/-- What a claim that goes on found: that no install runs, and for a check that it is free. -/
theorem TxOk.ofClaim {s : State} {kind : Kind} {began : Time} {phase : ClaimPhase}
    (hinstalls : ∀ id, isRunning s (.install id) = false)
    (hsees : ∀ seen, phase = .statement seen → Sees s seen)
    (hfree : ∀ id row, phase = .claimed (.lint id row) → Free cfg s row.requestedByUserId) :
    TxOk cfg s (.claim kind began phase) := by
  refine ⟨?_, ?_, ?_, ?_⟩
  · intro row hrow
    cases row with
    | install id => exact hinstalls id
    | _ => cases phase <;> exact absurd hrow (by simp [Tx.checked])
  · intro id hid
    exact absurd hid (by simp [Tx.install?])
  · intro kind' began' seen heq
    exact hsees seen (Tx.claim.inj heq).2.2
  · intro kind' began' id row heq
    exact hfree id row (Tx.claim.inj heq).2.2

/-- The conditions of `_CLAIM_LINT`, asked of the checks its statement saw, hold of those that
run now: it saw each of them. -/
theorem Sees.free {s : State} {seen : Table LintId LintJob} (h : Sees s seen) {id : LintId}
    {lint : LintJob} (hclaims : claimsLint cfg seen id lint = true) :
    Free cfg s lint.requestedByUserId := by
  simp only [claimsLint, Bool.and_eq_true, Bool.not_eq_true', decide_eq_true_eq,
    Table.any_eq_false_iff] at hclaims
  -- the requester's other checks, and how many there are
  obtain ⟨⟨-, hidle⟩, hcount⟩ := hclaims
  refine ⟨?_, Nat.lt_of_le_of_lt h.count hcount⟩
  intro k row hk hrunning heq
  obtain ⟨old, hold, hrunning', huser⟩ := h.running k row hk hrunning
  have hbusy := hidle k old hold
  rw [huser, heq, hrunning'] at hbusy
  exact absurd hbusy (by simp)

/-- A transaction that gets on knows what its phase says: what it found before, and what this
statement has just read. -/
theorem Advances.ok {s : State} (h : Inv cfg s) {k : Nat} {tx : Tx} (ha : Advances cfg s k tx) :
    TxOk cfg s tx := by
  have hchecked : ∀ {kind began phase}, s.txs.get? k = some (.claim kind began phase) →
      phase ≠ .gate → ∀ id, isRunning s (.install id) = false := by
    intro kind began phase hk hphase id
    refine (h.txs k _ hk).checked (.install id) ?_
    cases phase with
    | gate => exact absurd rfl hphase
    | _ => rfl
  cases ha with
  | claim kind began hnew hgate =>
    refine ⟨?_, ?_, ?_, ?_⟩
    · intro row hrow
      exact absurd hrow (by simp [Tx.checked])
    · intro id hid
      exact absurd hid (by simp [Tx.install?])
    · intro kind' began' seen heq
      exact absurd heq (by simp)
    · intro kind' began' id row heq
      exact absurd heq (by simp)
  | clear kind began hk hnone =>
    refine .ofClaim ?_ ?_ ?_
    · intro id
      rw [installPending, Table.any_eq_false_iff] at hnone
      simp only [isRunning]
      cases hid : s.installs.get? id with
      | none => rfl
      | some row =>
        have hidle := hnone id row hid
        cases hstatus : row.status <;> simp_all [RunStatus.active]
    · intro seen heq
      exact absurd heq (by simp)
    · intro id row heq
      exact absurd heq (by simp)
  | lintLock began hk hfree =>
    refine .ofClaim (hchecked hk (by simp)) ?_ ?_
    · intro seen heq
      exact absurd heq (by simp)
    · intro id row heq
      exact absurd heq (by simp)
  | statement began hk =>
    refine .ofClaim (hchecked hk (by simp)) ?_ ?_
    · intro seen heq
      obtain rfl := ClaimPhase.statement.inj heq
      exact ⟨fun id row hid hrunning => ⟨row, hid, hrunning, rfl⟩, Nat.le_refl _⟩
    · intro id row heq
      exact absurd heq (by simp)
  | claimed kind began write hk hother =>
    refine .ofClaim (hchecked hk (by simp)) ?_ ?_
    · intro seen heq
      exact absurd heq (by simp)
    · intro id row heq
      exact absurd (ClaimPhase.claimed.inj heq) (hother id row)
  | claimedLint began seen id lint row hk hclaims huser =>
    refine .ofClaim (hchecked hk (by simp)) ?_ ?_
    · intro other heq
      exact absurd heq (by simp)
    · intro id' row' heq
      obtain ⟨-, rfl⟩ := Write.lint.inj (ClaimPhase.claimed.inj heq)
      rw [huser]
      exact ((h.txs k _ hk).sees _ _ seen rfl).free hclaims
  | tryStart began hgate =>
    refine ⟨?_, ?_, ?_, ?_⟩
    · intro row hrow
      exact absurd hrow (by simp [Tx.checked, InstallPhase.checked])
    · intro id hid
      exact absurd hid (by simp [Tx.install?])
    · intro kind' began' seen heq
      exact absurd heq (by simp)
    · intro kind' began' id row heq
      exact absurd heq (by simp)
  | next began phase phase' hk hnext =>
    have hok := h.txs k _ hk
    refine ⟨?_, ?_, ?_, ?_⟩
    · intro row hrow
      rcases InstallPhase.next_checked hnext hrow with hold | hidle
      · exact hok.checked row hold
      · exact hidle
    · intro id hid
      rcases InstallPhase.next_install hnext hid with hold | holdest
      · exact hok.queued id hold
      · exact oldestQueued_queued holdest
    · intro kind' began' seen heq
      exact absurd heq (by simp)
    · intro kind' began' id row heq
      exact absurd heq (by simp)

/-- The locks a transaction that gets on holds go with those of the others: an install's needs
that there is no other, a claim's that there is no install's. -/
theorem Advances.gate {s : State} (h : Inv cfg s) {k : Nat} {tx : Tx} (ha : Advances cfg s k tx) :
    (tx.isInstall = true → ∀ other, other ≠ k → s.txs.get? other = none) ∧
      ∀ other tx', s.txs.get? other = some tx' → tx'.isInstall = true → other = k := by
  have hclaim : ∀ {kind began phase}, s.txs.get? k = some (.claim kind began phase) →
      ∀ other tx', s.txs.get? other = some tx' → tx'.isInstall = true → other = k := by
    intro kind began phase hk other tx' hother hinstall
    exact (h.alone hother hinstall hk).symm
  cases ha with
  | claim kind began hnew hgate =>
    refine ⟨fun hi => absurd hi (by simp [Tx.isInstall]), ?_⟩
    intro other tx' hother hinstall
    rw [hgate other tx' hother] at hinstall
    exact absurd hinstall (by simp)
  | tryStart began hgate =>
    refine ⟨fun _ other _ => hgate other, ?_⟩
    intro other tx' hother
    rw [hgate other] at hother
    exact absurd hother (by simp)
  | next began phase phase' hk hnext =>
    refine ⟨?_, ?_⟩
    · intro _ other hne
      cases hother : s.txs.get? other with
      | none => rfl
      | some tx' => exact absurd (h.alone hk rfl hother) hne
    · intro other tx' hother _
      exact h.alone hk rfl hother
  | clear kind began hk hnone => exact ⟨fun hi => absurd hi (by simp [Tx.isInstall]), hclaim hk⟩
  | lintLock began hk hfree => exact ⟨fun hi => absurd hi (by simp [Tx.isInstall]), hclaim hk⟩
  | statement began hk => exact ⟨fun hi => absurd hi (by simp [Tx.isInstall]), hclaim hk⟩
  | claimed kind began write hk hother =>
    exact ⟨fun hi => absurd hi (by simp [Tx.isInstall]), hclaim hk⟩
  | claimedLint began seen id lint row hk hclaims huser =>
    exact ⟨fun hi => absurd hi (by simp [Tx.isInstall]), hclaim hk⟩

/-- Nobody else holds `LINT_CLAIM_KEY` beside a claim of a check that gets on. -/
theorem Advances.lints {s : State} (h : Inv cfg s) {k : Nat} {tx : Tx} (ha : Advances cfg s k tx)
    (hholds : tx.holdsLints = true) {other : Nat} {tx' : Tx} (hother : s.txs.get? other = some tx')
    (hholds' : tx'.holdsLints = true) : other = k := by
  cases ha with
  | lintLock began hk hfree =>
    rw [hfree other tx' hother] at hholds'
    exact absurd hholds' (by simp)
  | statement began hk => exact h.lintLock hk hother rfl hholds'
  | claimedLint began seen id lint row hk hclaims huser =>
    exact h.lintLock hk hother rfl hholds'
  | claimed kind began write hk hne =>
    cases write with
    | lint id row => exact absurd rfl (hne id row)
    | _ => exact absurd hholds (by simp [Tx.holdsLints])
  | _ => exact absurd hholds (by simp [Tx.holdsLints])

/-! ## Steps -/

/-- A transaction after the step is an old one, or the one that got on. -/
theorem TxMove.cases {s : State} {txs : Table Nat Tx} (hmove : TxMove cfg s txs) {k : Nat} {tx : Tx}
    (hk : txs.get? k = some tx) : s.txs.get? k = some tx ∨ Advances cfg s k tx := by
  cases hmove with
  | same => exact Or.inl hk
  | advance k' tx' ha =>
    rcases Table.get?_put_cases hk with ⟨rfl, rfl⟩ | ⟨-, hold⟩
    · exact Or.inr ha
    · exact Or.inl hold
  | ended k' => exact Or.inl (Table.get?_remove_eq_some.mp hk).2

/-- What holds of any two transactions still does when it holds of the one that got on and any
other. -/
theorem TxMove.pairs {s : State} {txs : Table Nat Tx} (hmove : TxMove cfg s txs)
    {R : Tx → Tx → Prop} (hold : s.txs.Pairs R)
    (hnew : ∀ k tx, Advances cfg s k tx → ∀ k' tx', s.txs.get? k' = some tx' → k' ≠ k →
      R tx tx' ∧ R tx' tx) : txs.Pairs R := by
  cases hmove with
  | same => exact hold
  | advance k tx ha => exact hold.put (hnew k tx ha)
  | ended k => exact hold.remove k

/-- A step that commits no claim and starts no install keeps the invariant. -/
theorem Inv.quiet {s s' : State} (h : Inv cfg s) (hq : Quiet cfg s s') : Inv cfg s' := by
  obtain ⟨hcalm, hmove, hthreads⟩ := hq
  refine ⟨?_, ?_, ?_, ?_, h.excluded.calm hcalm⟩
  · intro k tx hk
    rcases hmove.cases hk with hold | ha
    · exact (h.txs k tx hold).calm hcalm
    · exact (ha.ok h).calm hcalm
  · refine hmove.pairs h.gate ?_
    intro k tx ha k' tx' hk' hne
    obtain ⟨halone, hother⟩ := ha.gate h
    refine ⟨?_, ?_⟩
    · cases hinstall : tx.isInstall with
      | false => rfl
      | true =>
        rw [halone hinstall k' hne] at hk'
        exact absurd hk' (by simp)
    · cases hinstall : tx'.isInstall with
      | false => rfl
      | true => exact absurd (hother k' tx' hk' hinstall) hne
  · refine hmove.pairs h.lints ?_
    intro k tx ha k' tx' hk' hne
    refine ⟨?_, ?_⟩
    · rintro ⟨hholds, hholds'⟩
      exact hne (ha.lints h hholds hk' hholds')
    · rintro ⟨hholds', hholds⟩
      exact hne (ha.lints h hholds hk' hholds')
  · intro id hid
    obtain ⟨row, hrow, hstarted⟩ := h.threads id (hthreads id hid)
    obtain ⟨row', hrow', hsame⟩ := hcalm.queued id row hrow
    exact ⟨row', hrow', fun hqueued => hstarted (hsame.mp hqueued)⟩

/-- A claim commits: the claims beside it are of something else. -/
theorem TxOk.committed {s : State} {write : Write} {tx : Tx} (h : TxOk cfg s tx)
    (hclaim : tx.isInstall = false)
    (hlints : ∀ id row, write = .lint id row → tx.holdsLints = false) :
    TxOk cfg (put s write) tx := by
  have hinstalls : (put s write).installs = s.installs := by cases write <;> rfl
  refine ⟨?_, ?_, ?_, ?_⟩
  · intro row hrow
    cases tx with
    | install began phase => exact absurd hclaim (by simp [Tx.isInstall])
    | claim kind began phase =>
      cases row with
      | install id =>
        have hidle := h.checked (.install id) hrow
        simp only [isRunning] at hidle ⊢
        rw [hinstalls]
        exact hidle
      | _ => cases phase <;> exact absurd hrow (by simp [Tx.checked])
  · intro id hid
    rw [hinstalls]
    exact h.queued id hid
  · intro kind began seen heq
    have hold := h.sees kind began seen heq
    cases write with
    | lint id row =>
      have hholds := hlints id row rfl
      rw [heq] at hholds
      exact absurd hholds (by simp [Tx.holdsLints])
    | _ => exact ⟨hold.running, hold.count⟩
  · intro kind began id row heq
    have hold := h.free kind began id row heq
    cases write with
    | lint id' row' =>
      have hholds := hlints id' row' rfl
      rw [heq] at hholds
      exact absurd hholds (by simp [Tx.holdsLints])
    | _ => exact ⟨hold.requester, hold.count⟩

/-- The claimed row may run: no install does, and a check's requester had none, with one place
left. -/
theorem Excluded.committed {s : State} {write : Write} (h : Excluded cfg s)
    (hinstalls : ∀ id, isRunning s (.install id) = false)
    (hfree : ∀ id row, write = .lint id row → Free cfg s row.requestedByUserId) :
    Excluded cfg (put s write) := by
  have hidle : ∀ id, isRunning (put s write) (.install id) = false := by
    intro id
    have hold := hinstalls id
    cases write <;> exact hold
  refine ⟨?_, ?_, ?_⟩
  · intro id row hid
    rw [hidle id] at hid
    exact absurd hid (by simp)
  · cases write with
    | lint id row =>
      have hcount : runningLints (s.lints.put id row) ≤ runningLints s.lints + 1 :=
        Table.count_put_le_succ _ _ _ _
      exact Nat.le_trans hcount (hfree id row rfl).count
    | _ => exact h.lints
  · cases write with
    | lint id row =>
      have hnew := (hfree id row rfl).requester
      intro a b ra rb ha hb hra hrb huser
      simp only [put, Table.get?_put] at ha hb
      split at ha <;> split at hb
      · next hai hbi => rw [hai, hbi]
      · obtain rfl := Option.some.inj ha
        exact absurd huser.symm (hnew b rb hb hrb)
      · obtain rfl := Option.some.inj hb
        exact absurd huser (hnew a ra ha hra)
      · exact h.requesters a b ra rb ha hb hra hrb huser
    | _ => exact h.requesters

/-- A claim commits, and gives up the gate. -/
theorem Inv.commitClaim {s : State} (h : Inv cfg s) {k : Nat} {kind : Kind} {began : Time}
    {write : Write} (hk : s.txs.get? k = some (.claim kind began (.claimed write))) :
    Inv cfg (endTx (put s write) k) := by
  have hok := h.txs k _ hk
  have htxs : ∀ other tx, (endTx (put s write) k).txs.get? other = some tx →
      other ≠ k ∧ s.txs.get? other = some tx := by
    intro other tx hother
    have hput : (put s write).txs = s.txs := by cases write <;> rfl
    simp only [endTx, Table.get?_remove, hput] at hother
    split at hother
    · exact absurd hother (by simp)
    · next hne => exact ⟨hne, hother⟩
  have hinstalls : (endTx (put s write) k).installs = s.installs := by cases write <;> rfl
  have hthreads : (endTx (put s write) k).threads = s.threads := by cases write <;> rfl
  refine ⟨?_, ?_, ?_, ?_, ?_⟩
  · intro other tx hother
    obtain ⟨hne, hold⟩ := htxs other tx hother
    -- beside it are only claims, and none of a check when this one is of a check
    have hcommitted : TxOk cfg (put s write) tx := by
      refine (h.txs other tx hold).committed ?_ ?_
      · cases hinstall : tx.isInstall with
        | false => rfl
        | true => exact absurd (h.alone hold hinstall hk) (Ne.symm hne)
      · rintro id row rfl
        cases hholds : tx.holdsLints with
        | false => rfl
        | true => exact absurd (h.lintLock hk hold rfl hholds) hne
    exact hcommitted.calm (.same rfl rfl rfl rfl)
  · intro a b tx tx' ha hb
    exact h.gate a b tx tx' (htxs a tx ha).2 (htxs b tx' hb).2
  · intro a b tx tx' ha hb
    exact h.lints a b tx tx' (htxs a tx ha).2 (htxs b tx' hb).2
  · rw [hinstalls, hthreads]
    exact h.threads
  · have hcommitted : Excluded cfg (put s write) := by
      refine h.excluded.committed (fun id => hok.checked (.install id) rfl) ?_
      rintro id row rfl
      exact hok.free kind began id row rfl
    exact hcommitted.calm (.same rfl rfl rfl rfl)

/-- An install starts: it held the gate alone, and found everything idle. -/
theorem Inv.commitInstall {s : State} (h : Inv cfg s) {k : Nat} {began : Time} {id : InstallId}
    {install : GalaxyInstall} (hk : s.txs.get? k = some (.install began (.noLint id))) :
    Inv cfg (putThread (putInstall (endTx s k) id (startedInstall cfg began install)) id
      .starting) := by
  have hidle : ∀ row, isRunning s row = false := by
    intro row
    refine (h.txs k _ hk).checked row ?_
    cases row <;> rfl
  -- the gate was held alone: no transaction is left that could have found anything
  have htxs : ∀ other, (s.txs.remove k).get? other = none := by
    intro other
    rw [Table.get?_remove]
    split
    · rfl
    · next hne =>
      cases hother : s.txs.get? other with
      | none => rfl
      | some tx => exact absurd (h.alone hk rfl hother) hne
  refine ⟨?_, ?_, ?_, ?_, ?_, h.excluded.lints, h.excluded.requesters⟩
  · intro other tx hother
    have hnone := htxs other
    rw [show (s.txs.remove k).get? other = some tx from hother] at hnone
    exact absurd hnone (by simp)
  · intro a b tx tx' ha
    have hnone := htxs a
    rw [show (s.txs.remove k).get? a = some tx from ha] at hnone
    exact absurd hnone (by simp)
  · intro a b tx tx' ha
    have hnone := htxs a
    rw [show (s.txs.remove k).get? a = some tx from ha] at hnone
    exact absurd hnone (by simp)
  · intro other hother
    simp only [putThread, putInstall, endTx, Table.get?_put] at hother ⊢
    split at hother
    · next heq =>
      subst heq
      exact ⟨_, by rw [if_pos rfl], by simp [startedInstall]⟩
    · next hne =>
      rw [if_neg hne]
      exact h.threads other hother
  · intro a row ha hrow
    -- everything was found idle, so only the install's own row runs now
    have honly : ∀ row, isRunning (putThread (putInstall (endTx s k) id
        (startedInstall cfg began install)) id .starting) row = true → row = .install id := by
      intro row hrow
      cases row with
      | install other =>
        obtain ⟨r, hr, hrunning⟩ := running_install_iff.mp hrow
        simp only [putThread, putInstall, endTx, Table.get?_put] at hr
        split at hr
        · next heq => rw [heq]
        · exact absurd (running_install_iff.mpr ⟨r, hr, hrunning⟩) (by simp [hidle])
      | run other =>
        have hold : isRunning s (.run other) = true := hrow
        exact absurd hold (by simp [hidle])
      | refresh other =>
        have hold : isRunning s (.refresh other) = true := hrow
        exact absurd hold (by simp [hidle])
      | lint other =>
        have hold : isRunning s (.lint other) = true := hrow
        exact absurd hold (by simp [hidle])
    rw [honly _ hrow, honly _ ha]

/-- A transaction gets on, or ends without a commit. -/
theorem Quiet.ofTxs {s : State} {txs : Table Nat Tx} (hmove : TxMove cfg s txs) :
    Quiet cfg s { s with txs := txs } :=
  ⟨.same rfl rfl rfl rfl, hmove, fun _ hid => hid⟩

/-- A thread gets on, or ends, and its install's row may change. -/
theorem Quiet.ofThreads {s s' : State} (hcalm : Calm s s') (htxs : s'.txs = s.txs)
    (hthreads : ∀ id, (s'.threads.get? id).isSome = true → (s.threads.get? id).isSome = true) :
    Quiet cfg s s' :=
  ⟨hcalm, by rw [htxs]; exact .same, hthreads⟩

/-- A thread that gets on is not a new one. -/
theorem isSome_put {s : State} {id : InstallId} {old thread : Thread}
    (hid : s.threads.get? id = some old) (k : InstallId)
    (hk : ((s.threads.put id thread).get? k).isSome = true) : (s.threads.get? k).isSome = true := by
  rw [Table.get?_put] at hk
  split at hk
  · next heq =>
    rw [heq, hid]
    rfl
  · exact hk

/-- Nor is there one more when a thread ends. -/
theorem isSome_remove {s : State} {id : InstallId} (k : InstallId)
    (hk : ((s.threads.remove id).get? k).isSome = true) : (s.threads.get? k).isSome = true := by
  rw [Table.get?_remove] at hk
  split at hk
  · exact absurd hk (by simp)
  · exact hk

/-- `run_install` always leaves its row in a state it stays in. -/
theorem outcome_ne (returnCode : Option Int) :
    outcome returnCode ≠ .queued ∧ outcome returnCode ≠ .running := by
  unfold outcome
  split <;> exact ⟨by simp, by simp⟩

section Steps

variable {s s' : State}

theorem quiet_tick {seconds : Nat} (hs : step cfg fmt s (.tick seconds) = some s') :
    Quiet cfg s s' := by
  obtain rfl := Option.some.inj hs
  exact .ofThreads (.same rfl rfl rfl rfl) rfl fun _ hid => hid

/-- The API's and the reaper's other writes, which begin nothing. -/
theorem quiet_write {write : Write} (hs : step cfg fmt s (.write write) = some s') :
    Quiet cfg s s' := by
  simp only [step] at hs
  split at hs
  · next hcan =>
    obtain rfl := Option.some.inj hs
    rw [Bool.and_eq_true] at hcan
    have htxs : (put s write).txs = s.txs := by cases write <;> rfl
    have hthreads : (put s write).threads = s.threads := by cases write <;> rfl
    exact .ofThreads (.put hcan.2) htxs (by rw [hthreads]; exact fun _ hid => hid)
  · exact absurd hs (by simp)

theorem quiet_delete {row : Row} (hs : step cfg fmt s (.delete row) = some s') :
    Quiet cfg s s' := by
  simp only [step] at hs
  split at hs
  · obtain rfl := Option.some.inj hs
    have htxs : (delete s row).txs = s.txs := by cases row <;> rfl
    have hthreads : (delete s row).threads = s.threads := by cases row <;> rfl
    exact .ofThreads (.delete s row) htxs (by rw [hthreads]; exact fun _ hid => hid)
  · exact absurd hs (by simp)

theorem quiet_claim {k : Nat} {kind : Kind} {started : Time}
    (hs : step cfg fmt s (.claim k kind started) = some s') : Quiet cfg s s' := by
  simp only [step] at hs
  split at hs
  · next hcan =>
    obtain rfl := Option.some.inj hs
    simp only [Bool.and_eq_true, Option.isNone_iff_eq_none, Table.all_iff,
      Bool.not_eq_true'] at hcan
    exact .ofTxs (.advance k _ (.claim kind started hcan.1.1 hcan.1.2))
  · exact absurd hs (by simp)

/-- `install_pending`: a claim that finds an install rolls back, and another goes on to its
UPDATE. -/
theorem quiet_checkInstalls {k : Nat} (hs : step cfg fmt s (.checkInstalls k) = some s') :
    Quiet cfg s s' := by
  simp only [step] at hs
  split at hs
  · next kind began hk =>
    obtain rfl := Option.some.inj hs
    split
    · exact .ofTxs (.ended k)
    · next hnone =>
      rw [Bool.not_eq_true] at hnone
      exact .ofTxs (.advance k _ (.clear kind began hk hnone))
  · exact absurd hs (by simp)

/-- `_claim_lint` waits here until whoever else claims a check has committed. -/
theorem quiet_lockLints {k : Nat} (hs : step cfg fmt s (.lockLints k) = some s') :
    Quiet cfg s s' := by
  simp only [step] at hs
  split at hs
  · next began hk =>
    split at hs
    · next hfree =>
      obtain rfl := Option.some.inj hs
      simp only [Table.all_iff, Bool.not_eq_true'] at hfree
      exact .ofTxs (.advance k _ (.lintLock began hk hfree))
    · exact absurd hs (by simp)
  · exact absurd hs (by simp)

theorem quiet_lintStatement {k : Nat} (hs : step cfg fmt s (.lintStatement k) = some s') :
    Quiet cfg s s' := by
  simp only [step] at hs
  split at hs
  · next began hk =>
    obtain rfl := Option.some.inj hs
    exact .ofTxs (.advance k _ (.statement began hk))
  · exact absurd hs (by simp)

/-- The UPDATE of `_CLAIM`: its row is locked, and running only for its own transaction so far. -/
theorem quiet_claimRun {k : Nat} {id : RunId} {inventory : Option Inventory} {by_ : Claimant}
    (hs : step cfg fmt s (.claimRun k id inventory by_) = some s') : Quiet cfg s s' := by
  simp only [step] at hs
  split at hs
  · next began run hk hid =>
    split at hs
    · obtain rfl := Option.some.inj hs
      exact .ofTxs (.advance k _ (.claimed _ began _ hk (by simp)))
    · exact absurd hs (by simp)
  · exact absurd hs (by simp)

theorem quiet_claimRefresh {k : Nat} {id : RefreshId} {by_ : Claimant}
    (hs : step cfg fmt s (.claimRefresh k id by_) = some s') : Quiet cfg s s' := by
  simp only [step] at hs
  split at hs
  · next began refresh hk hid =>
    split at hs
    · obtain rfl := Option.some.inj hs
      exact .ofTxs (.advance k _ (.claimed _ began _ hk (by simp)))
    · exact absurd hs (by simp)
  · exact absurd hs (by simp)

/-- The UPDATE of `_CLAIM_LINT`, which also counts what runs. -/
theorem quiet_claimLint {k : Nat} {id : LintId} {by_ : Claimant}
    (hs : step cfg fmt s (.claimLint k id by_) = some s') : Quiet cfg s s' := by
  simp only [step] at hs
  split at hs
  · next began seen lint hk hid =>
    split at hs
    · next hcan =>
      obtain rfl := Option.some.inj hs
      rw [Bool.and_eq_true] at hcan
      exact .ofTxs (.advance k _ (.claimedLint began seen id lint _ hk hcan.1 rfl))
    · exact absurd hs (by simp)
  · exact absurd hs (by simp)

theorem quiet_rollback {k : Nat} (hs : step cfg fmt s (.rollback k) = some s') :
    Quiet cfg s s' := by
  obtain ⟨tx, -, hs⟩ := Option.bind_eq_some_iff.mp hs
  obtain rfl := Option.some.inj hs
  exact .ofTxs (.ended k)

/-- A new install waits. -/
theorem quiet_createInstall {id : InstallId} (hs : step cfg fmt s (.createInstall id) = some s') :
    Quiet cfg s s' := by
  simp only [step] at hs
  split at hs
  · next hnone =>
    obtain rfl := Option.some.inj hs
    rw [Option.isNone_iff_eq_none] at hnone
    refine .ofThreads (.putInstall ?_ ?_) rfl fun _ hid => hid
    · intro hrunning
      exact absurd hrunning (by simp)
    · intro old hid
      rw [hnone] at hid
      exact absurd hid (by simp)
  · exact absurd hs (by simp)

theorem quiet_tryStart {k : Nat} {started : Time}
    (hs : step cfg fmt s (.tryStart k started) = some s') : Quiet cfg s s' := by
  simp only [step] at hs
  split at hs
  · next hcan =>
    obtain rfl := Option.some.inj hs
    rw [Bool.and_eq_true, Table.all_iff] at hcan
    refine .ofTxs (.advance k _ (.tryStart started ?_))
    intro other
    cases hother : s.txs.get? other with
    | none => rfl
    | some tx => exact absurd (hcan.1 other tx hother) (by simp)
  · exact absurd hs (by simp)

/-- A statement of `try_start_install` finds a row that runs and the transaction ends, or it goes
on. -/
theorem quiet_nextStatement {k : Nat} (hs : step cfg fmt s (.nextStatement k) = some s') :
    Quiet cfg s s' := by
  simp only [step] at hs
  split at hs
  · next began phase hk =>
    split at hs
    · next phase' hnext =>
      obtain rfl := Option.some.inj hs
      exact .ofTxs (.advance k _ (.next began phase phase' hk hnext))
    · obtain rfl := Option.some.inj hs
      exact .ofTxs (.ended k)
  · exact absurd hs (by simp)

theorem quiet_boot {id : InstallId} (hs : step cfg fmt s (.boot id) = some s') :
    Quiet cfg s s' := by
  simp only [step] at hs
  split at hs
  · next hid =>
    obtain rfl := Option.some.inj hs
    exact .ofThreads (.same rfl rfl rfl rfl) rfl (isSome_put hid)
  · exact absurd hs (by simp)

/-- The commands end under their thread, or after the process they belonged to. -/
theorem quiet_commandsEnd {id : InstallId} {returnCode : Option Int}
    (hs : step cfg fmt s (.commandsEnd id returnCode) = some s') : Quiet cfg s s' := by
  simp only [step] at hs
  split at hs
  · next began hid =>
    obtain rfl := Option.some.inj hs
    exact .ofThreads (.same rfl rfl rfl rfl) rfl (isSome_put hid)
  · obtain rfl := Option.some.inj hs
    exact .ofThreads (.same rfl rfl rfl rfl) rfl isSome_remove
  · exact absurd hs (by simp)

/-- `run_install` records an outcome; its install was started before, so it doesn't leave the
queue. -/
theorem quiet_record {id : InstallId} (h : Inv cfg s) (hs : step cfg fmt s (.record id) = some s') :
    Quiet cfg s s' := by
  simp only [step] at hs
  split at hs
  · next began returnCode install hthread hid =>
    obtain rfl := Option.some.inj hs
    obtain ⟨row, hrow, hstarted⟩ := h.threads id (by rw [hthread]; rfl)
    have hcalm : Calm s (putInstall s id (recorded began returnCode install)) := by
      refine .putInstall ?_ ?_
      · intro hrunning
        exact absurd hrunning (outcome_ne returnCode).2
      · intro old hold
        rw [hrow] at hold
        obtain rfl := Option.some.inj hold
        exact iff_of_false (outcome_ne returnCode).1 hstarted
    exact ⟨⟨hcalm.running, hcalm.queued, hcalm.lints, hcalm.count⟩, .same, isSome_remove⟩
  · exact absurd hs (by simp)

/-- The lease is renewed, or not when the install has been given up: the status is left as it is. -/
theorem quiet_renew {id : InstallId} {started : Time}
    (hs : step cfg fmt s (.renew id started) = some s') : Quiet cfg s s' := by
  obtain ⟨install, hid, hs⟩ := Option.bind_eq_some_iff.mp hs
  split at hs
  · obtain rfl := Option.some.inj hs
    have hstatus : (renewed cfg started install).status = install.status := by
      unfold renewed
      split <;> rfl
    refine .ofThreads (.putInstall ?_ ?_) rfl fun _ hid => hid
    · intro hrunning
      exact running_install_iff.mpr ⟨install, hid, by rw [← hstatus]; exact hrunning⟩
    · intro old hold
      rw [hid] at hold
      obtain rfl := Option.some.inj hold
      rw [hstatus]
  · exact absurd hs (by simp)

/-- The API's process goes away: with commands that run on, or with nothing left. -/
theorem quiet_crash {id : InstallId} (hs : step cfg fmt s (.crash id) = some s') :
    Quiet cfg s s' := by
  simp only [step] at hs
  split at hs
  · next began hid =>
    obtain rfl := Option.some.inj hs
    exact .ofThreads (.same rfl rfl rfl rfl) rfl (isSome_put hid)
  · exact absurd hs (by simp)
  · exact absurd hs (by simp)
  · obtain rfl := Option.some.inj hs
    exact .ofThreads (.same rfl rfl rfl rfl) rfl isSome_remove

/-- The reaper ends a running install whose lease is over. -/
theorem quiet_reap {id : InstallId} {started : Time}
    (hs : step cfg fmt s (.reap id started) = some s') : Quiet cfg s s' := by
  obtain ⟨install, hid, hs⟩ := Option.bind_eq_some_iff.mp hs
  split at hs
  · next hlost =>
    simp only [Bool.and_eq_true, decide_eq_true_eq] at hlost
    obtain rfl := Option.some.inj hs
    refine .ofThreads (.putInstall ?_ ?_) rfl fun _ hid => hid
    · intro hrunning
      exact absurd hrunning (by simp [interrupted])
    · intro old hold
      rw [hid] at hold
      obtain rfl := Option.some.inj hold
      exact iff_of_false (by simp [interrupted]) (by rw [hlost.1.1]; simp)
  · exact absurd hs (by simp)

end Steps

/-- Only a commit of a transaction that holds the gate starts anything. -/
theorem quiet_or_commits {s s' : State} {a : Label} (h : Inv cfg s)
    (hs : step cfg fmt s a = some s') : Quiet cfg s s' ∨ Commits cfg s s' := by
  cases a with
  | tick seconds => exact .inl (quiet_tick hs)
  | write write => exact .inl (quiet_write hs)
  | delete row => exact .inl (quiet_delete hs)
  | claim k kind started => exact .inl (quiet_claim hs)
  | checkInstalls k => exact .inl (quiet_checkInstalls hs)
  | lockLints k => exact .inl (quiet_lockLints hs)
  | lintStatement k => exact .inl (quiet_lintStatement hs)
  | claimRun k id inventory by_ => exact .inl (quiet_claimRun hs)
  | claimRefresh k id by_ => exact .inl (quiet_claimRefresh hs)
  | claimLint k id by_ => exact .inl (quiet_claimLint hs)
  | commit k => exact .inr (commits_commit hs)
  | rollback k => exact .inl (quiet_rollback hs)
  | createInstall id => exact .inl (quiet_createInstall hs)
  | tryStart k started => exact .inl (quiet_tryStart hs)
  | nextStatement k => exact .inl (quiet_nextStatement hs)
  | boot id => exact .inl (quiet_boot hs)
  | commandsEnd id returnCode => exact .inl (quiet_commandsEnd hs)
  | record id => exact .inl (quiet_record h hs)
  | renew id started => exact .inl (quiet_renew hs)
  | crash id => exact .inl (quiet_crash hs)
  | reap id started => exact .inl (quiet_reap hs)

/-- Every step keeps it: the quiet ones because what runs only gets less, the two commits because
of what their transaction found. -/
theorem inv_step {s s' : State} {a : Label} (h : Inv cfg s) (hs : step cfg fmt s a = some s') :
    Inv cfg s' := by
  rcases quiet_or_commits h hs with hquiet | hcommits
  · exact h.quiet hquiet
  · cases hcommits with
    | claim k kind began write hk => exact h.commitClaim hk
    | install k began id install hk hid => exact h.commitInstall hk

theorem inv_inductive : Lib.System.Inductive (system cfg fmt) Lib.anyStep (Inv cfg) where
  init := by
    rintro s rfl
    exact inv_init
  step _ _ _ h _ hs := inv_step h hs

/-- **An install and a job never run at the same time**, nor two installs, nor more checks than
allowed, nor two of one person. -/
theorem excluded {s : State} (hr : (system cfg fmt).Reachable s) : Excluded cfg s :=
  (inv_inductive.of_reachable hr).excluded

/-- A check is claimed while an install waits to start; then the install runs. -/
def installAfterCheck : List Label :=
  [.write (.lint 1 { requestedByUserId := 7, queuedAt := 0 }), .claim 1 .lint 0, .checkInstalls 1,
    .lockLints 1, .lintStatement 1, .createInstall 1, .claimLint 1 1 ⟨"w", "c", "j"⟩, .commit 1,
    .tryStart 2 0, .nextStatement 2, .nextStatement 2, .nextStatement 2, .nextStatement 2,
    .nextStatement 2,
    .write (.lint 1 { requestedByUserId := 7, queuedAt := 0, status := .success }),
    .tryStart 2 0, .nextStatement 2, .nextStatement 2, .nextStatement 2, .nextStatement 2,
    .nextStatement 2, .commit 2, .boot 1]

theorem excluded_installAfterCheck :
    Excluded {} (((system {} byteFormat).run Lib.anyStep {} installAfterCheck).get rfl) :=
  excluded (.of_isSome rfl installAfterCheck rfl)

end Galaxy

end AnsiDeck
