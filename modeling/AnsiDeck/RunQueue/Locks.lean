import AnsiDeck.RunQueue.Moves

/-!
# Row locks, and what every step comes to

`Base` is what the row locks give: a transaction that holds a row still sees it as it is
committed, no two hold the same row, and each works on a row its statement could have found. With
it, every step of the queue is one of a few `Change`s of the committed state, and a commit is a
`Move` of the row it holds; what the queue guarantees is proved change by change.
-/

namespace AnsiDeck

namespace RunQueue

open InternalApi (owns Build JobStep)
open Lib (Table)

variable {ε : Type} {cfg : Settings} {fmt : EventFormat ε}

/-- The version a claim writes, against the row it picked. -/
structure Claims (seen after : Run) : Prop where
  queued : seen.status = .queued
  running : after.status = .running
  keeps : Keeps seen after

/-- The transaction works on a row its statement could have found. -/
def TxOk (tx : Tx ε) : Prop :=
  match tx.work with
  | .picked after | .marked after => Claims tx.seen after
  | .call (.reap rule) => Reaper.applies rule tx.started tx.seen = true
  | _ => True

structure Base (s : State ε) : Prop where
  /-- A locked row is committed as it was read. -/
  seen : ∀ i tx, s.txs.get? i = some tx → tx.work.locks = true → s.runs.get? tx.run = some tx.seen
  /-- A row has one lock holder at most. -/
  alone : ∀ i j tx tx', s.txs.get? i = some tx → s.txs.get? j = some tx' →
    tx.work.locks = true → tx'.work.locks = true → tx.run = tx'.run → i = j
  sound : ∀ i tx, s.txs.get? i = some tx → TxOk tx

theorem locked_eq_false {s : State ε} {run : RunId} (h : locked s run = false) {i : Nat} {tx : Tx ε}
    (hi : s.txs.get? i = some tx) (hl : tx.work.locks = true) : tx.run ≠ run := by
  intro hrun
  have := Table.any_eq_false_iff.mp h i tx hi
  simp [hl, hrun] at this

theorem Base.init : Base ({} : State ε) where
  seen i tx h := absurd h (by simp)
  alone i j tx tx' h := absurd h (by simp)
  sound i tx h := absurd h (by simp)

/-- A transaction begins, or goes on: it holds no row, or one that nobody else does. -/
theorem Base.put {s : State ε} (h : Base s) (i : Nat) (tx : Tx ε)
    (hseen : tx.work.locks = true → s.runs.get? tx.run = some tx.seen)
    (halone : tx.work.locks = true → ∀ j tx', s.txs.get? j = some tx' → j ≠ i →
      tx'.work.locks = true → tx'.run ≠ tx.run)
    (hok : TxOk tx) (issued : List Digest) (picks : List Pick) :
    Base { s with txs := s.txs.put i tx, issued := issued, picks := picks } where
  seen j tx' hj hl := by
    rw [Table.get?_put] at hj
    split at hj
    · obtain rfl := Option.some.inj hj
      exact hseen hl
    · exact h.seen j tx' hj hl
  alone j k tx₁ tx₂ hj hk hl₁ hl₂ hrun := by
    rw [Table.get?_put] at hj hk
    split at hj <;> split at hk
    · next h₁ h₂ => rw [h₁, h₂]
    · next h₁ h₂ =>
      obtain rfl := Option.some.inj hj
      exact absurd hrun.symm (halone hl₁ k tx₂ hk h₂ hl₂)
    · next h₁ h₂ =>
      obtain rfl := Option.some.inj hk
      exact absurd hrun (halone hl₂ j tx₁ hj h₁ hl₁)
    · exact h.alone j k tx₁ tx₂ hj hk hl₁ hl₂ hrun
  sound j tx' hj := by
    rw [Table.get?_put] at hj
    split at hj
    · obtain rfl := Option.some.inj hj
      exact hok
    · exact h.sound j tx' hj

/-- A transaction is over, and with it its lock. -/
theorem Base.remove {s : State ε} (h : Base s) (i : Nat) :
    Base { s with txs := s.txs.remove i } := by
  have hget : ∀ j tx, (s.txs.remove i).get? j = some tx → s.txs.get? j = some tx :=
    fun j tx hj => (Table.get?_remove_eq_some.1 hj).2
  exact {
    seen := fun j tx hj hl => h.seen j tx (hget j tx hj) hl
    alone := fun j k tx tx' hj hk => h.alone j k tx tx' (hget j tx hj) (hget k tx' hk)
    sound := fun j tx hj => h.sound j tx (hget j tx hj) }

/-- Writing a row nobody else holds. -/
theorem Base.write {s : State ε} (h : Base s) (run : RunId) (row : Run)
    (hfree : ∀ i tx, s.txs.get? i = some tx → tx.work.locks = true → tx.run ≠ run) :
    Base { s with runs := s.runs.put run row } where
  seen i tx hi hl := by
    change (s.runs.put run row).get? tx.run = _
    rw [Table.get?_put_of_ne _ _ (hfree i tx hi hl)]
    exact h.seen i tx hi hl
  alone := h.alone
  sound := h.sound

/-! ## Commits -/

/-- What a transaction can commit: the row it writes and the payloads returned by then. -/
inductive Committed (cfg : Settings) (s : State ε) (tx : Tx ε) : Run → List Handout → Prop
  | claimed {row : Run} (work : tx.work = .marked row) (claims : Claims tx.seen row) :
      Committed cfg s tx row s.returned
  | served {row : Run} (keeps : Keeps tx.seen row) (served : Served tx.seen row) :
      Committed cfg s tx row s.returned
  | handedOut {row : Run} (claimToken : Token) (keeps : Keeps tx.seen row)
      (fetched : Fetched cfg.hashToken claimToken tx.seen row) :
      Committed cfg s tx row
        (⟨tx.run, cfg.hashToken claimToken, tx.seen, s.overClaims⟩ :: s.returned)
  | requeued (claimToken : Token) (reason : String) (work : tx.work = .downAgain claimToken reason)
      (owned : owns cfg.hashToken tx.seen claimToken = true) :
      Committed cfg s tx (requeueRun tx.seen) s.returned

theorem Committed.keeps {s : State ε} {tx : Tx ε} {row : Run} {returned : List Handout}
    (h : Committed cfg s tx row returned) : Keeps tx.seen row := by
  cases h with
  | claimed work claims => exact claims.keeps
  | served keeps served => exact keeps
  | handedOut claimToken keeps fetched => exact keeps
  | requeued claimToken reason work owned => exact ⟨rfl, rfl, rfl⟩

/-- A run that ended stays ended. -/
theorem Committed.finished {s : State ε} {tx : Tx ε} {row : Run} {returned : List Handout}
    (h : Committed cfg s tx row returned) (hfin : tx.seen.status.finished = true) :
    row.status.finished = true := by
  cases h with
  | claimed work claims => rw [claims.queued] at hfin; exact absurd hfin (by decide)
  | served keeps served =>
    cases served with
    | touched status claim job => rw [status]; exact hfin
    | ended active status claim => exact status
  | handedOut claimToken keeps fetched =>
    rw [running_of_owns fetched.owned] at hfin
    exact absurd hfin (by decide)
  | requeued claimToken reason work owned =>
    rw [running_of_owns owned] at hfin
    exact absurd hfin (by decide)

/-- A run becomes running by a claim alone. -/
theorem Committed.running {s : State ε} {tx : Tx ε} {row : Run} {returned : List Handout}
    (h : Committed cfg s tx row returned) (hrun : row.status = .running) :
    tx.work = .marked row ∨ tx.seen.status = .running := by
  cases h with
  | claimed work claims => exact .inl work
  | served keeps served =>
    cases served with
    | touched status claim job => exact .inr (status ▸ hrun)
    | ended active status claim => rw [hrun] at status; exact absurd status (by decide)
  | handedOut claimToken keeps fetched => exact .inr (running_of_owns fetched.owned)
  | requeued claimToken reason work owned => exact absurd hrun (by simp)

/-- **Every commit is one of four.** -/
theorem commit_cases {s s' : State ε} {i : Nat} {tx : Tx ε} (hok : TxOk tx)
    (hcommit : commit cfg fmt s i tx = some s') :
    tx.work.locks = true ∧ ∃ row returned outage, Committed cfg s tx row returned ∧
      s' = { commitRow s i tx row with
        returned := returned
        catalog := { s.catalog with outage := outage } } := by
  obtain ⟨started, run, seen, work⟩ := tx
  cases work with
  | picked after => exact absurd hcommit (by simp [commit])
  | down claimToken reason => exact absurd hcommit (by simp [commit])
  | marked after =>
    obtain rfl := Option.some.inj hcommit
    refine ⟨rfl, _, s.returned, s.catalog.outage, ?_, rfl⟩
    have hclaims : Claims seen after := hok
    unfold settled
    cases unrunnableReason after with
    | none => exact .claimed rfl hclaims
    | some reason =>
      exact .served ⟨hclaims.keeps.queuedAt, hclaims.keeps.inventoryId, hclaims.keeps.pin⟩
        (.ended (by rw [hclaims.queued]; rfl) rfl rfl)
  | downAgain claimToken reason =>
    have hrow := requeueOrFail_cases cfg fmt s
      ⟨started, run, seen, .downAgain claimToken reason⟩ claimToken reason
    have hcommitted : Committed cfg s ⟨started, run, seen, .downAgain claimToken reason⟩
        (requeueOrFail cfg fmt s ⟨started, run, seen, .downAgain claimToken reason⟩ claimToken
          reason) s.returned := by
      obtain ⟨hkeeps, hserved | ⟨howns, hrequeue⟩⟩ := hrow
      · exact .served hkeeps hserved
      · rw [hrequeue]
        exact .requeued claimToken reason rfl howns
    simp only [commit] at hcommit
    split at hcommit
    · obtain rfl := Option.some.inj hcommit
      exact ⟨rfl, _, _, _, hcommitted, rfl⟩
    · obtain rfl := Option.some.inj hcommit
      exact ⟨rfl, _, _, s.catalog.outage, hcommitted, rfl⟩
  | call c =>
    refine ⟨rfl, ?_⟩
    have hreap : ∀ rule, c = .reap rule → Reaper.applies rule started seen = true := by
      rintro rule rfl
      exact hok
    simp only [commit] at hcommit
    split at hcommit
    · exact absurd hcommit (by simp)
    next h hc =>
      split at hcommit
      · next claimToken hpay =>
        obtain rfl := Option.some.inj hcommit
        obtain ⟨hkeeps, hfetched⟩ := Call.handle_payload hc hpay
        exact ⟨h.run, _, s.catalog.outage, .handedOut claimToken hkeeps hfetched, rfl⟩
      · next hpay =>
        obtain rfl := Option.some.inj hcommit
        obtain ⟨hkeeps, hserved⟩ := Call.handle_served hc hpay hreap
        exact ⟨h.run, s.returned, s.catalog.outage, .served hkeeps hserved, rfl⟩

/-! ## Changes -/

/-- What a step with this label does to the state. -/
inductive Change (cfg : Settings) (s : State ε) (a : Label ε) : State ε → Prop
  | idle (now : Time) (refreshes : Table RefreshId RunStatus) (catalog : Catalog) :
      Change cfg s a { s with now, refreshes, catalog }
  | triggered (id : RunId) (run : Run) (new : s.runs.get? id = none)
      (isFresh : fresh s.now run = true) : Change cfg s a { s with runs := s.runs.put id run }
  | picked (i : Nat) (started : Time) (id : RunId) (run : Run) (workerId : String) (caps : Caps)
      (claimToken jobToken : Token) (new : s.txs.get? i = none)
      (found : s.runs.get? id = some run) (picks : picks cfg s started caps id run = true)
      (claimFresh : cfg.hashToken claimToken ∉ s.issued)
      (jobFresh : cfg.hashToken jobToken ∉ s.issued)
      (differ : cfg.hashToken claimToken ≠ cfg.hashToken jobToken) :
      Change cfg s a { s with
        txs := s.txs.put i ⟨started, id, run,
          .picked (claimed cfg s started workerId claimToken jobToken run)⟩
        issued := cfg.hashToken claimToken :: cfg.hashToken jobToken :: s.issued
        picks := ⟨id, s.runs, s.refreshes⟩ :: s.picks }
  | marked (i : Nat) (tx : Tx ε) (after : Run) (found : s.txs.get? i = some tx)
      (work : tx.work = .picked after)
      (noneRunning : ∀ k busy, s.runs.get? k = some busy → busy.status = .running →
        sameInventory busy after = false)
      (noneMarked : ∀ j tx' row, s.txs.get? j = some tx' → tx'.work = .marked row →
        sameInventory row after = false) :
      Change cfg s a { s with txs := s.txs.put i { tx with work := .marked after } }
  | locked (i : Nat) (tx : Tx ε)
      (holdsNone : ∀ old, s.txs.get? i = some old → old.work.locks = false)
      (found : s.runs.get? tx.run = some tx.seen) (free : locked s tx.run = false)
      (ok : TxOk tx)
      (work : (∃ c, tx.work = .call c) ∨ ∃ token reason old, tx.work = .downAgain token reason ∧
        a = .relock i tx.started ∧ s.txs.get? i = some old ∧ old.run = tx.run ∧
        old.work = .down token reason) :
      Change cfg s a { s with txs := s.txs.put i tx }
  | released (i : Nat) (tx : Tx ε) (old : Tx ε) (found : s.txs.get? i = some old)
      (token : Token) (reason : String) (work : tx.work = .down token reason) :
      Change cfg s a { s with txs := s.txs.put i tx }
  | committed (i : Nat) (tx : Tx ε) (row : Run) (returned : List Handout)
      (outage : Option SecretStoreOutage) (label : a = .commit i) (found : s.txs.get? i = some tx)
      (locks : tx.work.locks = true) (did : Committed cfg s tx row returned) :
      Change cfg s a { commitRow s i tx row with
        returned := returned
        catalog := { s.catalog with outage := outage } }
  | rolledBack (i : Nat) : Change cfg s a { s with txs := s.txs.remove i }

theorem step_change {s s' : State ε} {a : Label ε} (hb : Base s)
    (hstep : step cfg fmt s a = some s') : Change cfg s a s' := by
  cases a with
  | tick seconds =>
    obtain rfl := Option.some.inj hstep
    exact .idle _ s.refreshes s.catalog
  | setRefresh refresh status =>
    obtain rfl := Option.some.inj hstep
    exact .idle s.now _ s.catalog
  | setCatalog catalog =>
    obtain rfl := Option.some.inj hstep
    exact .idle s.now s.refreshes _
  | trigger id run =>
    simp only [step, Option.ite_none_right_eq_some, Option.some.injEq, Bool.and_eq_true,
      Option.isNone_iff_eq_none] at hstep
    obtain ⟨⟨hnew, hfresh⟩, rfl⟩ := hstep
    exact .triggered id run hnew hfresh
  | pick i started id workerId caps claimToken jobToken =>
    simp only [step, Option.bind_eq_bind, Option.bind_eq_some_iff, Option.ite_none_right_eq_some,
      Option.some.injEq, Bool.and_eq_true, decide_eq_true_eq, opens,
      Option.isNone_iff_eq_none] at hstep
    obtain ⟨run, hrun, ⟨⟨⟨⟨⟨hnew, -⟩, hpicks⟩, hclaim⟩, hjob⟩, hne⟩, rfl⟩ := hstep
    exact .picked i started id run workerId caps claimToken jobToken hnew hrun
      hpicks hclaim hjob hne
  | mark i =>
    simp only [step] at hstep
    split at hstep
    · next started id seen after hi =>
      split at hstep
      · exact absurd hstep (by simp)
      next hnot =>
        obtain rfl := Option.some.inj hstep
        rw [Bool.not_eq_true, Bool.or_eq_false_iff, Table.any_eq_false_iff,
          Table.any_eq_false_iff] at hnot
        refine .marked i _ after hi rfl (fun k busy hk hbusy => ?_) (fun j tx' row hj hwork => ?_)
        · simpa [hbusy] using hnot.1 k busy hk
        · simpa [hwork] using hnot.2 j tx' hj
    · exact absurd hstep (by simp)
  | lock i started id call =>
    simp only [step, Option.bind_eq_bind, Option.bind_eq_some_iff, Option.ite_none_right_eq_some,
      Option.some.injEq, Bool.and_eq_true, opens, Option.isNone_iff_eq_none] at hstep
    obtain ⟨run, hrun, ⟨⟨⟨hnew, -⟩, hfree⟩, hfound⟩, rfl⟩ := hstep
    refine .locked i ⟨started, id, run, .call call⟩ (fun old hold => ?_) hrun (by simpa using hfree)
      ?_ (.inl ⟨call, rfl⟩)
    · rw [hnew] at hold
      exact absurd hold (by simp)
    · cases call with
      | reap rule => exact hfound
      | _ => trivial
  | storeDown i =>
    simp only [step] at hstep
    split at hstep
    · next started id seen claimToken jobToken build hi =>
      split at hstep
      · next reason hc =>
        obtain rfl := Option.some.inj hstep
        exact .released i _ _ hi claimToken reason rfl
      · exact absurd hstep (by simp)
    · exact absurd hstep (by simp)
  | relock i started =>
    simp only [step] at hstep
    split at hstep
    · next began id seen claimToken reason hi =>
      simp only [Option.bind_eq_bind, Option.bind_eq_some_iff, Option.ite_none_right_eq_some,
        Option.some.injEq, Bool.and_eq_true, Bool.not_eq_true'] at hstep
      obtain ⟨run, hrun, ⟨hfree, -⟩, rfl⟩ := hstep
      refine .locked i ⟨started, id, run, .downAgain claimToken reason⟩ (fun old hold => ?_) hrun
        hfree trivial (.inr ⟨claimToken, reason, _, rfl, rfl, hi, rfl, rfl⟩)
      rw [hi] at hold
      obtain rfl := Option.some.inj hold
      rfl
    · exact absurd hstep (by simp)
  | commit i =>
    simp only [step, Option.bind_eq_some_iff] at hstep
    obtain ⟨tx, hi, hcommit⟩ := hstep
    obtain ⟨hl, row, returned, outage, hdid, rfl⟩ := commit_cases (hb.sound i tx hi) hcommit
    exact .committed i tx row returned outage rfl hi hl hdid
  | rollback i =>
    simp only [step, Option.map_eq_some_iff] at hstep
    obtain ⟨tx, -, rfl⟩ := hstep
    exact .rolledBack i

theorem queued_of_picks {s : State ε} {started : Time} {caps : Caps} {id : RunId} {run : Run}
    (h : picks cfg s started caps id run = true) :
    eligible cfg s started caps id run = true ∧ locked s id = false ∧ run.status = .queued := by
  simp only [picks, Bool.and_eq_true, Bool.not_eq_true'] at h
  refine ⟨h.1.1, h.1.2, ?_⟩
  have := h.1.1
  simp only [eligible, Bool.and_eq_true, decide_eq_true_eq] at this
  exact this.1.1.1.1.1.1.1

theorem Change.base {s s' : State ε} {a : Label ε} (h : Change cfg s a s') (hb : Base s) :
    Base s' := by
  cases h with
  | idle now refreshes catalog => exact ⟨hb.seen, hb.alone, hb.sound⟩
  | triggered id run new isFresh =>
    refine hb.write id run fun i tx hi hl hrun => ?_
    have := hb.seen i tx hi hl
    rw [hrun, new] at this
    exact absurd this (by simp)
  | picked i started id run workerId caps claimToken jobToken new found picks =>
    obtain ⟨-, hfree, hqueued⟩ := queued_of_picks picks
    have hok : @TxOk ε ⟨started, id, run,
        .picked (claimed cfg s started workerId claimToken jobToken run)⟩ :=
      Claims.mk hqueued rfl ⟨rfl, rfl, rfl⟩
    exact hb.put _ _ (fun _ => found) (fun _ j tx' hj _ hl => locked_eq_false hfree hj hl) hok _ _
  | marked i tx after found work noneRunning noneMarked =>
    have hl : tx.work.locks = true := by rw [work]; rfl
    have hok := hb.sound i tx found
    refine hb.put i { tx with work := .marked after } (fun _ => hb.seen i tx found hl)
      (fun _ j tx' hj hne hl' hrun => ?_) ?_ _ _
    · exact hne (hb.alone j i tx' tx hj found hl' hl hrun)
    · simpa only [TxOk, work] using hok
  | locked i tx holdsNone found free ok work =>
    exact hb.put i tx (fun _ => found) (fun _ j tx' hj _ hl => locked_eq_false free hj hl) ok _ _
  | released i tx old found token reason work =>
    refine hb.put i tx (fun hl => ?_) (fun hl => ?_) ?_ _ _
    · rw [work] at hl; exact absurd hl (by simp [Work.locks])
    · rw [work] at hl; exact absurd hl (by simp [Work.locks])
    · rw [TxOk, work]; trivial
  | committed i tx row returned outage label found locks did =>
    -- without the transaction nobody holds its row
    have hwrite := (hb.remove i).write tx.run row fun j tx' hj hl hrun => by
      obtain ⟨hne, hj⟩ := Table.get?_remove_eq_some.1 hj
      exact hne (hb.alone j i tx' tx hj found hl locks hrun)
    exact ⟨hwrite.seen, hwrite.alone, hwrite.sound⟩
  | rolledBack i => exact hb.remove i

end RunQueue

end AnsiDeck
