import AnsiDeck.RunQueue.System

/-!
# What a transaction does to a run

Handler by handler, what a committed transaction does to the row it locked. Apart from claiming a
run, handing its job out and putting it back in the queue there are two ways (`Served`): it leaves
the run's status and tokens alone, or it ends the run. What the queue guarantees is derived from
these and never looks into a handler again.
-/

namespace AnsiDeck

namespace RunQueue

open InternalApi (owns Build JobStep)

variable {ε : Type} {cfg : Settings} {fmt : EventFormat ε}

/-- An ordinary change of a run's row. -/
inductive Served (seen row : Run) : Prop
  /-- Other columns. -/
  | touched (status : row.status = seen.status)
      (claim : row.claimTokenHash = seen.claimTokenHash)
      (job : row.jobTokenHash = seen.jobTokenHash)
  | ended (active : seen.status.finished = false) (status : row.status.finished = true)
      (claim : row.claimTokenHash = none)

/-- What no change of a run touches: its place in the queue and its inventory. -/
structure Keeps (seen row : Run) : Prop where
  queuedAt : row.queuedAt = seen.queuedAt
  inventoryId : row.inventoryId = seen.inventoryId
  pin : row.pin = seen.pin

theorem Keeps.refl (run : Run) : Keeps run run := ⟨rfl, rfl, rfl⟩

theorem Keeps.trans {a b c : Run} (h₁ : Keeps a b) (h₂ : Keeps b c) : Keeps a c :=
  ⟨h₂.queuedAt.trans h₁.queuedAt, h₂.inventoryId.trans h₁.inventoryId, h₂.pin.trans h₁.pin⟩

theorem sameInventory_iff {a b : Run} : sameInventory a b = true ↔
    ∃ i, a.inventoryId = some i ∧ b.inventoryId = some i := by
  unfold sameInventory
  cases ha : a.inventoryId with
  | none => simp
  | some i => simp [eq_comm]

theorem sameInventory_comm (a b : Run) : sameInventory a b = sameInventory b a := by
  rw [Bool.eq_iff_iff, sameInventory_iff, sameInventory_iff]
  exact ⟨fun ⟨i, h⟩ => ⟨i, h.symm⟩, fun ⟨i, h⟩ => ⟨i, h.symm⟩⟩

theorem Keeps.sameInventory {a b : Run} (h : Keeps a b) (c : Run) :
    sameInventory b c = sameInventory a c := by
  unfold RunQueue.sameInventory
  rw [h.inventoryId]

theorem Served.refl (run : Run) : Served run run := .touched rfl rfl rfl

theorem running_of_owns {run : Run} {token : Token} (h : owns cfg.hashToken run token = true) :
    run.status = .running := by
  simp only [owns, Bool.and_eq_true, decide_eq_true_eq] at h
  exact h.1

theorem claim_of_owns {run : Run} {token : Token} (h : owns cfg.hashToken run token = true) :
    run.claimTokenHash = some (cfg.hashToken token) := by
  simp only [owns, Bool.and_eq_true, decide_eq_true_eq] at h
  exact h.2

theorem active_of_running {run : Run} (h : run.status = .running) :
    run.status.finished = false := by
  rw [h]; rfl

/-! ## The handlers -/

theorem events_served (seen : Run) (token : Token) (body : InternalApi.EventsIn ε) :
    let row := (InternalApi.events cfg.hashToken fmt seen token body).run
    Keeps seen row ∧ Served seen row := by
  unfold InternalApi.events InternalApi.unchanged
  split
  · exact ⟨.refl _, .refl _⟩
  split
  · exact ⟨.refl _, .refl _⟩
  dsimp only
  split
  · exact ⟨.refl _, .refl _⟩
  split
  · exact ⟨.refl _, .refl _⟩
  · exact ⟨⟨rfl, rfl, rfl⟩, .touched rfl rfl rfl⟩

theorem complete_served (now : Time) (seen : Run) (token : Token) (body : InternalApi.CompleteIn) :
    let row := (InternalApi.complete cfg.hashToken now seen token body).run
    Keeps seen row ∧ Served seen row := by
  unfold InternalApi.complete InternalApi.unchanged
  split
  · exact ⟨.refl _, .refl _⟩
  next hvalid =>
    split
    · exact ⟨.refl _, .refl _⟩
    next howns =>
      split
      · exact ⟨.refl _, .refl _⟩
      · rw [Bool.not_eq_true', Bool.not_eq_false] at hvalid howns
        exact ⟨⟨rfl, rfl, rfl⟩, .ended (active_of_running (running_of_owns howns)) hvalid rfl⟩

theorem heartbeat_served (now : Time) (lease : Nat) (seen : Run) (token : Token) :
    let row := (InternalApi.heartbeat cfg.hashToken now lease seen token).1
    Keeps seen row ∧ Served seen row := by
  unfold InternalApi.heartbeat
  split
  · exact ⟨⟨rfl, rfl, rfl⟩, .touched rfl rfl rfl⟩
  · exact ⟨.refl _, .refl _⟩

theorem egressReport_served (seen : Run) (token : Token) (report : String) :
    let row := (InternalApi.egressReport cfg.hashToken seen token report).run
    Keeps seen row ∧ Served seen row := by
  unfold InternalApi.egressReport InternalApi.unchanged
  split
  · exact ⟨.refl _, .refl _⟩
  · exact ⟨⟨rfl, rfl, rfl⟩, .touched rfl rfl rfl⟩

theorem cancelRun_served (now : Time) (seen : Run) (user : String) :
    let row := (InternalApi.cancelRun fmt now seen user).run
    Keeps seen row ∧ Served seen row := by
  unfold InternalApi.cancelRun InternalApi.unchanged
  split
  · exact ⟨.refl _, .refl _⟩
  next hfin =>
    split
    · exact ⟨.refl _, .refl _⟩
    · dsimp only
      split
      · exact ⟨⟨rfl, rfl, rfl⟩, .ended (Bool.eq_false_iff.mpr hfin) rfl rfl⟩
      · exact ⟨⟨rfl, rfl, rfl⟩, .touched rfl rfl rfl⟩

theorem reap_served {now : Time} {rule : Reaper.Rule} {seen : Run}
    (h : Reaper.applies rule now seen = true) :
    let row := (Reaper.reap fmt now rule seen).1
    Keeps seen row ∧ Served seen row :=
  ⟨⟨rfl, rfl, rfl⟩, .ended (RunStatus.finished_eq_false.mpr (Reaper.active_of_applies h))
    (Reaper.verdict_finished fmt rule seen) rfl⟩

/-- What a fetch that returns the payload does: the claim owns the run, its job token was unused
and nobody asked to cancel it; the token is used up. -/
structure Fetched (hashToken : Token → Digest) (claimToken : Token) (seen row : Run) : Prop where
  owned : owns hashToken seen claimToken = true
  token : seen.jobTokenHash ≠ none
  notCancelled : seen.cancelRequestedAt = none
  status : row.status = .running
  claim : row.claimTokenHash = seen.claimTokenHash
  job : row.jobTokenHash = none

theorem job_served {now : Time} {seen : Run} {claimToken jobToken : Token} {build : Build}
    {h : Handled}
    (hjob : InternalApi.job cfg.hashToken fmt now seen claimToken jobToken build = .answer h) :
    Keeps seen h.run ∧
      ((h.answer ≠ .payload ∧ Served seen h.run) ∨
        (h.answer = .payload ∧ Fetched cfg.hashToken claimToken seen h.run)) := by
  unfold InternalApi.job InternalApi.unchanged at hjob
  split at hjob
  · obtain rfl := JobStep.answer.inj hjob
    exact ⟨.refl _, .inl ⟨by simp, .refl _⟩⟩
  next hgate =>
    rw [Bool.not_eq_true', Bool.not_eq_false] at hgate
    simp only [Bool.and_eq_true, decide_eq_true_eq] at hgate
    obtain ⟨⟨howns, htoken⟩, -⟩ := hgate
    have hrun := running_of_owns howns
    dsimp only at hjob
    split at hjob
    · obtain rfl := JobStep.answer.inj hjob
      exact ⟨⟨rfl, rfl, rfl⟩,
        .inl ⟨by simp [InternalApi.failed], .ended (active_of_running hrun) rfl rfl⟩⟩
    next hcancel =>
      cases build with
      | built =>
        obtain rfl := JobStep.answer.inj hjob
        refine ⟨⟨rfl, rfl, rfl⟩, .inr ⟨rfl, howns, ?_, by simpa using hcancel, hrun, rfl, rfl⟩⟩
        rw [htoken]
        exact Option.some_ne_none _
      | outage reason => exact absurd hjob (by simp)
      | error reason =>
        obtain rfl := JobStep.answer.inj hjob
        exact ⟨⟨rfl, rfl, rfl⟩,
          .inl ⟨by simp [InternalApi.failed], .ended (active_of_running hrun) rfl rfl⟩⟩

/-- The second transaction of a fetch that found the store down: the run is back in the queue,
if this claim still owns it, or served. -/
theorem storeDown_cases (now : Time) (seen : Run) (claimToken : Token) (reason : String)
    (waitOver : Option String) :
    let row := (InternalApi.storeDown cfg.hashToken fmt now seen claimToken reason waitOver).run
    Keeps seen row ∧
      (Served seen row ∨ (owns cfg.hashToken seen claimToken = true ∧ row = requeueRun seen)) := by
  unfold InternalApi.storeDown InternalApi.unchanged
  dsimp only
  split
  · exact ⟨.refl _, .inl (.refl _)⟩
  next howns =>
    rw [Bool.not_eq_true', Bool.not_eq_false] at howns
    have hrun := running_of_owns howns
    split
    · exact ⟨⟨rfl, rfl, rfl⟩, .inl (.ended (active_of_running hrun) rfl rfl)⟩
    · split
      · exact ⟨⟨rfl, rfl, rfl⟩, .inl (.ended (active_of_running hrun) rfl rfl)⟩
      · exact ⟨⟨rfl, rfl, rfl⟩, .inr ⟨howns, rfl⟩⟩

theorem requeueOrFail_cases (cfg : Settings) (fmt : EventFormat ε) (s : State ε) (tx : Tx ε)
    (claimToken : Token) (reason : String) :
    let row := requeueOrFail cfg fmt s tx claimToken reason
    Keeps tx.seen row ∧
      (Served tx.seen row ∨
        (owns cfg.hashToken tx.seen claimToken = true ∧ row = requeueRun tx.seen)) :=
  storeDown_cases _ _ _ _ _

/-- A call that returns the payload is a fetch. -/
theorem Call.handle_payload {started : Time} {seen : Run} {c : Call ε} {h : Handled}
    {claimToken : Token} (hc : c.handle cfg fmt started seen = .answer h)
    (hpay : c.payloadTo h.answer = some claimToken) :
    Keeps seen h.run ∧ Fetched cfg.hashToken claimToken seen h.run := by
  unfold Call.payloadTo at hpay
  split at hpay
  · next token jobToken build hanswer =>
    obtain rfl := Option.some.inj hpay
    obtain ⟨hkeeps, ⟨hne, -⟩ | ⟨-, hfetched⟩⟩ := job_served hc
    · exact absurd hanswer hne
    · exact ⟨hkeeps, hfetched⟩
  · exact absurd hpay (by simp)

/-- Any other call serves the run, given that the reaper locked a row its rule applies to. -/
theorem Call.handle_served {started : Time} {seen : Run} {c : Call ε} {h : Handled}
    (hc : c.handle cfg fmt started seen = .answer h) (hpay : c.payloadTo h.answer = none)
    (hreap : ∀ rule, c = .reap rule → Reaper.applies rule started seen = true) :
    Keeps seen h.run ∧ Served seen h.run := by
  cases c with
  | job claimToken jobToken build =>
    obtain ⟨hkeeps, ⟨-, hserved⟩ | ⟨hanswer, -⟩⟩ := job_served hc
    · exact ⟨hkeeps, hserved⟩
    · rw [hanswer] at hpay
      exact absurd hpay (by simp [Call.payloadTo])
  | events token body =>
    obtain rfl := JobStep.answer.inj hc
    exact events_served seen token body
  | heartbeat token =>
    obtain rfl := JobStep.answer.inj hc
    exact heartbeat_served started cfg.runLeaseSeconds seen token
  | egressReport token report =>
    obtain rfl := JobStep.answer.inj hc
    exact egressReport_served seen token report
  | complete token body =>
    obtain rfl := JobStep.answer.inj hc
    exact complete_served started seen token body
  | cancel user =>
    obtain rfl := JobStep.answer.inj hc
    exact cancelRun_served started seen user
  | reap rule =>
    obtain rfl := JobStep.answer.inj hc
    exact reap_served (hreap rule rfl)

/-- A call with the token of a claim that does not own the row leaves it as it was. -/
theorem Call.handle_disowned {started : Time} {seen : Run} {c : Call ε} {token : Token}
    {h : Handled} (hc : c.handle cfg fmt started seen = .answer h) (htoken : c.token? = some token)
    (howns : owns cfg.hashToken seen token = false) : h.run = seen := by
  cases c with
  | job claimToken jobToken build =>
    obtain rfl : claimToken = token := Option.some.inj htoken
    simp only [Call.handle, InternalApi.job, howns, Bool.false_and, Bool.not_false, if_true] at hc
    obtain rfl := JobStep.answer.inj hc
    rfl
  | events claimToken body =>
    obtain rfl : claimToken = token := Option.some.inj htoken
    obtain rfl := JobStep.answer.inj hc
    simp only [InternalApi.events, howns, Bool.not_false, if_true]
    split <;> rfl
  | heartbeat claimToken =>
    obtain rfl : claimToken = token := Option.some.inj htoken
    obtain rfl := JobStep.answer.inj hc
    simp [InternalApi.heartbeat, howns]
  | egressReport claimToken report =>
    obtain rfl : claimToken = token := Option.some.inj htoken
    obtain rfl := JobStep.answer.inj hc
    simp [InternalApi.egressReport, howns, InternalApi.unchanged]
  | complete claimToken body =>
    obtain rfl : claimToken = token := Option.some.inj htoken
    obtain rfl := JobStep.answer.inj hc
    simp only [InternalApi.complete, howns, Bool.not_false, if_true]
    split <;> rfl
  | cancel user => exact absurd htoken (by simp [Call.token?])
  | reap rule => exact absurd htoken (by simp [Call.token?])

/-- The second transaction does nothing without the claim either. -/
theorem requeueOrFail_disowned {s : State ε} {tx : Tx ε} {claimToken : Token} {reason : String}
    (howns : owns cfg.hashToken tx.seen claimToken = false) :
    requeueOrFail cfg fmt s tx claimToken reason = tx.seen := by
  simp [requeueOrFail, InternalApi.storeDown, howns, InternalApi.unchanged]

end RunQueue

end AnsiDeck
