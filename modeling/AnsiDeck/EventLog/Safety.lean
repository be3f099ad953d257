import AnsiDeck.EventLog.Api

/-!
# The event log holds each event once, in order

The invariant of the whole system: the API's side agrees with the events produced (`ApiOk`), the
sender's queue is a window on them (`SenderOk`), every request in flight carries consecutive
events or the final count (`SentOk`), and the sender takes nothing for acknowledged that is not
logged. The last one needs no message to arrive in order: the log never shrinks, so an answer
stays true however late it is read.
-/

namespace AnsiDeck

namespace EventLog

open InternalApi (EventsIn CompleteIn owns)
open Worker (EventSender)

variable {ε : Type} {hashToken : Token → Digest} {fmt : EventFormat ε} {claimToken : Token}
  {lease : Nat}

/-- The worker produces no more events. -/
def Stage.Closed : Stage → Prop
  | .reporting | .done => True
  | _ => False

/-- What the requests in flight say, whenever they arrive. -/
structure SentOk (produced : List ε) (stage : Stage) (sent : List (Request ε)) : Prop where
  batches : ∀ body, .events body ∈ sent → IsBatch produced body
  reports : ∀ body, .complete body ∈ sent → body.lastSeq = produced.length ∧ stage.Closed

structure Inv (hashToken : Token → Digest) (fmt : EventFormat ε) (claimToken : Token)
    (s : State ε) : Prop where
  api : ApiOk hashToken fmt claimToken s.produced s.run s.file s.ended s.answers
  sender : SenderOk fmt s.produced s.sender
  sent : SentOk s.produced s.stage s.sent
  acked : s.acked ≤ logged s.run s.ended
  reported : s.ended = some .reported → s.stage.Closed

/-! ## The worker's steps -/

theorem SentOk.produce {produced : List ε} {sent : List (Request ε)}
    (h : SentOk produced .running sent) (e : ε) : SentOk (produced ++ [e]) .running sent where
  batches body hmem := (h.batches body hmem).produce e
  reports body hmem := absurd (h.reports body hmem).2 id

/-- Moving on never makes a report in flight wrong: there is none before the last stages. -/
theorem SentOk.stage {produced : List ε} {stage : Stage} {sent : List (Request ε)}
    (h : SentOk produced stage sent) {stage' : Stage} (hs : stage.Closed → stage'.Closed) :
    SentOk produced stage' sent where
  batches := h.batches
  reports body hmem := ⟨(h.reports body hmem).1, hs (h.reports body hmem).2⟩

theorem SentOk.post {produced : List ε} {stage : Stage} {sent : List (Request ε)}
    (h : SentOk produced stage sent) {r : Request ε}
    (hr : SentOk produced stage [r]) : SentOk produced stage (sent ++ [r]) where
  batches body hmem := (List.mem_append.mp hmem).elim (h.batches body) (hr.batches body)
  reports body hmem := (List.mem_append.mp hmem).elim (h.reports body) (hr.reports body)

/-- What the sender newly takes for acknowledged, the answer said. -/
theorem acked_onAnswer {s : EventSender ε} {body : EventsIn ε} {answer : Answer} {k : Nat}
    (h : Within k answer) : ((s.onAnswer body answer).acked.getD 0) ≤ k := by
  cases answer with
  | acked seq cancel => exact h
  | behind expected =>
    have hk : expected ≤ k + 1 := h
    simp only [EventSender.onAnswer]
    split
    · exact Nat.zero_le _
    · exact Nat.sub_le_of_le_add hk
  | _ => exact Nat.zero_le _

theorem Inv.react {s : State ε} (h : Inv hashToken fmt claimToken s) (body : EventsIn ε)
    {answer : Answer} (ha : Within (logged s.run s.ended) answer) :
    Inv hashToken fmt claimToken (react s body answer) where
  api := h.api
  sender := h.sender.onAnswer body answer
  sent := h.sent
  acked := Nat.max_le.mpr ⟨h.acked, acked_onAnswer ha⟩
  reported := h.reported

/-! ## The API's steps -/

/-- A delivered request, committed. -/
theorem Inv.deliver {s : State ε} (h : Inv hashToken fmt claimToken s) {request : Nat}
    {r : Request ε} (hr : s.sent[request]? = some r) :
    let handled := handle hashToken fmt claimToken s r
    Inv hashToken fmt claimToken { s with
      run := handled.run
      file := written s.file handled.write
      answers := (request, handled.answer) :: s.answers
      ended := s.ended <|> endingOf r handled.answer } := by
  intro handled
  have hmem : r ∈ s.sent := List.mem_of_getElem? hr
  have hrefused : Refused hashToken claimToken s.run handled →
      Inv hashToken fmt claimToken { s with
        run := handled.run
        file := written s.file handled.write
        answers := (request, handled.answer) :: s.answers
        ended := s.ended <|> endingOf r handled.answer } := by
    intro href
    have hending : (s.ended <|> endingOf r handled.answer) = s.ended := by
      have : endingOf r handled.answer = none := by
        unfold endingOf
        split
        · exact absurd (by assumption) href.notDone
        · rfl
      rw [this]
      cases s.ended <;> rfl
    rw [hending]
    exact ⟨h.api.refused request href, h.sender, h.sent, by rw [href.run_eq]; exact h.acked,
      h.reported⟩
  cases r with
  | events body =>
    rcases events_cases hashToken fmt claimToken s.run body
      with href | ⟨howns, hfirst, hfresh, heq⟩
    · exact hrefused href
    · have hnone : s.ended = none := h.api.owns_iff.mp howns
      have hapi := h.api
      have hacked := h.acked
      rw [hnone] at hapi hacked
      obtain ⟨hle, happ⟩ := hapi.append request (h.sent.batches body hmem) hfirst hfresh
        s.run.cancelRequestedAt.isSome
      have hh : handled = _ := heq
      rw [hh, hnone]
      exact ⟨happ, h.sender, h.sent, Nat.le_trans hacked hle, fun h' =>
        absurd h' (by simp [endingOf])⟩
  | complete body =>
    rcases complete_cases hashToken claimToken s.now s.run body
      with href | ⟨howns, hseq, run', heq, hstatus, hlog, hbytes⟩
    · exact hrefused href
    · have hnone : s.ended = none := h.api.owns_iff.mp howns
      have hapi := h.api
      have hacked := h.acked
      rw [hnone] at hapi hacked
      obtain ⟨hlast, hclosed⟩ := h.sent.reports body hmem
      have hh : handled = _ := heq
      rw [hh, hnone]
      exact ⟨hapi.complete request hstatus hlog hbytes (by rw [← hseq, hlast]), h.sender, h.sent,
        by rw [show (none <|> endingOf (.complete body) .done) = some Ending.reported from rfl,
          logged_reported, hlog]; exact hacked,
        fun _ => hclosed⟩

/-- Every write a handler does begins at the committed length. -/
theorem handle_write {s : State ε} {r : Request ε} {w : LogWrite}
    (hw : (handle hashToken fmt claimToken s r).write = some w) : w.offset = s.run.logBytes := by
  cases r with
  | events body =>
    rcases events_cases hashToken fmt claimToken s.run body
      with href | ⟨-, -, -, heq⟩
    · exact absurd (hw.symm.trans href.write_eq) (by simp)
    · have := congrArg Handled.write heq
      exact (Option.some.inj (hw.symm.trans this)) ▸ rfl
  | complete body =>
    rcases complete_cases hashToken claimToken s.now s.run body
      with href | ⟨-, -, run', heq, -⟩
    · exact absurd (hw.symm.trans href.write_eq) (by simp)
    · exact absurd (hw.symm.trans (congrArg Handled.write heq)) (by simp)

theorem Inv.deliverLost {s : State ε} (h : Inv hashToken fmt claimToken s) (r : Request ε) :
    Inv hashToken fmt claimToken
      { s with file := written s.file (handle hashToken fmt claimToken s r).write } := by
  cases hw : (handle hashToken fmt claimToken s r).write with
  | none => exact h
  | some w => exact ⟨h.api.writeLost (handle_write hw), h.sender, h.sent, h.acked, h.reported⟩

/-- A change to columns the log does not depend on. -/
theorem Inv.touch {s : State ε} (h : Inv hashToken fmt claimToken s) {run' : Run}
    (hstatus : run'.status = s.run.status) (hclaim : run'.claimTokenHash = s.run.claimTokenHash)
    (hseq : run'.logSeq = s.run.logSeq) (hbytes : run'.logBytes = s.run.logBytes) :
    Inv hashToken fmt claimToken { s with run := run' } where
  api := h.api.touch hstatus hclaim hseq hbytes
  sender := h.sender
  sent := h.sent
  acked := by
    have : logged run' s.ended = logged s.run s.ended := by
      unfold logged
      split <;> rw [hseq]
    simpa only [this] using h.acked
  reported := h.reported

/-- The run is never in the queue here, so a rule that applies ends a running one. -/
theorem Inv.live_of_applies {s : State ε} (h : Inv hashToken fmt claimToken s)
    {rule : Reaper.Rule} (ha : Reaper.applies rule s.now s.run = true) : s.ended = none := by
  by_contra hne
  have hfin := h.api.overFinished hne
  rcases Reaper.active_of_applies ha with hq | hr
  · rw [hq] at hfin; exact absurd hfin (by decide)
  · rw [hr] at hfin; exact absurd hfin (by decide)

theorem Inv.reap {s : State ε} (h : Inv hashToken fmt claimToken s) {rule : Reaper.Rule}
    (ha : Reaper.applies rule s.now s.run = true) :
    Inv hashToken fmt claimToken { s with
      run := (Reaper.reap fmt s.now rule s.run).1
      file := (Reaper.reap fmt s.now rule s.run).2.apply s.file
      ended := s.ended <|> some (.byAnsiDeck (Reaper.verdict fmt rule s.run).2) } := by
  have hnone := h.live_of_applies ha
  have hapi := h.api
  have hacked := h.acked
  rw [hnone] at hapi hacked
  rw [hnone]
  exact ⟨hapi.failed s.now (Reaper.verdict_finished fmt rule s.run) _, h.sender, h.sent, hacked,
    fun h' => absurd h' (by simp)⟩

/-- A cancel request marks a claimed run and leaves one that ended alone. -/
theorem Inv.cancel {s : State ε} (h : Inv hashToken fmt claimToken s) (user : String) :
    let c := InternalApi.cancelRun fmt s.now s.run user
    Inv hashToken fmt claimToken { s with run := c.run, file := written s.file c.write } := by
  intro c
  have hq : s.run.status ≠ .queued := by
    intro hq
    by_cases hnone : s.ended = none
    · exact absurd (hq.symm.trans (h.api.live hnone).1) (by decide)
    · have := h.api.overFinished hnone
      rw [hq] at this
      exact absurd this (by decide)
  have hc : c.write = none ∧ c.run.status = s.run.status ∧
      c.run.claimTokenHash = s.run.claimTokenHash ∧ c.run.logSeq = s.run.logSeq ∧
      c.run.logBytes = s.run.logBytes := by
    simp only [c, InternalApi.cancelRun, hq, if_false]
    split
    · exact ⟨rfl, rfl, rfl, rfl, rfl⟩
    · split <;> exact ⟨rfl, rfl, rfl, rfl, rfl⟩
  obtain ⟨hw, hstatus, hclaim, hseq, hbytes⟩ := hc
  rw [hw]
  exact h.touch hstatus hclaim hseq hbytes

/-! ## Runs -/

theorem inv_init {s : State ε} (h : Init hashToken claimToken s) :
    Inv hashToken fmt claimToken s := by
  have hapi := ApiOk.init fmt s.file h.running h.owned h.logSeq h.logBytes
  rw [h.fresh]
  exact ⟨hapi, .init, ⟨fun _ h => absurd h (by simp), fun _ h => absurd h (by simp)⟩,
    Nat.zero_le _, fun h => absurd h (by simp)⟩

/-- Within an answer the thread can read, nothing is claimed that isn't logged. -/
theorem Inv.within {s : State ε} (h : Inv hashToken fmt claimToken s) {request : Nat}
    {answer : Answer} (hmem : (request, answer) ∈ s.answers) :
    Within (logged s.run s.ended) answer := h.api.answered _ hmem

theorem inv_step (s : State ε) (a : Label ε) (t : State ε) (h : Inv hashToken fmt claimToken s)
    (hstep : step hashToken fmt claimToken lease s a = some t) :
    Inv hashToken fmt claimToken t := by
  cases a with
  | tick seconds =>
    obtain rfl := Option.some.inj hstep
    exact ⟨h.api, h.sender, h.sent, h.acked, h.reported⟩
  | prepared =>
    simp only [step, Option.ite_none_right_eq_some, Option.some.injEq] at hstep
    obtain ⟨hs, rfl⟩ := hstep
    exact ⟨h.api, h.sender, h.sent.stage (by rw [hs]; exact id), h.acked,
      fun hr => absurd (h.reported hr) (by rw [hs]; exact id)⟩
  | notRun =>
    simp only [step, Option.ite_none_right_eq_some, Option.some.injEq] at hstep
    obtain ⟨hs, rfl⟩ := hstep
    exact ⟨h.api, ⟨h.sender.nextSeq, h.sender.pending⟩, h.sent.stage (by rw [hs]; exact False.elim),
      h.acked, fun hr => absurd (h.reported hr) (by rw [hs]; exact id)⟩
  | event e =>
    simp only [step, Option.ite_none_right_eq_some, Option.some.injEq] at hstep
    obtain ⟨hs, rfl⟩ := hstep
    have hopen : ¬ s.stage.Closed := by rw [hs]; exact id
    have hsent := h.sent
    rw [hs] at hsent
    refine ⟨h.api.produce (fun hr => hopen (h.reported hr)) e, h.sender.add e, ?_, h.acked,
      h.reported⟩
    simpa only [hs] using hsent.produce e
  | processEnded =>
    simp only [step, Option.ite_none_right_eq_some, Option.some.injEq] at hstep
    obtain ⟨hs, rfl⟩ := hstep
    exact ⟨h.api, ⟨h.sender.nextSeq, h.sender.pending⟩, h.sent.stage (by rw [hs]; exact False.elim),
      h.acked, fun hr => absurd (h.reported hr) (by rw [hs]; exact id)⟩
  | joined =>
    simp only [step] at hstep
    split at hstep
    · next heed hs =>
      obtain rfl := Option.some.inj hstep
      exact ⟨h.api, ⟨h.sender.nextSeq, h.sender.pending⟩,
        h.sent.stage (by rw [hs]; exact False.elim), h.acked,
        fun hr => absurd (h.reported hr) (by rw [hs]; exact id)⟩
    · exact absurd hstep (by simp)
  | poll =>
    simp only [step, Option.ite_none_right_eq_some] at hstep
    obtain ⟨-, hstep⟩ := hstep
    split at hstep
    · exact absurd hstep (by simp)
    · obtain rfl := Option.some.inj hstep
      exact ⟨h.api, h.sender, h.sent, h.acked, h.reported⟩
    · next body hpost =>
      obtain rfl := Option.some.inj hstep
      have hbatch := h.sender.poll hpost
      exact ⟨h.api, h.sender, h.sent.post
        ⟨fun b hb => by rw [Request.events.inj (List.mem_singleton.mp hb)]; exact hbatch,
          fun b hb => absurd (List.mem_singleton.mp hb) (by simp)⟩, h.acked, h.reported⟩
  | transportError =>
    simp only [step] at hstep
    split at hstep
    · obtain rfl := Option.some.inj hstep
      exact ⟨h.api, h.sender, h.sent, h.acked, h.reported⟩
    · exact absurd hstep (by simp)
  | receive answer =>
    simp only [step] at hstep
    split at hstep
    · simp only [Option.ite_none_right_eq_some, Option.some.injEq] at hstep
      obtain ⟨hmem, rfl⟩ := hstep
      exact h.react _ (h.within hmem)
    · exact absurd hstep (by simp)
  | otherStatus code =>
    simp only [step] at hstep
    split at hstep
    · obtain rfl := Option.some.inj hstep
      exact h.react _ trivial
    · exact absurd hstep (by simp)
  | stop reason =>
    obtain rfl := Option.some.inj hstep
    exact ⟨h.api, h.sender, h.sent, h.acked, h.reported⟩
  | report status returnCode reason =>
    simp only [step, Option.ite_none_right_eq_some, Option.some.injEq] at hstep
    obtain ⟨hs, rfl⟩ := hstep
    refine ⟨h.api, h.sender, h.sent.post
      ⟨fun b hb => absurd (List.mem_singleton.mp hb) (by simp), fun b hb => ?_⟩, h.acked,
      h.reported⟩
    rw [Request.complete.inj (List.mem_singleton.mp hb)]
    exact ⟨h.sender.lastSeq, by simp only [hs]; trivial⟩
  | reportOver =>
    simp only [step, Option.ite_none_right_eq_some, Option.some.injEq] at hstep
    obtain ⟨hs, rfl⟩ := hstep
    exact ⟨h.api, h.sender, h.sent.stage fun _ => trivial, h.acked, fun _ => trivial⟩
  | deliver request =>
    simp only [step] at hstep
    split at hstep
    · next r hr =>
      obtain rfl := Option.some.inj hstep
      exact h.deliver hr
    · exact absurd hstep (by simp)
  | deliverLost request =>
    simp only [step] at hstep
    split at hstep
    · next r hr =>
      obtain rfl := Option.some.inj hstep
      exact h.deliverLost r
    · exact absurd hstep (by simp)
  | heartbeat =>
    obtain rfl := Option.some.inj hstep
    unfold InternalApi.heartbeat
    split
    · exact h.touch rfl rfl rfl rfl
    · exact h
  | egress report =>
    obtain rfl := Option.some.inj hstep
    unfold InternalApi.egressReport
    split
    · exact h
    · exact h.touch rfl rfl rfl rfl
  | cancel user =>
    obtain rfl := Option.some.inj hstep
    exact h.cancel user
  | reap rule =>
    simp only [step, Option.ite_none_right_eq_some] at hstep
    obtain ⟨ha, hstep⟩ := hstep
    obtain rfl := Option.some.inj hstep
    exact h.reap ha
  | reapLost rule =>
    simp only [step, Option.ite_none_right_eq_some] at hstep
    obtain ⟨-, hstep⟩ := hstep
    obtain rfl := Option.some.inj hstep
    exact ⟨h.api.writeLost rfl, h.sender, h.sent, h.acked, h.reported⟩

theorem inv_reachable {s : State ε}
    (h : (system hashToken fmt claimToken lease).Reachable s) : Inv hashToken fmt claimToken s :=
  Lib.System.Inductive.of_reachable
    ⟨fun _ => inv_init, fun s a t hi _ hstep => inv_step s a t hi hstep⟩ h

/-- **The event log is exactly-once.** In every state, the committed log is the first `k` events
the worker numbered, in order and each once, and after them AnsiDeck's own line if, and only if,
AnsiDeck ended the run itself; every event the sender takes for acknowledged is among them; and a
run that ended through its worker's report has every event it produced. -/
theorem committed_log {s : State ε} (h : (system hashToken fmt claimToken lease).Reachable s) :
    ∃ k ≤ s.produced.length,
      s.run.committed s.file = RunLog.lines fmt (s.produced.take k) ++ note fmt s.run s.ended ∧
      s.acked ≤ k ∧
      (s.ended = none → s.run.status = .running ∧ s.run.logSeq = k) ∧
      (s.ended = some .reported → s.run.logSeq = k ∧ k = s.produced.length) := by
  have hi := inv_reachable h
  refine ⟨logged s.run s.ended, hi.api.le_produced, hi.api.committed, hi.acked, fun hn => ?_,
    fun hr => ?_⟩
  · exact ⟨(hi.api.live hn).1, by rw [hn]; rfl⟩
  · have := hi.api.reported hr
    rw [hr]
    exact ⟨rfl, this⟩

/-! ## A retried batch, and a run the reaper ended -/

/-- A run whose job was just handed out. -/
def handedOut : State Nat where
  now := 0
  run := {
    inventoryId := some 1
    status := .running
    queuedAt := 0
    claimedAt := some 0
    leaseExpiresAt := some 60
    claimTokenHash := some "claim" }
  file := []

theorem handedOut_init : Init id "claim" handedOut := ⟨rfl, rfl, rfl, rfl, rfl⟩

/-- The answer to the first batch is lost; the retry carries one event more, and then a copy of
the first batch arrives again. -/
def retriedBatch : List (Label Nat) :=
  [.prepared, .event 7, .poll, .deliver 0, .transportError, .event 8, .poll, .deliver 1,
    .deliver 0, .receive (.acked 2 false), .processEnded, .poll, .joined,
    .report .success (some 0) none, .deliver 2]

/-- The state after the retried batch and the report: both events, each once. -/
theorem committed_log_retried :
    let s := ((system id byteFormat "claim" 60).run Lib.anyStep handedOut retriedBatch).get rfl
    ∃ k ≤ s.produced.length,
      s.run.committed s.file = RunLog.lines byteFormat (s.produced.take k)
        ++ note byteFormat s.run s.ended ∧
      s.acked ≤ k ∧
      (s.ended = none → s.run.status = .running ∧ s.run.logSeq = k) ∧
      (s.ended = some .reported → s.run.logSeq = k ∧ k = s.produced.length) :=
  committed_log (Lib.System.ReachableBy.of_isSome handedOut_init retriedBatch rfl)

/-- The log of a run the reaper ended is no prefix of its worker's events: its last line is
AnsiDeck's own. -/
theorem reaped_log_has_own_line : ¬ ∀ s : State Nat,
    (system id byteFormat "claim" 60).Reachable s →
      ∃ k, s.run.committed s.file = RunLog.lines byteFormat (s.produced.take k) := by
  intro h
  obtain ⟨k, hk⟩ := h _ (Lib.System.ReachableBy.of_isSome handedOut_init
    [.tick 61, .reap .lost] rfl)
  have hline : ([0] : Bytes) = RunLog.lines byteFormat (([] : List Nat).take k) := hk
  rw [List.take_nil] at hline
  exact absurd hline (by decide)

end EventLog

end AnsiDeck
