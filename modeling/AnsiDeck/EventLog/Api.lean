import AnsiDeck.EventLog.System
import AnsiDeck.EventLog.Numbering

/-!
# The API's side: what its row and file say about the produced events

`ApiOk` is the invariant of the row, the committed part of the file and the answers given so far,
against the events the worker has produced. Each handler preserves it, whichever requests arrive
and in which order, so long as a request that carries events is a batch.

Once the run ended, its claim is over and every handler answers 410: nothing changes again. The
log then holds one line more than the worker's events if it was AnsiDeck that ended the run, its
own status line, so `logged` counts the worker's.
-/

namespace AnsiDeck

namespace EventLog

open InternalApi (EventsIn CompleteIn owns)

variable {ε : Type} {hashToken : Token → Digest} {fmt : EventFormat ε} {claimToken : Token}

/-! ## What the handlers do -/

/-- An answer that claims no more than `k` logged events. -/
def Within (k : Nat) : Answer → Prop
  | .acked seq _ => seq ≤ k
  | .behind expected => expected ≤ k + 1
  | _ => True

theorem Within.mono {k l : Nat} (hkl : k ≤ l) {a : Answer} (h : Within k a) : Within l a := by
  cases a with
  | acked seq cancel => exact Nat.le_trans h hkl
  | behind expected => exact Nat.le_trans h (Nat.succ_le_succ hkl)
  | _ => trivial

/-- Nothing changed, and the answer says no more than the row; without the claim it says
nothing. -/
structure Refused (hashToken : Token → Digest) (claimToken : Token) (run : Run) (h : Handled) :
    Prop where
  run_eq : h.run = run
  write_eq : h.write = none
  within : Within run.logSeq h.answer
  disowned : owns hashToken run claimToken = false → ∀ k, Within k h.answer
  notDone : h.answer ≠ .done

theorem Refused.owned {run : Run} {a : Answer} (howns : owns hashToken run claimToken = true)
    (ha : Within run.logSeq a) (hd : a ≠ .done) :
    Refused hashToken claimToken run (InternalApi.unchanged run a) :=
  ⟨rfl, rfl, ha, fun h => absurd (howns.symm.trans h) (by simp), hd⟩

theorem Refused.silent {run : Run} {a : Answer} (ha : ∀ k, Within k a) (hd : a ≠ .done) :
    Refused hashToken claimToken run (InternalApi.unchanged run a) :=
  ⟨rfl, rfl, ha _, fun _ => ha, hd⟩

/-- Both endpoints look at the body and then at the claim before anything else. -/
theorem refused_or_owned (hashToken : Token → Digest) (claimToken : Token)
    (run : Run) (valid : Bool)
    (h : Handled) :
    Refused hashToken claimToken run
        (if !valid then InternalApi.unchanged run (.refused 422)
          else if !owns hashToken run claimToken then InternalApi.unchanged run .gone else h) ∨
      (valid = true ∧ owns hashToken run claimToken = true ∧
        (if !valid then InternalApi.unchanged run (.refused 422)
          else if !owns hashToken run claimToken then InternalApi.unchanged run .gone else h) =
              h) := by
  cases valid with
  | false => exact .inl (.silent (fun _ => trivial) (by simp))
  | true =>
    cases howns : owns hashToken run claimToken with
    | false => exact .inl (.silent (fun _ => trivial) (by simp))
    | true => exact .inr ⟨rfl, rfl, rfl⟩

/-- `/events` either refuses or appends what the log doesn't have yet. -/
theorem events_cases (hashToken : Token → Digest) (fmt : EventFormat ε) (claimToken : Token)
    (run : Run) (body : EventsIn ε) :
    Refused hashToken claimToken run
      (InternalApi.events hashToken fmt run claimToken body) ∨
    (owns hashToken run claimToken = true ∧ body.firstSeq ≤ run.logSeq + 1 ∧
      body.events.drop (run.logSeq + 1 - body.firstSeq) ≠ [] ∧
      InternalApi.events hashToken fmt run claimToken body =
        let data := RunLog.lines fmt (body.events.drop (run.logSeq + 1 - body.firstSeq))
        let acked := body.firstSeq + body.events.length - 1
        ⟨{ run with logBytes := run.logBytes + data.length, logSeq := acked },
          some ⟨run.logBytes, data⟩, .acked acked run.cancelRequestedAt.isSome⟩) := by
  unfold InternalApi.events
  rcases refused_or_owned hashToken claimToken run body.valid _ with hrefused | ⟨-, howns, heq⟩
  · exact .inl hrefused
  rw [heq]
  by_cases hgap : run.logSeq + 1 < body.firstSeq
  · exact .inl (by simpa [hgap] using Refused.owned howns (Nat.le_refl _) (by simp))
  by_cases hfresh : body.events.drop (run.logSeq + 1 - body.firstSeq) = []
  · exact .inl (by simpa [hgap, hfresh] using Refused.owned howns (Nat.le_refl _) (by simp))
  · refine .inr ⟨howns, Nat.le_of_not_lt hgap, hfresh, ?_⟩
    simp only [if_neg hgap, List.isEmpty_iff, hfresh, RunLog.appendEvents]
    rfl

/-- `/complete` either refuses or ends the run with every event logged. -/
theorem complete_cases (hashToken : Token → Digest) (claimToken : Token) (now : Time) (run : Run)
    (body : CompleteIn) :
    Refused hashToken claimToken run
      (InternalApi.complete hashToken now run claimToken body) ∨
    (owns hashToken run claimToken = true ∧ body.lastSeq = run.logSeq ∧
      ∃ run', InternalApi.complete hashToken now run claimToken body = ⟨run', none, .done⟩ ∧
        run'.status.finished = true ∧ run'.logSeq = run.logSeq ∧ run'.logBytes = run.logBytes) := by
  unfold InternalApi.complete
  rcases refused_or_owned hashToken claimToken run body.valid _ with hrefused | ⟨hvalid, howns, heq⟩
  · exact .inl hrefused
  rw [heq]
  by_cases hseq : body.lastSeq = run.logSeq
  · refine .inr ⟨howns, hseq, ?_⟩
    rw [if_neg (not_not.2 hseq)]
    exact ⟨_, rfl, hvalid, rfl, rfl⟩
  · rw [if_pos hseq]
    exact .inl (.owned howns (Nat.le_refl _) (by simp))

/-! ## The invariant -/

/-- How many of the worker's events are logged. -/
def logged (run : Run) : Option Ending → Nat
  | some (.byAnsiDeck _) => run.logSeq - 1
  | _ => run.logSeq

@[simp] theorem logged_none (run : Run) : logged run none = run.logSeq := rfl

@[simp] theorem logged_reported (run : Run) : logged run (some .reported) = run.logSeq := rfl

@[simp] theorem logged_byAnsiDeck (run : Run) (reason : String) :
    logged run (some (.byAnsiDeck reason)) = run.logSeq - 1 := rfl

/-- AnsiDeck's own line, once it ended the run. -/
def note (fmt : EventFormat ε) (run : Run) : Option Ending → Bytes
  | some (.byAnsiDeck reason) =>
    RunLog.lines fmt [fmt.statusEvent run.logSeq s!"AnsiDeck: {reason}"]
  | _ => []

structure ApiOk (hashToken : Token → Digest) (fmt : EventFormat ε) (claimToken : Token)
    (produced : List ε) (run : Run) (file : Bytes) (ended : Option Ending)
    (answers : List (Nat × Answer)) : Prop where
  /-- The claim owns the run until something ends it. -/
  live : ended = none → run.status = .running ∧ run.claimTokenHash = some (hashToken claimToken)
  overFinished : ended ≠ none → run.status.finished = true
  le_produced : logged run ended ≤ produced.length
  fits : run.logBytes ≤ file.length
  committed : run.committed file
    = RunLog.lines fmt (produced.take (logged run ended)) ++ note fmt run ended
  answered : ∀ p ∈ answers, Within (logged run ended) p.2
  reported : ended = some .reported → run.logSeq = produced.length

section

variable {produced : List ε} {run : Run} {file : Bytes} {ended : Option Ending}
  {answers : List (Nat × Answer)}

theorem ApiOk.init (fmt : EventFormat ε) (file : Bytes) (hrun : run.status = .running)
    (hown : run.claimTokenHash = some (hashToken claimToken)) (hseq : run.logSeq = 0)
    (hbytes : run.logBytes = 0) :
    ApiOk hashToken fmt claimToken [] run file none [] where
  live _ := ⟨hrun, hown⟩
  overFinished h := absurd rfl h
  le_produced := by simp [logged, hseq]
  fits := by rw [hbytes]; exact Nat.zero_le _
  committed := by simp [Run.committed, hbytes, RunLog.lines, note]
  answered := by simp
  reported h := absurd h (by simp)

/-- The claim is over exactly when something ended the run. -/
theorem ApiOk.owns_iff (h : ApiOk hashToken fmt claimToken produced run file ended answers) :
    owns hashToken run claimToken = true ↔ ended = none := by
  constructor
  · intro howns
    by_contra hne
    have hstatus : run.status = .running := by
      simp only [owns, Bool.and_eq_true, decide_eq_true_eq] at howns
      exact howns.1
    have := h.overFinished hne
    rw [hstatus] at this
    exact absurd this (by decide)
  · intro hnone
    simp [owns, (h.live hnone).1, (h.live hnone).2]

/-- The worker numbers one more event. -/
theorem ApiOk.produce (h : ApiOk hashToken fmt claimToken produced run file ended answers)
    (hended : ended ≠ some .reported) (e : ε) :
    ApiOk hashToken fmt claimToken (produced ++ [e]) run file ended answers where
  live := h.live
  overFinished := h.overFinished
  le_produced := by have := h.le_produced; simp; omega
  fits := h.fits
  committed := by rw [List.take_append_of_le_length h.le_produced]; exact h.committed
  answered := h.answered
  reported h' := absurd h' hended

/-- A write whose transaction never committed leaves the committed bytes alone. -/
theorem ApiOk.writeLost (h : ApiOk hashToken fmt claimToken produced run file ended answers)
    {w : LogWrite} (hw : w.offset = run.logBytes) :
    ApiOk hashToken fmt claimToken produced run (w.apply file) ended answers where
  live := h.live
  overFinished := h.overFinished
  le_produced := h.le_produced
  fits := by rw [length_apply (by rw [hw]; exact h.fits), hw]; exact Nat.le_add_right _ _
  committed := by
    rw [Run.committed, ← hw, take_apply (by rw [hw]; exact h.fits), hw]
    exact h.committed
  answered := h.answered
  reported := h.reported

/-- A change to other columns. -/
theorem ApiOk.touch (h : ApiOk hashToken fmt claimToken produced run file ended answers)
    {run' : Run} (hstatus : run'.status = run.status)
    (hclaim : run'.claimTokenHash = run.claimTokenHash) (hseq : run'.logSeq = run.logSeq)
    (hbytes : run'.logBytes = run.logBytes) :
    ApiOk hashToken fmt claimToken produced run' file ended answers := by
  have hlogged : logged run' ended = logged run ended := by
    cases ended with
    | none => exact hseq
    | some e => cases e <;> simp [logged, hseq]
  have hnote : note fmt run' ended = note fmt run ended := by
    cases ended with
    | none => rfl
    | some e => cases e <;> simp [note, hseq]
  exact {
    live := by rw [hstatus, hclaim]; exact h.live
    overFinished := by rw [hstatus]; exact h.overFinished
    le_produced := by rw [hlogged]; exact h.le_produced
    fits := by rw [hbytes]; exact h.fits
    committed := by rw [Run.committed, hbytes, hlogged, hnote]; exact h.committed
    answered := by rw [hlogged]; exact h.answered
    reported := by rw [hseq]; exact h.reported }

/-- An answer that says no more than the log. -/
theorem ApiOk.answer (h : ApiOk hashToken fmt claimToken produced run file ended answers)
    (request : Nat) {a : Answer} (ha : Within (logged run ended) a) :
    ApiOk hashToken fmt claimToken produced run file ended ((request, a) :: answers) :=
  { h with
    answered := by
      intro p hp
      rcases List.mem_cons.mp hp with rfl | hp
      · exact ha
      · exact h.answered p hp }

/-- A refused request adds its answer and nothing else. -/
theorem ApiOk.refused (h : ApiOk hashToken fmt claimToken produced run file ended answers)
    (request : Nat) {handled : Handled} (hr : Refused hashToken claimToken run handled) :
    ApiOk hashToken fmt claimToken produced handled.run (written file handled.write) ended
      ((request, handled.answer) :: answers) := by
  rw [hr.run_eq, hr.write_eq]
  refine h.answer request ?_
  by_cases hended : ended = none
  · subst hended
    exact hr.within
  · refine hr.disowned ?_ _
    rw [← Bool.not_eq_true, h.owns_iff]
    exact hended

/-- A batch that is accepted extends the log by exactly the events it lacks. -/
theorem ApiOk.append (h : ApiOk hashToken fmt claimToken produced run file none answers)
    (request : Nat) {body : EventsIn ε} (hbatch : IsBatch produced body)
    (hfirst : body.firstSeq ≤ run.logSeq + 1)
    (hfresh : body.events.drop (run.logSeq + 1 - body.firstSeq) ≠ []) (cancel : Bool) :
    let data := RunLog.lines fmt (body.events.drop (run.logSeq + 1 - body.firstSeq))
    let acked := body.firstSeq + body.events.length - 1
    run.logSeq ≤ acked ∧
    ApiOk hashToken fmt claimToken produced
      { run with logBytes := run.logBytes + data.length, logSeq := acked }
      ((⟨run.logBytes, data⟩ : LogWrite).apply file) none
      ((request, .acked acked cancel) :: answers) := by
  intro data acked
  obtain ⟨hle, hlen, htake⟩ := hbatch.append_fresh hfirst hfresh
  have hfits : run.logBytes ≤ file.length := h.fits
  have hlength : ((⟨run.logBytes, data⟩ : LogWrite).apply file).length
      = run.logBytes + data.length := length_apply hfits
  refine ⟨hle, ?_⟩
  exact {
    live := h.live
    overFinished := fun hne => absurd rfl hne
    le_produced := hlen
    fits := Nat.le_of_eq hlength.symm
    committed := by
      have hc : file.take run.logBytes = RunLog.lines fmt (produced.take run.logSeq) := by
        simpa [Run.committed, note] using h.committed
      change (LogWrite.apply ⟨run.logBytes, data⟩ file).take (run.logBytes + data.length)
        = RunLog.lines fmt (produced.take acked) ++ []
      rw [apply_eq hfits, List.append_nil, ← htake, RunLog.lines_append, ← hc]
      refine List.take_of_length_le (Nat.le_of_eq ?_)
      rw [List.length_append, List.length_take, Nat.min_eq_left hfits]
    answered := by
      intro p hp
      rcases List.mem_cons.mp hp with rfl | hp
      · exact Nat.le_refl _
      · exact (h.answered p hp).mono hle
    reported := fun h' => absurd h' (by simp) }

/-- The worker's report ends the run with everything it produced in the log. -/
theorem ApiOk.complete (h : ApiOk hashToken fmt claimToken produced run file none answers)
    (request : Nat) {run' : Run} (hstatus : run'.status.finished = true)
    (hseq : run'.logSeq = run.logSeq) (hbytes : run'.logBytes = run.logBytes)
    (hall : run.logSeq = produced.length) :
    ApiOk hashToken fmt claimToken produced run' file (some .reported)
      ((request, .done) :: answers) where
  live h' := absurd h' (by simp)
  overFinished _ := hstatus
  le_produced := Nat.le_of_eq (by rw [logged_reported, hseq, hall])
  fits := by rw [hbytes]; exact h.fits
  committed := by
    rw [Run.committed, hbytes, logged_reported, hseq]
    exact h.committed
  answered := by
    intro p hp
    rcases List.mem_cons.mp hp with rfl | hp
    · trivial
    · rw [logged_reported, hseq]; exact h.answered p hp
  reported _ := by rw [hseq, hall]

/-- AnsiDeck ends the run: its own line follows the worker's events. -/
theorem ApiOk.failed (h : ApiOk hashToken fmt claimToken produced run file none answers)
    (now : Time) {status : RunStatus} (hstatus : status.finished = true) (reason : String) :
    ApiOk hashToken fmt claimToken produced (failRun fmt now run status reason).1
      ((failRun fmt now run status reason).2.apply file) (some (.byAnsiDeck reason)) answers where
  live h' := absurd h' (by simp)
  overFinished _ := hstatus
  le_produced := by simpa using h.le_produced
  fits := by
    have hlength : ((failRun fmt now run status reason).2.apply file).length
        = run.logBytes + (statusLine fmt run reason).length := length_apply h.fits
    exact Nat.le_of_eq hlength.symm
  committed := by
    have hfits : run.logBytes ≤ file.length := h.fits
    have hc : file.take run.logBytes = RunLog.lines fmt (produced.take run.logSeq) := by
      simpa [Run.committed, note] using h.committed
    have hlen : (file.take run.logBytes ++ statusLine fmt run reason).length
        = run.logBytes + (statusLine fmt run reason).length := by
      rw [List.length_append, List.length_take, Nat.min_eq_left hfits]
    rw [Run.committed, failRun_write, failRun_logBytes, apply_eq hfits,
      List.take_of_length_le (Nat.le_of_eq hlen), hc]
    rfl
  answered := by simpa using h.answered
  reported h' := absurd h' (by simp)

end

end EventLog

end AnsiDeck
