import AnsiDeck.EventLog.Api
import AnsiDeck.LiveLog.System

/-!
# What is committed of a run's log

However its appends stop, the file begins with the lines of the calls that committed: an append
that never commits cuts the file at the committed length and writes behind it, and so does the
next one. What it left there is longer or shorter than what comes next; the cut is what makes that
not matter.
-/

namespace AnsiDeck

namespace LiveLog

open InternalApi (owns)
open RunLog (lines)

variable {ε : Type} {hashToken : Token → Digest} {fmt : EventFormat ε}

/-! ## The calls -/

/-- A run is finished from its end on. -/
def Timed (run : Run) : Prop := run.status.active = true ↔ run.finishedAt = none

/-- A call left the log alone. -/
structure Silent (run : Run) (h : Handled) : Prop where
  write : h.write = none
  logBytes : h.run.logBytes = run.logBytes
  logSeq : h.run.logSeq = run.logSeq

/-- A call appends these events. -/
structure Appends (fmt : EventFormat ε) (run : Run) (fresh : List ε) (h : Handled) : Prop where
  active : run.status.active = true
  write : h.write = some ⟨run.logBytes, lines fmt fresh⟩
  logBytes : h.run.logBytes = run.logBytes + (lines fmt fresh).length
  logSeq : h.run.logSeq = run.logSeq + fresh.length

theorem active_of_owns {run : Run} {claimToken : Token}
    (h : owns hashToken run claimToken = true) : run.status.active = true := by
  simp only [owns, Bool.and_eq_true, decide_eq_true_eq] at h
  rw [h.1]
  rfl

theorem Call.handle_fail {now : Time} {status : RunStatus} {reason : String} {run : Run}
    {h : Handled} (hc : (Call.fail now status reason : Call ε).handle hashToken fmt run = some h) :
    (run.status.active = true ∧ status.finished = true) ∧
      h = ⟨(failRun fmt now run status reason).1, some (failRun fmt now run status reason).2,
        .done⟩ := by
  simp only [Call.handle] at hc
  split at hc
  · rename_i hguard
    exact ⟨hguard, (Option.some.inj hc).symm⟩
  · exact absurd hc (by simp)

/-- What a call does to the log. -/
theorem Call.handle_log {c : Call ε} {run : Run} {h : Handled}
    (hc : c.handle hashToken fmt run = some h) :
    Silent run h ∨ Appends fmt run (c.fresh fmt run) h := by
  cases c with
  | events claimToken body =>
    obtain rfl := Option.some.inj hc
    rcases EventLog.events_cases hashToken fmt claimToken run body with hr | ⟨howns, hgap, hne, heq⟩
    · exact .inl ⟨hr.write_eq, by rw [hr.run_eq], by rw [hr.run_eq]⟩
    · have hlen : 0 < (body.events.drop (run.logSeq + 1 - body.firstSeq)).length :=
        List.length_pos_iff.mpr hne
      refine .inr ⟨active_of_owns howns, by rw [heq]; rfl, by rw [heq]; rfl, ?_⟩
      rw [heq]
      simp only [Call.fresh, List.length_drop] at hlen ⊢
      omega
  | complete claimToken now body =>
    obtain rfl := Option.some.inj hc
    rcases EventLog.complete_cases hashToken claimToken now run body with
      hr | ⟨-, -, run', heq, -, hseq, hbytes⟩
    · exact .inl ⟨hr.write_eq, by rw [hr.run_eq], by rw [hr.run_eq]⟩
    · exact .inl ⟨by rw [heq], by rw [heq, hbytes], by rw [heq, hseq]⟩
  | fail now status reason =>
    obtain ⟨hguard, rfl⟩ := handle_fail hc
    exact .inr ⟨hguard.1, rfl, rfl, rfl⟩

/-- A run that has ended stays as it is. -/
theorem Call.handle_ended {c : Call ε} {run : Run} {h : Handled}
    (hc : c.handle hashToken fmt run = some h) (hended : run.status.active = false) :
    h.run = run ∧ h.write = none := by
  cases c with
  | events claimToken body =>
    obtain rfl := Option.some.inj hc
    rcases EventLog.events_cases hashToken fmt claimToken run body with hr | ⟨howns, -⟩
    · exact ⟨hr.run_eq, hr.write_eq⟩
    · exact absurd (active_of_owns howns) (by simp [hended])
  | complete claimToken now body =>
    obtain rfl := Option.some.inj hc
    rcases EventLog.complete_cases hashToken claimToken now run body with hr | ⟨howns, -⟩
    · exact ⟨hr.run_eq, hr.write_eq⟩
    · exact absurd (active_of_owns howns) (by simp [hended])
  | fail now status reason =>
    obtain ⟨hguard, -⟩ := handle_fail hc
    exact absurd hguard.1 (by simp [hended])

theorem Call.handle_timed {c : Call ε} {run : Run} {h : Handled}
    (hc : c.handle hashToken fmt run = some h) (ht : Timed run) : Timed h.run := by
  cases c with
  | events claimToken body =>
    obtain rfl := Option.some.inj hc
    rcases EventLog.events_cases hashToken fmt claimToken run body with hr | ⟨-, -, -, heq⟩
    · rw [hr.run_eq]; exact ht
    · rw [heq]; exact ht
  | complete claimToken now body =>
    obtain rfl := Option.some.inj hc
    unfold InternalApi.complete
    split
    · exact ht
    split
    · exact ht
    split
    · exact ht
    · rename_i hvalid _ _
      have hended : body.status.active = false := by
        simpa [InternalApi.CompleteIn.valid, RunStatus.finished] using hvalid
      simp [Timed, hended]
  | fail now status reason =>
    obtain ⟨hguard, rfl⟩ := handle_fail hc
    have hended : status.active = false := by simpa [RunStatus.finished] using hguard.2
    show status.active = true ↔ some now = none
    simp [hended]

/-! ## The file -/

/-- An append under way: what it will commit, and what of it is in the file. -/
structure Underway (fmt : EventFormat ε) (s : State ε) (a : Append ε) : Prop where
  active : s.run.status.active = true
  timed : Timed a.after
  offset : a.write.offset = s.run.logBytes
  data : a.write.data = lines fmt a.fresh
  logBytes : a.after.logBytes = s.run.logBytes + (lines fmt a.fresh).length
  logSeq : a.after.logSeq = s.run.logSeq + a.fresh.length
  written : a.written ≤ a.write.data.length
  uncut : a.cut = false → a.written = 0
  file : a.cut = true → s.file = lines fmt s.events ++ a.write.data.take a.written

/-- **The file begins with the lines of the committed calls**, as long as the row says. -/
structure Logged (fmt : EventFormat ε) (s : State ε) : Prop where
  timed : Timed s.run
  committed : lines fmt s.events <+: s.file
  logBytes : s.run.logBytes = (lines fmt s.events).length
  logSeq : s.run.logSeq = s.events.length
  append : ∀ a, s.append = some a → Underway fmt s a

theorem Logged.take_logBytes {s : State ε} (h : Logged fmt s) :
    s.run.committed s.file = lines fmt s.events := by
  rw [Run.committed, h.logBytes]
  exact (List.prefix_iff_eq_take.1 h.committed).symm

theorem Logged.init {s : State ε} (h : Init s) : Logged fmt s := by
  have heq := h.fresh
  have hevents : s.events = [] := by rw [heq]
  have happend : s.append = none := by rw [heq]
  exact {
    timed := by simp [Timed, h.active, h.unfinished]
    committed := by rw [hevents]; exact List.nil_prefix
    logBytes := by rw [h.logBytes, hevents]; rfl
    logSeq := by rw [h.logSeq, hevents]; rfl
    append := by simp [happend] }

/-- A step that leaves the writing side as it is. -/
theorem Logged.frame {s t : State ε} (h : Logged fmt s) (hrun : t.run = s.run)
    (hfile : t.file = s.file) (happend : t.append = s.append) (hevents : t.events = s.events) :
    Logged fmt t := by
  refine ⟨hrun ▸ h.timed, by rw [hevents, hfile]; exact h.committed,
    by rw [hrun, hevents]; exact h.logBytes, by rw [hrun, hevents]; exact h.logSeq, ?_⟩
  intro a ha
  have hu := h.append a (happend ▸ ha)
  exact ⟨hrun ▸ hu.active, hu.timed, hrun ▸ hu.offset, hu.data, hrun ▸ hu.logBytes,
    hrun ▸ hu.logSeq, hu.written, hu.uncut, by rw [hfile, hevents]; exact hu.file⟩

/-- A change of the row, while nothing is being appended. -/
theorem Logged.row {s : State ε} (h : Logged fmt s) {run : Run} (hidle : s.append = none)
    (ht : Timed run) (hbytes : run.logBytes = s.run.logBytes) (hseq : run.logSeq = s.run.logSeq) :
    Logged fmt { s with run } :=
  ⟨ht, h.committed, hbytes.trans h.logBytes, hseq.trans h.logSeq, by simp [hidle]⟩

/-- One more piece of the data reaches the file. -/
theorem Underway.put {s : State ε} {a : Append ε} (hl : Logged fmt s) (hu : Underway fmt s a)
    (hcut : a.cut = true) (count : Nat) :
    writeAt (a.write.offset + a.written) ((a.write.data.drop a.written).take count) s.file =
      lines fmt s.events ++ a.write.data.take (a.written + count) := by
  have hfile := hu.file hcut
  have hlen : a.write.offset + a.written = s.file.length := by
    rw [hfile, List.length_append, List.length_take, Nat.min_eq_left hu.written, hu.offset,
      hl.logBytes]
  rw [hlen, writeAt_length, hfile, List.append_assoc, ← List.take_add]

/-! ## The writing side's steps -/

/-- What one step of the writing side does. -/
inductive Writes (hashToken : Token → Digest) (fmt : EventFormat ε) (s : State ε) : State ε → Prop
  /-- The run is claimed or given back, and its log stays. -/
  | moved (run : Run) (idle : s.append = none)
      (active : s.run.status.active = true ∧ run.status.active = true)
      (finishedAt : run.finishedAt = s.run.finishedAt) (logBytes : run.logBytes = s.run.logBytes)
      (logSeq : run.logSeq = s.run.logSeq) : Writes hashToken fmt s { s with run }
  /-- A call changes the row at once. -/
  | called (c : Call ε) (h : Handled) (idle : s.append = none)
      (handled : c.handle hashToken fmt s.run = some h) (silent : h.write = none) :
      Writes hashToken fmt s { s with run := h.run }
  /-- A call begins its append. -/
  | begun (c : Call ε) (h : Handled) (write : LogWrite) (idle : s.append = none)
      (handled : c.handle hashToken fmt s.run = some h) (writes : h.write = some write) :
      Writes hashToken fmt s
        { s with append := some { after := h.run, write, fresh := c.fresh fmt s.run } }
  | cut (a : Append ε) (underway : s.append = some a) (uncut : a.cut = false) :
      Writes hashToken fmt s
        { s with file := truncate a.write.offset s.file, append := some { a with cut := true } }
  | put (a : Append ε) (count : Nat) (underway : s.append = some a) (cut : a.cut = true)
      (room : a.written + count ≤ a.write.data.length) :
      Writes hashToken fmt s { s with
        file := writeAt (a.write.offset + a.written)
          ((a.write.data.drop a.written).take count) s.file
        append := some { a with written := a.written + count } }
  | committed (a : Append ε) (underway : s.append = some a) (cut : a.cut = true)
      (written : a.written = a.write.data.length) :
      Writes hashToken fmt s
        { s with run := a.after, events := s.events ++ a.fresh, append := none }
  | stopped (a : Append ε) (underway : s.append = some a) :
      Writes hashToken fmt s { s with append := none }

/-- The labels of the writing side. -/
def Label.writes : Label ε → Bool
  | .claim _ | .requeue | .call _ | .cut | .put _ | .commit | .stop => true
  | _ => false

/-- The viewer changes nothing of the log. -/
theorem frame_of_reader {s t : State ε} {label : Label ε} (hw : label.writes = false)
    (hstep : step hashToken fmt s label = some t) :
    t.run = s.run ∧ t.file = s.file ∧ t.append = s.append ∧ t.events = s.events := by
  cases label <;> simp only [Label.writes, Bool.true_eq_false] at hw
  case connect =>
    simp only [step] at hstep
    split at hstep
    · obtain rfl := Option.some.inj hstep
      exact ⟨rfl, rfl, rfl, rfl⟩
    · exact absurd hstep (by simp)
  case drop =>
    obtain ⟨v, -, rfl⟩ := Option.map_eq_some_iff.1 hstep
    exact ⟨rfl, rfl, rfl, rfl⟩
  all_goals obtain ⟨v, -, hstep⟩ := Option.bind_eq_some_iff.1 hstep
  case receive =>
    split at hstep
    · obtain rfl := Option.some.inj hstep
      exact ⟨rfl, rfl, rfl, rfl⟩
    · exact absurd hstep (by simp)
  case close =>
    split at hstep
    · obtain rfl := Option.some.inj hstep
      exact ⟨rfl, rfl, rfl, rfl⟩
    · exact absurd hstep (by simp)
  all_goals
    obtain ⟨v', -, rfl⟩ := Option.map_eq_some_iff.1 hstep
    exact ⟨rfl, rfl, rfl, rfl⟩

theorem writes_of_step {s t : State ε} {label : Label ε} (hw : label.writes = true)
    (hstep : step hashToken fmt s label = some t) : Writes hashToken fmt s t := by
  cases label <;> simp only [Label.writes, Bool.false_eq_true] at hw
  case claim digest =>
    simp only [step] at hstep
    split at hstep
    · rename_i hguard
      obtain rfl := Option.some.inj hstep
      have hactive : s.run.status.active = true := by rw [hguard.2]; rfl
      exact .moved _ (Option.isNone_iff_eq_none.1 hguard.1) ⟨hactive, rfl⟩ rfl rfl rfl
    · exact absurd hstep (by simp)
  case requeue =>
    simp only [step] at hstep
    split at hstep
    · rename_i hguard
      obtain rfl := Option.some.inj hstep
      have hactive : s.run.status.active = true := by rw [hguard.2]; rfl
      exact .moved _ (Option.isNone_iff_eq_none.1 hguard.1) ⟨hactive, rfl⟩ rfl rfl rfl
    · exact absurd hstep (by simp)
  case call c =>
    simp only [step] at hstep
    split at hstep
    · rename_i hidle
      obtain ⟨h, hhandled, hstep⟩ := Option.bind_eq_some_iff.1 hstep
      split at hstep
      · rename_i write hwrite
        obtain rfl := Option.some.inj hstep
        exact .begun c h write (Option.isNone_iff_eq_none.1 hidle) hhandled hwrite
      · rename_i hwrite
        obtain rfl := Option.some.inj hstep
        exact .called c h (Option.isNone_iff_eq_none.1 hidle) hhandled hwrite
    · exact absurd hstep (by simp)
  all_goals
    obtain ⟨a, ha, hstep⟩ := Option.bind_eq_some_iff.1 hstep
    simp only [stepAppend] at hstep
  case cut =>
    split at hstep
    · exact absurd hstep (by simp)
    · rename_i hcut
      obtain rfl := Option.some.inj hstep
      exact .cut a ha (by simpa using hcut)
  case put =>
    split at hstep
    · rename_i hguard
      obtain rfl := Option.some.inj hstep
      exact .put a _ ha hguard.1 hguard.2
    · exact absurd hstep (by simp)
  case commit =>
    split at hstep
    · rename_i hguard
      obtain rfl := Option.some.inj hstep
      exact .committed a ha hguard.1 hguard.2
    · exact absurd hstep (by simp)
  case stop =>
    obtain rfl := Option.some.inj hstep
    exact .stopped a ha

/-- The writing side does not know of the viewer. -/
theorem Writes.frame {s t : State ε} (h : Writes hashToken fmt s t) :
    t.viewer = s.viewer ∧ t.received = s.received ∧ t.closed = s.closed := by
  cases h with
  | moved => exact ⟨rfl, rfl, rfl⟩
  | called => exact ⟨rfl, rfl, rfl⟩
  | begun => exact ⟨rfl, rfl, rfl⟩
  | cut => exact ⟨rfl, rfl, rfl⟩
  | put => exact ⟨rfl, rfl, rfl⟩
  | committed => exact ⟨rfl, rfl, rfl⟩
  | stopped => exact ⟨rfl, rfl, rfl⟩

theorem Logged.writes {s t : State ε} (h : Logged fmt s) (hwrites : Writes hashToken fmt s t) :
    Logged fmt t := by
  cases hwrites with
  | moved run hidle hactive hfinished hbytes hseq =>
    refine h.row hidle ⟨fun _ => ?_, fun _ => hactive.2⟩ hbytes hseq
    rw [hfinished]
    exact h.timed.1 hactive.1
  | called c out hidle hhandled hsilent =>
    have ht := Call.handle_timed hhandled h.timed
    rcases Call.handle_log hhandled with hs | hw
    · exact h.row hidle ht hs.logBytes hs.logSeq
    · rw [hw.write] at hsilent
      cases hsilent
  | begun c out write hidle hhandled hwrite =>
    have ht := Call.handle_timed hhandled h.timed
    refine ⟨h.timed, h.committed, h.logBytes, h.logSeq, fun b hb => ?_⟩
    obtain rfl := Option.some.inj hb
    rcases Call.handle_log hhandled with hs | hw
    · rw [hs.write] at hwrite
      cases hwrite
    · obtain rfl := Option.some.inj (hw.write.symm.trans hwrite)
      exact ⟨hw.active, ht, rfl, rfl, hw.logBytes, hw.logSeq, Nat.zero_le _, fun _ => rfl, by simp⟩
  | cut a ha huncut =>
    have hu := h.append a ha
    have hfile : truncate a.write.offset s.file = lines fmt s.events := by
      rw [hu.offset, h.logBytes, truncate_of_le h.committed.length_le]
      exact (List.prefix_iff_eq_take.1 h.committed).symm
    refine ⟨h.timed, by rw [hfile], h.logBytes, h.logSeq, fun b hb => ?_⟩
    obtain rfl := Option.some.inj hb
    exact { hu with
      uncut := by simp
      file := by intro _; rw [hfile, hu.uncut huncut, List.take_zero, List.append_nil] }
  | put a count ha hcut hroom =>
    have hu := h.append a ha
    have hfile := hu.put h hcut count
    refine ⟨h.timed, by rw [hfile]; exact List.prefix_append _ _, h.logBytes,
      h.logSeq, fun b hb => ?_⟩
    obtain rfl := Option.some.inj hb
    exact { hu with
      written := hroom
      uncut := by simp [hcut]
      file := fun _ => hfile }
  | committed a ha hcut hwritten =>
    have hu := h.append a ha
    have hfile : s.file = lines fmt (s.events ++ a.fresh) := by
      rw [hu.file hcut, hwritten, List.take_length, hu.data, RunLog.lines_append]
    refine ⟨hu.timed, by rw [hfile], ?_, ?_, by simp⟩
    · rw [hu.logBytes, h.logBytes, RunLog.lines_append, List.length_append]
    · rw [hu.logSeq, h.logSeq, List.length_append]
  | stopped a ha => exact ⟨h.timed, h.committed, h.logBytes, h.logSeq, by simp⟩

theorem inductive_logged {ok : State ε → Label ε → Prop} :
    (system hashToken fmt).Inductive ok (Logged fmt) where
  init _ h := Logged.init h
  step := by
    intro s label t h _ hstep
    by_cases hw : label.writes = true
    · exact h.writes (writes_of_step hw hstep)
    · obtain ⟨hrun, hfile, happend, hevents⟩ := frame_of_reader (by simpa using hw) hstep
      exact h.frame hrun hfile happend hevents

/-- **Crash-safe append**: in every state the file's first `logBytes` bytes are the lines of the
calls that committed, and `logSeq` is how many events those had. -/
theorem append_crash_safe {s : State ε} (hr : (system hashToken fmt).Reachable s) :
    s.run.committed s.file = lines fmt s.events ∧
      s.run.logBytes = (lines fmt s.events).length ∧ s.run.logSeq = s.events.length := by
  have h := inductive_logged.of_reachable hr
  exact ⟨h.take_logBytes, h.logBytes, h.logSeq⟩

/-- A claimed run that nothing was logged of. -/
def claimed : State ε :=
  { run := { inventoryId := none, status := .running, queuedAt := 0,
             claimTokenHash := some "claim" } }

theorem claimed_init : Init (claimed : State ε) := ⟨rfl, rfl, rfl, rfl, rfl⟩

/-- An append that stops after its bytes are written, one of fewer bytes that stops in the middle,
and one that commits. -/
def stoppedAppends : List (Label Bool) :=
  [.call (.events "claim" ⟨1, [true, true]⟩), .cut, .put 8, .stop,
    .call (.events "claim" ⟨1, [true]⟩), .cut, .put 2, .stop,
    .call (.events "claim" ⟨1, [false]⟩), .cut, .put 1, .put 2, .commit]

theorem append_crash_safe_stopped :
    let s := ((system id flagFormat.toEventFormat).run Lib.anyStep claimed stoppedAppends).get rfl
    s.run.committed s.file = lines flagFormat.toEventFormat s.events ∧
      s.run.logBytes = (lines flagFormat.toEventFormat s.events).length ∧
      s.run.logSeq = s.events.length :=
  append_crash_safe (Lib.System.ReachableBy.of_isSome claimed_init stoppedAppends rfl)

end LiveLog

end AnsiDeck
