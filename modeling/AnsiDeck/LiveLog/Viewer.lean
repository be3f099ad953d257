import AnsiDeck.LiveLog.Append
import Mathlib.Data.List.Basic
import Mathlib.Data.List.TakeWhile

/-!
# What the viewer of a log receives

A viewer whose reads stay in the committed part of the file receives the committed lines, in
order, each once, over any number of connections. `Following` is the invariant of one connection:
some number of committed lines is behind its tail, and what was received, is under way or is about
to be sent is those lines, or, while it still skips, what was received before.

Nothing in the viewer keeps its reads in the committed part: it does not look at `logBytes`. So
the results are about runs whose reads happen to stay there (`readsCommitted`), and one whose read
falls between an append's write and its rollback shows that others can go wrong.
-/

namespace AnsiDeck

namespace LiveLog

open RunLog (lines)

variable {ε : Type} {hashToken : Token → Digest} {fmt : LogFormat ε}

/-! ## Lines -/

theorem lines_cons (e : ε) (events : List ε) :
    lines fmt.toEventFormat (e :: events) =
      fmt.text e ++ 10 :: lines fmt.toEventFormat events := by
  simp [lines, fmt.line_eq]

theorem firstLine_of_not_mem {buffer : Bytes} (h : 10 ∉ buffer) : firstLine buffer = none := by
  have hall : ∀ b ∈ buffer, decide (b ≠ 10) = true := by
    intro b hb
    exact decide_eq_true fun heq => h (heq ▸ hb)
  have hdrop : buffer.dropWhile (· ≠ 10) = [] := List.dropWhile_eq_nil_iff.2 hall
  simp only [firstLine, hdrop]

theorem firstLine_append {text rest : Bytes} (h : 10 ∉ text) :
    firstLine (text ++ 10 :: rest) = some (text ++ [10], rest) := by
  have hall : ∀ b ∈ text, decide (b ≠ 10) = true := by
    intro b hb
    exact decide_eq_true fun heq => h (heq ▸ hb)
  have hdrop : (text ++ 10 :: rest).dropWhile (· ≠ 10) = 10 :: rest := by
    rw [List.dropWhile_append_of_pos hall]
    rfl
  have htake : (text ++ 10 :: rest).takeWhile (· ≠ 10) = text := by
    rw [List.takeWhile_append_of_pos hall]
    simp
  simp only [firstLine, hdrop, htake]

/-- What the buffer holds of the lines that follow: the whole first one, or not even that. -/
theorem firstLine_lines {buffer : Bytes} {events : List ε}
    (h : buffer <+: lines fmt.toEventFormat events) :
    (firstLine buffer = none ∧ (buffer = lines fmt.toEventFormat events → events = [])) ∨
      ∃ e events' rest, events = e :: events' ∧ firstLine buffer = some (fmt.text e ++ [10], rest) ∧
        rest <+: lines fmt.toEventFormat events' := by
  cases events with
  | nil =>
    have hnil : buffer = [] := List.prefix_nil.1 h
    exact .inl ⟨by rw [hnil]; rfl, fun _ => rfl⟩
  | cons e events =>
    rw [lines_cons] at h ⊢
    have hline : fmt.text e ++ [10] <+: fmt.text e ++ 10 :: lines fmt.toEventFormat events :=
      ⟨lines fmt.toEventFormat events, by simp⟩
    have hwhole : fmt.text e ++ [10] <+: buffer → ∃ rest, buffer = fmt.text e ++ 10 :: rest ∧
        rest <+: lines fmt.toEventFormat events := by
      rintro ⟨rest, rfl⟩
      refine ⟨rest, by simp, ?_⟩
      simpa using h
    by_cases hbreak : 10 ∈ buffer
    · obtain ⟨rest, rfl, hrest⟩ := hwhole <| by
        rcases List.prefix_or_prefix_of_prefix hline h with hle | hle
        · exact hle
        · rcases List.prefix_concat_iff.1 hle with heq | hle
          · rw [heq]
          · exact absurd (hle.subset hbreak) (fmt.text_one_line e)
      exact .inr ⟨e, events, rest, rfl, firstLine_append (fmt.text_one_line e), hrest⟩
    · refine .inl ⟨firstLine_of_not_mem hbreak, ?_⟩
      intro heq
      exact absurd (by rw [heq]; simp) hbreak

theorem strip_line (e : ε) : strip (fmt.text e ++ [10]) = fmt.text e := by
  have hspace : ∀ b : UInt8, 32 < b → isSpace b = false := by
    intro b hb
    simp only [isSpace, Bool.or_eq_false_iff, Bool.and_eq_false_iff, decide_eq_false_iff_not,
      UInt8.not_le]
    exact ⟨.inr (UInt8.lt_trans (by decide) hb), .inr hb⟩
  have hfront : ∀ text : Bytes, (∀ b ∈ text.head?, 32 < b) → text.dropWhile isSpace = text := by
    intro text h
    cases text with
    | nil => rfl
    | cons b rest => rw [List.dropWhile_cons_of_neg (by simp [hspace b (h b rfl)])]
  obtain ⟨b, rest, hcons⟩ := List.exists_cons_of_ne_nil (fmt.text_ne_nil e)
  have hhead : (fmt.text e ++ [10]).dropWhile isSpace = fmt.text e ++ [10] := by
    refine hfront _ ?_
    intro c hc
    rw [hcons] at hc
    exact fmt.text_head e c (by rw [hcons]; exact hc)
  have hbreak : isSpace 10 = true := by decide
  rw [strip, hhead, List.reverse_append, List.reverse_singleton, List.singleton_append,
    List.dropWhile_cons_of_pos hbreak, hfront _ (by simpa using fmt.text_last e),
    List.reverse_reverse]

/-! ## One connection -/

/-- The texts a viewer should get. -/
def texts (fmt : LogFormat ε) (events : List ε) : List Bytes := events.map fmt.text

/-- The lines a phase has that were not sent yet. -/
def Phase.unsent : Phase → List Bytes
  | .reading _ read => read.lines
  | .sending _ lines => lines
  | _ => []

def Phase.buffer : Phase → Bytes
  | .reading _ read => read.buffer
  | _ => []

/-- The run was found finished. -/
def Phase.last : Phase → Bool
  | .reading draining _ => draining
  | .sending draining _ => draining
  | .returned => true
  | _ => false

/-- How far a connection came: `seen` committed lines are behind its tail. -/
structure Following (fmt : LogFormat ε) (s : State ε) (v : Viewer) (seen : Nat) : Prop where
  le : seen + v.tail.skipLines ≤ s.events.length
  offset : v.tail.offset = (lines fmt.toEventFormat (s.events.take seen)).length
  buffer : v.phase.buffer <+: lines fmt.toEventFormat (s.events.drop seen)
  sent : s.received ++ (v.inFlight ++ v.phase.unsent) =
    texts fmt (s.events.take (seen + v.tail.skipLines))
  skipping : v.tail.skipLines ≠ 0 → v.inFlight = [] ∧ v.phase.unsent = []
  last : v.finished = true ∨ v.phase.last = true → s.run.finishedAt.isSome = true
  returned : v.phase = .returned → seen = s.events.length

/-- **The viewer has the committed lines**, in order, and all of them once its stream ended. -/
structure Shown (fmt : LogFormat ε) (s : State ε) : Prop where
  logged : Logged fmt.toEventFormat s
  received : s.received <+: texts fmt s.events
  viewer : ∀ v, s.viewer = some v → ∃ seen, Following fmt s v seen
  closed : s.closed = true → s.received = texts fmt s.events ∧ s.run.finishedAt.isSome = true

theorem texts_append (a b : List ε) : texts fmt (a ++ b) = texts fmt a ++ texts fmt b :=
  List.map_append

theorem texts_take_succ {events rest : List ε} {seen : Nat} {e : ε}
    (h : events.drop seen = e :: rest) :
    texts fmt (events.take (seen + 1)) = texts fmt (events.take seen) ++ [fmt.text e] := by
  rw [List.take_add, texts_append, h]
  rfl

theorem afterRead_unsent (draining : Bool) (lines : List Bytes) :
    (afterRead draining lines).unsent = lines := by
  unfold afterRead
  split
  · rename_i hnil
    rw [hnil]
    split <;> rfl
  · rfl

theorem afterRead_buffer (draining : Bool) (lines : List Bytes) :
    (afterRead draining lines).buffer = [] := by
  unfold afterRead
  split
  · split <;> rfl
  · rfl

theorem last_of_afterRead {draining : Bool} {lines : List Bytes}
    (h : (afterRead draining lines).last = true) : draining = true := by
  unfold afterRead at h
  split at h
  · split at h
    · assumption
    · exact absurd h (by simp [Phase.last])
  · exact h

theorem nil_of_returned {draining : Bool} {lines : List Bytes}
    (h : afterRead draining lines = .returned) : lines = [] := by
  unfold afterRead at h
  split at h
  · assumption
  · exact absurd h (by simp)

namespace Following

variable {s : State ε} {v w : Viewer} {seen : Nat}

/-- The read of a piece of the file that is committed. -/
theorem chunk {count : Nat} (h : Following fmt s v seen) (hl : Logged fmt.toEventFormat s)
    (hok : min (v.tail.offset + v.phase.buffer.length + count) s.file.length ≤ s.run.logBytes)
    (hstep : stepViewer s v (.chunk count) = some w) : Following fmt s w seen := by
  cases hphase : v.phase with
  | reading draining read =>
    simp only [stepViewer, hphase] at hstep
    split at hstep
    · obtain rfl := Option.some.inj hstep
      simp only [hphase, Phase.buffer] at hok
      obtain ⟨tail, htail⟩ := hl.committed
      have hbuffer : read.buffer <+: lines fmt.toEventFormat (s.events.drop seen) := by
        simpa [hphase, Phase.buffer] using h.buffer
      refine { h with
        buffer := ?_
        sent := by simpa [hphase, Phase.unsent] using h.sent
        skipping := by simpa [hphase, Phase.unsent] using h.skipping
        last := by simpa [hphase, Phase.last] using h.last
        returned := by simp }
      show read.buffer ++ (s.file.drop (v.tail.offset + read.buffer.length)).take count <+: _
      obtain ⟨rest, hrest⟩ := hbuffer
      have hfile : s.file = lines fmt.toEventFormat (s.events.take seen) ++
          (read.buffer ++ (rest ++ tail)) := by
        rw [← htail, ← List.append_assoc, ← List.append_assoc, List.append_assoc _ _ rest, hrest,
          ← RunLog.lines_append, List.take_append_drop]
      have hdrop : s.file.drop (v.tail.offset + read.buffer.length) = rest ++ tail := by
        rw [hfile, ← List.append_assoc, h.offset, ← List.length_append, List.drop_left]
      have hbytes : s.run.logBytes = v.tail.offset + (read.buffer.length + rest.length) := by
        rw [hl.logBytes, ← List.take_append_drop seen s.events, RunLog.lines_append,
          List.length_append, h.offset, ← hrest, List.length_append]
      have hlen : s.file.length =
          v.tail.offset + (read.buffer.length + (rest.length + tail.length)) := by
        rw [hfile, List.length_append, List.length_append, List.length_append, h.offset]
      rw [hdrop, ← hrest, List.prefix_append_right_inj]
      rw [hlen, hbytes] at hok
      by_cases hcount : count ≤ rest.length
      · rw [List.take_append_of_le_length hcount]
        exact List.take_prefix _ _
      · have htail : tail = [] := List.length_eq_zero_iff.1 (by omega)
        rw [htail, List.append_nil]
        exact List.take_prefix _ _
    · exact absurd hstep (by simp)
  | _ => simp only [stepViewer, hphase, reduceCtorEq] at hstep

/-- The file ends where the buffer does, and there is no line in it. -/
theorem seen_all (h : Following fmt s v seen) (hl : Logged fmt.toEventFormat s)
    (hnone : firstLine v.phase.buffer = none)
    (hend : s.file.drop (v.tail.offset + v.phase.buffer.length) = []) :
    seen = s.events.length := by
  obtain ⟨rest, hrest⟩ := h.buffer
  have hsplit : lines fmt.toEventFormat s.events =
      lines fmt.toEventFormat (s.events.take seen) ++
        lines fmt.toEventFormat (s.events.drop seen) := by
    rw [← RunLog.lines_append, List.take_append_drop]
  have hlen := hl.committed.length_le
  rw [hsplit, List.length_append, ← h.offset, ← hrest, List.length_append] at hlen
  have hfile := List.drop_eq_nil_iff.1 hend
  have hnil : rest = [] := List.length_eq_zero_iff.1 (by omega)
  have hle : seen ≤ s.events.length := Nat.le_trans (Nat.le_add_right _ _) h.le
  rcases firstLine_lines h.buffer with ⟨-, hall⟩ | ⟨e, events', rest', -, hsome, -⟩
  · have hdrop := hall (by rw [← hrest, hnil, List.append_nil])
    exact Nat.le_antisymm hle (List.drop_eq_nil_iff.1 hdrop)
  · exact absurd (hnone.symm.trans hsome) (by simp)

theorem line (h : Following fmt s v seen) (hstep : stepViewer s v .line = some w) :
    Following fmt s w (seen + 1) := by
  cases hphase : v.phase with
  | reading draining read =>
    have hbuffer : read.buffer <+: lines fmt.toEventFormat (s.events.drop seen) := by
      simpa [hphase, Phase.buffer] using h.buffer
    simp only [stepViewer, hphase] at hstep
    rcases firstLine_lines hbuffer with ⟨hnone, -⟩ | ⟨e, events', rest, hdrop, hfirst, hrest⟩
    · rw [hnone] at hstep
      exact absurd hstep (by simp)
    · rw [hfirst] at hstep
      have hseen : seen < s.events.length := by
        have := congrArg List.length hdrop
        simp only [List.length_drop, List.length_cons] at this
        omega
      have hnext : s.events.drop (seen + 1) = events' := by
        rw [← List.drop_drop, hdrop]
        rfl
      have hoffset : v.tail.offset + (fmt.text e ++ [10]).length =
          (lines fmt.toEventFormat (s.events.take (seen + 1))).length := by
        rw [h.offset, List.take_add, hdrop, RunLog.lines_append, List.length_append]
        simp [lines, fmt.line_eq]
      have hsent := h.sent
      simp only [hphase, Phase.unsent] at hsent
      simp only [takeLine, strip_line, if_neg (fmt.text_ne_nil e)] at hstep
      by_cases hskip : v.tail.skipLines = 0
      · rw [if_neg (by simp [hskip])] at hstep
        obtain rfl := Option.some.inj hstep
        have hmore : s.received ++ (v.inFlight ++ (read.lines ++ [fmt.text e])) =
            texts fmt (s.events.take (seen + 1)) := by
          rw [hskip, Nat.add_zero] at hsent
          rw [texts_take_succ hdrop, ← hsent]
          simp
        split
        · exact {
            le := by rw [hskip]; exact hseen
            offset := hoffset
            buffer := by rw [hnext]; exact hrest
            sent := by simpa [hskip, Phase.unsent] using hmore
            skipping := fun hne => absurd hskip hne
            last := by simpa [hphase, Phase.last] using h.last
            returned := by simp }
        · refine {
            le := by rw [hskip]; exact hseen
            offset := hoffset
            buffer := by rw [afterRead_buffer]; exact List.nil_prefix
            sent := by simpa [hskip, afterRead_unsent] using hmore
            skipping := fun hne => absurd hskip hne
            last := ?_
            returned := fun hret => absurd (nil_of_returned hret) (by simp) }
          rintro (hf | hlast)
          · exact h.last (.inl hf)
          · exact h.last (.inr (by rw [hphase]; exact last_of_afterRead hlast))
      · rw [if_pos hskip] at hstep
        obtain rfl := Option.some.inj hstep
        have hempty := h.skipping hskip
        simp only [hphase, Phase.unsent] at hempty
        have hcount : seen + 1 + (v.tail.skipLines - 1) = seen + v.tail.skipLines := by omega
        exact {
          le := by simpa [hcount] using h.le
          offset := hoffset
          buffer := by rw [hnext]; exact hrest
          sent := by simpa [hcount, Phase.unsent] using hsent
          skipping := fun _ => by simpa [Phase.unsent] using hempty
          last := by simpa [hphase, Phase.last] using h.last
          returned := by simp }
  | _ => simp only [stepViewer, hphase, reduceCtorEq] at hstep

/-- A change of phase that sends and reads nothing. -/
theorem move (h : Following fmt s v seen) {phase : Phase} (hbuffer : phase.buffer = [])
    (hunsent : phase.unsent = v.phase.unsent)
    (hlast : phase.last = true → s.run.finishedAt.isSome = true)
    (hreturned : phase = .returned → seen = s.events.length) :
    Following fmt s { v with phase } seen where
  le := h.le
  offset := h.offset
  buffer := by rw [hbuffer]; exact List.nil_prefix
  sent := by rw [hunsent]; exact h.sent
  skipping := by rw [hunsent]; exact h.skipping
  last := by
    rintro (hf | hf)
    · exact h.last (.inl hf)
    · exact hlast hf
  returned := hreturned

theorem eof (h : Following fmt s v seen) (hl : Logged fmt.toEventFormat s)
    (hstep : stepViewer s v .eof = some w) : Following fmt s w seen := by
  cases hphase : v.phase with
  | reading draining read =>
    simp only [stepViewer, hphase] at hstep
    split at hstep
    · rename_i hguard
      obtain rfl := Option.some.inj hstep
      refine h.move (afterRead_buffer _ _) (by rw [afterRead_unsent, hphase]; rfl) ?_ ?_
      · intro hlast
        exact h.last (.inr (by rw [hphase]; exact last_of_afterRead hlast))
      · intro _
        exact h.seen_all hl (by simpa [hphase, Phase.buffer] using hguard.1)
          (by simpa [hphase, Phase.buffer] using hguard.2)
    · exact absurd hstep (by simp)
  | _ => simp only [stepViewer, hphase, reduceCtorEq] at hstep

theorem send (h : Following fmt s v seen) (hstep : stepViewer s v .send = some w) :
    Following fmt s w seen := by
  cases hphase : v.phase with
  | sending draining lines =>
    cases lines with
    | nil =>
      simp only [stepViewer, hphase] at hstep
      obtain rfl := Option.some.inj hstep
      refine h.move rfl (by rw [hphase]; rfl) (fun hlast => ?_) (by simp)
      exact h.last (.inr (by rw [hphase]; exact hlast))
    | cons line rest =>
      simp only [stepViewer, hphase] at hstep
      obtain rfl := Option.some.inj hstep
      exact { h with
        buffer := List.nil_prefix
        sent := by simpa [hphase, Phase.unsent] using h.sent
        skipping := by
          intro hskip
          exact absurd (h.skipping hskip).2 (by simp [hphase, Phase.unsent])
        last := by simpa [hphase, Phase.last] using h.last
        returned := by simp }
  | _ => simp only [stepViewer, hphase, reduceCtorEq] at hstep

theorem check (h : Following fmt s v seen) (hstep : stepViewer s v .check = some w) :
    Following fmt s w seen := by
  cases hphase : v.phase with
  | checking =>
    simp only [stepViewer, hphase] at hstep
    split at hstep
    · rename_i hend
      obtain rfl := Option.some.inj hstep
      refine h.move rfl (by rw [hphase]; rfl) (fun _ => ?_) (by simp)
      rcases Bool.or_eq_true _ _ ▸ hend with hf | hf
      · exact h.last (.inl hf)
      · exact hf
    · obtain rfl := Option.some.inj hstep
      exact h.move rfl (by rw [hphase]; rfl) (by simp [Phase.last]) (by simp)
  | _ => simp only [stepViewer, hphase, reduceCtorEq] at hstep

theorem wake (h : Following fmt s v seen) (hstep : stepViewer s v .wake = some w) :
    Following fmt s w seen := by
  cases hphase : v.phase with
  | waiting =>
    simp only [stepViewer, hphase] at hstep
    obtain rfl := Option.some.inj hstep
    exact h.move rfl (by rw [hphase]; rfl) (by simp [Phase.last]) (by simp)
  | _ => simp only [stepViewer, hphase, reduceCtorEq] at hstep

end Following

/-! ## The writing side -/

/-- What one step of the writing side does to the committed log: nothing once the run ended. -/
theorem grows {s t : State ε} (h : Logged fmt.toEventFormat s)
    (hwrites : Writes hashToken fmt.toEventFormat s t) :
    ∃ fresh, t.events = s.events ++ fresh ∧
      (s.run.finishedAt.isSome = true → fresh = [] ∧ t.run.finishedAt.isSome = true) := by
  have hended : s.run.finishedAt.isSome = true → s.run.status.active = false := by
    intro hsome
    cases hactive : s.run.status.active with
    | false => rfl
    | true =>
      rw [h.timed.1 hactive] at hsome
      cases hsome
  have hsame : s.events = s.events ++ [] := (List.append_nil _).symm
  cases hwrites with
  | moved run hidle hactive hfinished =>
    refine ⟨[], hsame, fun hsome => ⟨rfl, ?_⟩⟩
    rw [← hfinished] at hsome
    exact hsome
  | called c out hidle hhandled =>
    refine ⟨[], hsame, fun hsome => ⟨rfl, ?_⟩⟩
    rw [← (Call.handle_ended hhandled (hended hsome)).1] at hsome
    exact hsome
  | begun => exact ⟨[], hsame, fun hsome => ⟨rfl, hsome⟩⟩
  | cut => exact ⟨[], hsame, fun hsome => ⟨rfl, hsome⟩⟩
  | put => exact ⟨[], hsame, fun hsome => ⟨rfl, hsome⟩⟩
  | committed a ha =>
    refine ⟨a.fresh, rfl, fun hsome => ?_⟩
    have hactive := (h.append a ha).active
    rw [hended hsome] at hactive
    cases hactive
  | stopped => exact ⟨[], hsame, fun hsome => ⟨rfl, hsome⟩⟩

theorem Following.grow {s t : State ε} {v : Viewer} {seen : Nat} {fresh : List ε}
    (h : Following fmt s v seen) (hevents : t.events = s.events ++ fresh)
    (hended : s.run.finishedAt.isSome = true → fresh = [] ∧ t.run.finishedAt.isSome = true)
    (hreceived : t.received = s.received) : Following fmt t v seen := by
  have hle : seen ≤ s.events.length := Nat.le_trans (Nat.le_add_right _ _) h.le
  refine {
    le := by
      rw [hevents, List.length_append]
      exact Nat.le_trans h.le (Nat.le_add_right _ _)
    offset := by rw [hevents, List.take_append_of_le_length hle]; exact h.offset
    buffer := by
      rw [hevents, List.drop_append_of_le_length hle, RunLog.lines_append]
      exact h.buffer.trans (List.prefix_append _ _)
    sent := by rw [hreceived, hevents, List.take_append_of_le_length h.le]; exact h.sent
    skipping := h.skipping
    last := fun hlast => (hended (h.last hlast)).2
    returned := ?_ }
  intro hret
  have hsome := h.last (.inr (by rw [hret]; rfl))
  rw [hevents, (hended hsome).1, List.append_nil]
  exact h.returned hret

theorem Following.frame {s : State ε} {v : Viewer} {seen : Nat} (h : Following fmt s v seen)
    (viewer : Option Viewer) : Following fmt { s with viewer } v seen :=
  h.grow (List.append_nil _).symm (fun hsome => ⟨rfl, hsome⟩) rfl

/-! ## Every run -/

/-- A read of the file that goes no further than the committed length. -/
def readsCommitted (s : State ε) : Label ε → Prop
  | .chunk count => ∀ v ∈ s.viewer,
      min (v.tail.offset + v.phase.buffer.length + count) s.file.length ≤ s.run.logBytes
  | _ => True

theorem Shown.init {s : State ε} (h : Init s) : Shown fmt s := by
  have heq := h.fresh
  exact {
    logged := .init h
    received := by rw [heq]; exact List.nil_prefix
    viewer := by rw [heq]; simp
    closed := by rw [heq]; simp }

theorem Shown.writes {s t : State ε} (h : Shown fmt s)
    (hwrites : Writes hashToken fmt.toEventFormat s t) : Shown fmt t := by
  obtain ⟨fresh, hevents, hended⟩ := grows h.logged hwrites
  obtain ⟨hviewer, hreceived, hclosed⟩ := hwrites.frame
  refine ⟨h.logged.writes hwrites, ?_, ?_, ?_⟩
  · rw [hreceived, hevents, texts_append]
    exact h.received.trans (List.prefix_append _ _)
  · intro v hv
    obtain ⟨seen, hf⟩ := h.viewer v (hviewer ▸ hv)
    exact ⟨seen, hf.grow hevents hended hreceived⟩
  · intro hc
    obtain ⟨hall, hsome⟩ := h.closed (hclosed ▸ hc)
    obtain ⟨hnil, hsome'⟩ := hended hsome
    exact ⟨by rw [hreceived, hevents, hnil, List.append_nil]; exact hall, hsome'⟩

theorem Following.received {s : State ε} {v : Viewer} {seen : Nat} (h : Following fmt s v seen) :
    s.received ++ v.inFlight <+: texts fmt s.events := by
  have hsent := h.sent
  rw [← List.append_assoc] at hsent
  have hpart : texts fmt (s.events.take (seen + v.tail.skipLines)) <+: texts fmt s.events :=
    (List.take_prefix _ _).map _
  exact (List.prefix_append _ _).trans (hsent ▸ hpart)

theorem Shown.reader {s t : State ε} {label : Label ε} (h : Shown fmt s)
    (hw : label.writes = false) (hok : readsCommitted s label)
    (hstep : step hashToken fmt.toEventFormat s label = some t) : Shown fmt t := by
  obtain ⟨hrun, hfile, happend, hevents⟩ := frame_of_reader hw hstep
  have hlogged := h.logged.frame hrun hfile happend hevents
  cases label <;> simp only [Label.writes, Bool.true_eq_false] at hw
  case connect =>
    simp only [step] at hstep
    split at hstep
    · obtain rfl := Option.some.inj hstep
      refine ⟨hlogged, h.received, ?_, h.closed⟩
      intro v hv
      obtain rfl := Option.some.inj hv
      have hlen : s.received.length ≤ s.events.length := by
        simpa [texts] using h.received.length_le
      refine ⟨0, ?_⟩
      exact {
        le := by simpa using hlen
        offset := rfl
        buffer := List.nil_prefix
        sent := by
          have := List.prefix_iff_eq_take.1 h.received
          simpa [Phase.unsent, texts, List.map_take] using this
        skipping := fun _ => ⟨rfl, rfl⟩
        last := by simp [Phase.last]
        returned := by simp }
    · exact absurd hstep (by simp)
  case drop =>
    obtain ⟨v, -, rfl⟩ := Option.map_eq_some_iff.1 hstep
    exact ⟨hlogged, h.received, by simp, h.closed⟩
  all_goals
    obtain ⟨v, hv, hstep⟩ := Option.bind_eq_some_iff.1 hstep
    obtain ⟨seen, hf⟩ := h.viewer v hv
  case receive =>
    split at hstep
    · rename_i line rest hflight
      obtain rfl := Option.some.inj hstep
      have hreceived := hf.received
      rw [hflight, List.append_cons] at hreceived
      refine ⟨hlogged, (List.prefix_append _ _).trans hreceived, ?_, ?_⟩
      · intro v' hv'
        obtain rfl := Option.some.inj hv'
        refine ⟨seen, { hf with sent := ?_, skipping := ?_ }⟩
        · simpa [hflight] using hf.sent
        · intro hskip
          exact absurd (hf.skipping hskip).1 (by simp [hflight])
      · intro hc
        have hlen := hreceived.length_le
        rw [(h.closed hc).1, List.length_append, List.length_append, List.length_singleton] at hlen
        omega
    · exact absurd hstep (by simp)
  case close =>
    split at hstep
    · rename_i hphase hflight
      obtain rfl := Option.some.inj hstep
      refine ⟨hlogged, h.received, by simp, fun _ => ?_⟩
      have hall := hf.returned hphase
      have hsent := hf.sent
      rw [hflight, hphase, hall] at hsent
      refine ⟨?_, hf.last (.inr (by rw [hphase]; rfl))⟩
      simpa [Phase.unsent, List.take_of_length_le] using hsent
    · exact absurd hstep (by simp)
  all_goals
    obtain ⟨v', hstep', rfl⟩ := Option.map_eq_some_iff.1 hstep
    refine ⟨hlogged, h.received, ?_, h.closed⟩
    intro w hw'
    obtain rfl := Option.some.inj hw'
  case chunk count => exact ⟨seen, (hf.chunk h.logged (hok v hv) hstep').frame _⟩
  case line => exact ⟨seen + 1, (hf.line hstep').frame _⟩
  case eof => exact ⟨seen, (hf.eof h.logged hstep').frame _⟩
  case send => exact ⟨seen, (hf.send hstep').frame _⟩
  case check => exact ⟨seen, (hf.check hstep').frame _⟩
  case wake => exact ⟨seen, (hf.wake hstep').frame _⟩

theorem inductive_shown : (system hashToken fmt.toEventFormat).Inductive readsCommitted
    (Shown fmt) where
  init _ h := Shown.init h
  step := by
    intro s label t h hok hstep
    by_cases hw : label.writes = true
    · exact h.writes (writes_of_step hw hstep)
    · exact h.reader (by simpa using hw) hok hstep

/-- **The live viewer shows the committed log**, in every run whose reads of the file go no
further than the committed length: what it received over its connections is a prefix of the
committed lines, and all of them once its stream ended. -/
theorem live_log_committed {s : State ε}
    (hr : (system hashToken fmt.toEventFormat).ReachableBy readsCommitted s) :
    s.received <+: texts fmt s.events ∧ (s.closed = true → s.received = texts fmt s.events) := by
  have h := inductive_shown.of_reachable hr
  exact ⟨h.received, fun hc => (h.closed hc).1⟩

/-- A viewer that is sent the first line, loses its connection before the second arrives and gets
it on the next one, to the end of the stream. -/
def reconnected : List (Label Bool) :=
  [.call (.events "claim" ⟨1, [true, false]⟩), .cut, .put 7, .commit, .connect, .chunk 9, .line,
    .line, .eof, .send, .send, .receive, .drop,
    .call (.complete "claim" 5 { lastSeq := 2, status := .success }),
    .connect, .chunk 9, .line, .line, .eof, .send, .send, .eof, .check, .eof, .receive, .close]

instance (s : State ε) (label : Label ε) : Decidable (readsCommitted s label) :=
  match label with
  | .chunk count => inferInstanceAs (Decidable (∀ v ∈ s.viewer,
      min (v.tail.offset + v.phase.buffer.length + count) s.file.length ≤ s.run.logBytes))
  | .claim _ | .requeue | .call _ | .cut | .put _ | .commit | .stop | .connect | .line | .eof
  | .send | .check | .wake | .receive | .drop | .close => isTrue trivial

theorem live_log_committed_reconnected :
    let s := ((system id flagFormat.toEventFormat).run readsCommitted claimed reconnected).get rfl
    s.received <+: texts flagFormat s.events ∧
      (s.closed = true → s.received = texts flagFormat s.events) :=
  live_log_committed (Lib.System.ReachableBy.of_isSome claimed_init reconnected rfl)

/-- A read between an append's write and its rollback gets a line that was never committed. -/
theorem live_log_uncommitted : ¬ ∀ s : State Bool,
    (system id flagFormat.toEventFormat).Reachable s →
      s.received <+: texts flagFormat s.events ∧
        (s.closed = true → s.received = texts flagFormat s.events) := by
  intro h
  have hprefix := (h _ (Lib.System.ReachableBy.of_isSome claimed_init
    [.call (.events "claim" ⟨1, [true]⟩), .cut, .put 4, .connect, .chunk 4, .line, .eof, .stop,
      .send, .receive] rfl)).1
  have hnone : ([[123, 97, 125]] : List Bytes) <+: [] := hprefix
  exact absurd (List.prefix_nil.1 hnone) (by simp)

end LiveLog

end AnsiDeck
