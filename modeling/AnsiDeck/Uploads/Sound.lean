import AnsiDeck.Uploads.System

/-!
# The staged file is a prefix of the body

Whatever chunk is written, its bytes are the body's own at their place, and it begins inside what
is staged already. So a late or repeated chunk changes how long the staged file is, never what is
in it, and a file of the body's size is the body.
-/

namespace AnsiDeck

namespace Uploads

variable {endpoint : Endpoint} {chunkBytes : Nat} {body : Bytes}

/-- A chunk being written: all before its next byte is staged. -/
structure Writing.Ok (s : State) (w : Writing) (r : Request) : Prop where
  request : s.sent[w.request]? = some r
  staged : s.staged.isSome = true
  written : w.written ≤ r.chunk.length
  within : r.offset + w.written ≤ s.size
  whole : w.truncated = true → w.written = r.chunk.length ∧ s.size = r.stop

structure Sound (body : Bytes) (s : State) : Prop where
  staged : s.staged.getD [] <+: body
  sent : ∀ r ∈ s.sent, r.chunk <+: body.drop r.offset
  writing : ∀ w, s.writing = some w → ∃ r, w.Ok s r

theorem Sound.init {s : State} (h : Init s) : Sound body s := by
  rw [h]
  exact ⟨List.nil_prefix, by simp, by simp⟩

/-- A step that leaves the staged file and the write to it as they are. -/
theorem Sound.frame {s t : State} (h : Sound body s) (hstaged : t.staged = s.staged)
    (hwriting : t.writing = s.writing) (hsent : t.sent = s.sent) : Sound body t := by
  refine ⟨hstaged ▸ h.staged, hsent ▸ h.sent, ?_⟩
  intro w hw
  obtain ⟨r, hr⟩ := h.writing w (hwriting ▸ hw)
  exact ⟨r, hsent ▸ hr.request, hstaged ▸ hr.staged, hr.written,
    by rw [State.size, hstaged]; exact hr.within, by rw [State.size, hstaged]; exact hr.whole⟩

/-- What the API may do to the staged file while it has the lock, by what it is. -/
theorem Sound.idle {s t : State} (h : Sound body s)
    (hstaged : t.staged = s.staged ∨ t.staged = none)
    (hwriting : t.writing = none) (hsent : t.sent = s.sent) : Sound body t := by
  refine ⟨?_, hsent ▸ h.sent, by simp [hwriting]⟩
  rcases hstaged with heq | hnone
  · rw [heq]; exact h.staged
  · rw [hnone]; exact List.nil_prefix

theorem offset_le_of_refusal {owned partAllowed : Bool} {size : Nat} {r : Request}
    (h : endpoint.refusal owned partAllowed size r = none) : r.offset ≤ size := by
  have hcheck : ∀ allowed limit, refusal owned allowed limit size r = none → r.offset ≤ size := by
    intro allowed limit hn
    unfold refusal at hn
    split at hn
    · exact absurd hn (by simp)
    split at hn
    · exact absurd hn (by simp)
    split at hn
    · exact absurd hn (by simp)
    · omega
  cases endpoint with
  | artifacts maxMb => exact hcheck _ _ h
  | output maxMb => exact hcheck _ _ h

/-- A piece of a chunk, at its place in the body. -/
theorem piece_prefix {r : Request} (h : r.chunk <+: body.drop r.offset) (written count : Nat) :
    (r.chunk.drop written).take count <+: body.drop (r.offset + written) := by
  obtain ⟨rest, hrest⟩ := h
  rw [← List.drop_drop, ← hrest]
  exact (List.take_prefix _ _).trans ((List.prefix_append _ _).drop _)

/-! ## One step -/

section

variable {s t : State}

theorem Sound.post (h : Sound body s)
    (hstep : step endpoint chunkBytes body s .post = some t) : Sound body t := by
  simp only [step] at hstep
  split at hstep
  · rename_i offset _
    split at hstep
    · obtain rfl := Option.some.inj hstep
      refine ⟨h.staged, ?_, ?_⟩
      · intro r hr
        rcases List.mem_append.1 hr with hr | hr
        · exact h.sent r hr
        · rw [List.mem_singleton.1 hr]
          exact List.take_prefix _ _
      · intro w hw
        obtain ⟨r, hr⟩ := h.writing w hw
        have hlast : (s.sent ++ [⟨offset, (body.drop offset).take chunkBytes⟩])[w.request]? =
            some r := by
          rw [List.getElem?_append_left (List.getElem?_eq_some_iff.1 hr.request).1]
          exact hr.request
        exact ⟨r, hlast, hr.staged, hr.written, hr.within, hr.whole⟩
    · exact absurd hstep (by simp)
  · exact absurd hstep (by simp)

theorem Sound.deliver {i : Nat} (h : Sound body s)
    (hstep : step endpoint chunkBytes body s (.deliver i) = some t) : Sound body t := by
  obtain ⟨hidle, r, hr, ⟨answer, -, rfl⟩ | ⟨hnone, rfl⟩⟩ := deliver_cases hstep
  · exact h.frame rfl rfl rfl
  · refine ⟨by simpa using h.staged, h.sent, ?_⟩
    intro w hw
    obtain rfl := Option.some.inj hw
    exact ⟨r, hr, rfl, Nat.zero_le _, offset_le_of_refusal hnone, by simp⟩

theorem Sound.put {count : Nat} (h : Sound body s)
    (hstep : step endpoint chunkBytes body s (.put count) = some t) :
    Sound body t ∧ s.size ≤ t.size := by
  obtain ⟨w, r, hw, hr, hwhole, hcount, rfl⟩ := put_cases hstep
  obtain ⟨r', hok⟩ := h.writing w hw
  obtain rfl := Option.some.inj (hr.symm.trans hok.request)
  obtain ⟨file, hfile⟩ := Option.isSome_iff_exists.1 hok.staged
  have hprefix : file <+: body := by simpa [hfile] using h.staged
  have hwithin : r.offset + w.written ≤ file.length := by
    simpa [State.size, hfile] using hok.within
  have hpiece := piece_prefix (h.sent r (List.mem_of_getElem? hr)) w.written count
  have hnew := writeAt_body hprefix hwithin hpiece
  have hlen : ((r.chunk.drop w.written).take count).length = count := by
    rw [List.length_take, List.length_drop]
    omega
  have hbody : r.offset + w.written + count ≤ body.length ∨ count = 0 := by
    have := hpiece.length_le
    rw [hlen, List.length_drop] at this
    omega
  have hsize : (body.take (max file.length (r.offset + w.written + count))).length =
      max file.length (r.offset + w.written + count) := by
    rw [List.length_take]
    have := hprefix.length_le
    omega
  rw [hlen] at hnew
  refine ⟨⟨?_, h.sent, ?_⟩, ?_⟩
  · simp only [hfile, Option.map_some, Option.getD_some, hnew]
    exact List.take_prefix _ _
  · intro w' hw'
    obtain rfl := Option.some.inj hw'
    refine ⟨r, hr, by simp [hfile], hcount, ?_, by simp [hwhole]⟩
    simp only [State.size, hfile, Option.map_some, Option.getD_some, hnew, hsize]
    omega
  · simp only [State.size, hfile, Option.map_some, Option.getD_some, hnew, hsize]
    exact Nat.le_max_left _ _

/-- The file ends where the chunk does. -/
theorem Sound.truncate (h : Sound body s)
    (hstep : step endpoint chunkBytes body s .truncate = some t) :
    Sound body t ∧ ∃ w r, s.writing = some w ∧ s.sent[w.request]? = some r ∧
      t.writing = some { w with truncated := true } ∧ t.size = r.stop := by
  obtain ⟨w, r, hw, hr, hall, rfl⟩ := truncate_cases hstep
  obtain ⟨r', hok⟩ := h.writing w hw
  obtain rfl := Option.some.inj (hr.symm.trans hok.request)
  obtain ⟨file, hfile⟩ := Option.isSome_iff_exists.1 hok.staged
  have hprefix : file <+: body := by simpa [hfile] using h.staged
  have hstop : r.stop ≤ file.length := by
    have := hok.within
    simp only [State.size, hfile, Option.getD_some, hall] at this
    exact this
  have hnew : AnsiDeck.truncate r.stop file = file.take r.stop := truncate_of_le hstop
  have hlen : (file.take r.stop).length = r.stop := by rw [List.length_take, Nat.min_eq_left hstop]
  refine ⟨⟨?_, h.sent, ?_⟩, w, r, hw, hr, rfl, ?_⟩
  · simp only [hfile, Option.map_some, Option.getD_some, hnew]
    exact (List.take_prefix _ _).trans hprefix
  · intro w' hw'
    obtain rfl := Option.some.inj hw'
    refine ⟨r, hr, by simp [hfile], hok.written, ?_, fun _ => ⟨hall, ?_⟩⟩
    · simp only [State.size, hfile, Option.map_some, Option.getD_some, hnew, hlen, hall]
      exact Nat.le_refl _
    · simp only [State.size, hfile, Option.map_some, Option.getD_some, hnew, hlen]
  · simp only [State.size, hfile, Option.map_some, Option.getD_some, hnew, hlen]

end

theorem inductive_sound {ok : State → Label → Prop} :
    (system endpoint chunkBytes body).Inductive ok (Sound body) where
  init _ h := Sound.init h
  step := by
    intro s label t h _ hstep
    change step endpoint chunkBytes body s label = some t at hstep
    cases label
    case post => exact h.post hstep
    case deliver i => exact h.deliver hstep
    case put count => exact (h.put hstep).1
    case truncate => exact (h.truncate hstep).1
    case answer =>
      obtain ⟨w, r, -, -, -, rfl⟩ := answer_cases hstep
      exact h.idle (.inl rfl) rfl rfl
    case transportError =>
      simp only [step] at hstep
      split at hstep
      · obtain rfl := Option.some.inj hstep
        exact h.frame rfl rfl rfl
      · exact absurd hstep (by simp)
    case receive answer =>
      simp only [step] at hstep
      split at hstep
      · split at hstep
        · obtain rfl := Option.some.inj hstep
          exact h.frame rfl rfl rfl
        · exact absurd hstep (by simp)
      · exact absurd hstep (by simp)
    case giveUp =>
      obtain rfl := Option.some.inj hstep
      exact h.frame rfl rfl rfl
    case stage partAllowed =>
      obtain rfl := Option.some.inj hstep
      exact h.frame rfl rfl rfl
    all_goals
      simp only [step] at hstep
      split at hstep
    case stop.isTrue =>
      obtain rfl := Option.some.inj hstep
      exact h.idle (.inl rfl) rfl rfl
    case takeOver.isTrue hidle =>
      obtain rfl := Option.some.inj hstep
      exact h.idle (.inr rfl) (Option.isNone_iff_eq_none.1 hidle) rfl
    case jobEnds.isTrue hidle =>
      obtain rfl := Option.some.inj hstep
      exact h.frame rfl rfl rfl
    all_goals exact absurd hstep (by simp)

/-- **The staged file is a prefix of the body at every moment**, and the checks at the end take it
only when it is the body: they compare its size, and there is one prefix of each size. -/
theorem staged_sound {sha256 : Bytes → Digest} {s : State}
    (hr : (system endpoint chunkBytes body).Reachable s) :
    s.staged.getD [] <+: body ∧
      (∀ raw, readPart sha256 s.staged body.length (some (sha256 body)) = some raw → raw = body) ∧
      (intact sha256 s.staged body.length (some (sha256 body)) = true → s.staged = some body) := by
  have h := inductive_sound.of_reachable hr
  refine ⟨h.staged, ?_, ?_⟩
  · intro raw hraw
    obtain ⟨heq, hlen⟩ := size_of_readPart hraw
    exact (heq ▸ h.staged).eq_of_length hlen
  · intro hintact
    obtain ⟨raw, heq, hlen⟩ := size_of_intact hintact
    have hprefix : raw <+: body := by simpa [heq] using h.staged
    rw [heq, hprefix.eq_of_length hlen]

/-- A late chunk cuts the staged file, which the check then refuses. -/
def lateChunk : List Label :=
  [.post, .deliver 0, .put 2, .truncate, .answer, .receive (.accepted 2), .post, .deliver 1,
    .put 1, .truncate, .answer, .deliver 0, .put 2, .truncate, .answer]

theorem staged_sound_late :
    let s := ((system (.artifacts 1) 2 [7, 8, 9]).run Lib.anyStep { partAllowed := true }
      lateChunk).get rfl
    s.staged.getD [] <+: [7, 8, 9] ∧
      (∀ raw, readPart (fun _ => "") s.staged ([7, 8, 9] : Bytes).length (some "") = some raw →
        raw = [7, 8, 9]) ∧
      (intact (fun _ => "") s.staged ([7, 8, 9] : Bytes).length (some "") = true →
        s.staged = some [7, 8, 9]) :=
  staged_sound (Lib.System.ReachableBy.of_isSome rfl lateChunk rfl)

end Uploads

end AnsiDeck
