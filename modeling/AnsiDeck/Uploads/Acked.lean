import AnsiDeck.Uploads.Sound

/-!
# What was acknowledged stays staged, as long as no chunk ends before it

The handlers cut the staged file where the chunk they wrote ends. For the chunk a worker resends
because it got no answer, that is where the file ends anyway. A request that was delayed on its way
and arrives after later chunks were acknowledged cuts those off again, and its worker, which has
their answers, does not send them once more.
-/

namespace AnsiDeck

namespace Uploads

variable {endpoint : Endpoint} {chunkBytes : Nat} {body : Bytes}

/-- A chunk the API takes does not end before what it acknowledged. -/
def notBehind (endpoint : Endpoint) (s : State) : Label → Prop
  | .deliver request => s.closed = false → ∀ r ∈ s.sent[request]?,
      endpoint.refusal s.owned s.partAllowed s.size r = none → s.acked ≤ r.stop
  | _ => True

structure Kept (body : Bytes) (s : State) : Prop where
  sound : Sound body s
  acked : s.closed = false → s.acked ≤ s.size
  writing : s.closed = false → ∀ w r, s.writing = some w → s.sent[w.request]? = some r →
    s.acked ≤ r.stop

theorem Kept.init {s : State} (h : Init s) : Kept body s := by
  refine ⟨.init h, ?_, ?_⟩
  · rw [h]
    exact fun _ => Nat.zero_le _
  · rw [h]
    simp

/-- A step that leaves the API's side as it is. -/
theorem Kept.frame {s t : State} (h : Kept body s) (ht : Sound body t)
    (hstaged : t.staged = s.staged) (hwriting : t.writing = s.writing ∨ t.writing = none)
    (hsent : ∀ w, s.writing = some w → t.sent[w.request]? = s.sent[w.request]?)
    (hacked : t.acked = s.acked) (hclosed : t.closed = false → s.closed = false) :
    Kept body t := by
  refine ⟨ht, ?_, ?_⟩
  · intro hc
    rw [hacked, State.size, hstaged]
    exact h.acked (hclosed hc)
  · intro hc w r hw hr
    rcases hwriting with heq | hnone
    · rw [heq] at hw
      rw [hsent w hw] at hr
      rw [hacked]
      exact h.writing (hclosed hc) w r hw hr
    · rw [hnone] at hw
      exact absurd hw (by simp)

theorem inductive_kept :
    (system endpoint chunkBytes body).Inductive (notBehind endpoint) (Kept body) where
  init _ h := Kept.init h
  step := by
    intro s label t h hok hstep
    have ht : Sound body t := inductive_sound.step s label t h.sound hok hstep
    change step endpoint chunkBytes body s label = some t at hstep
    cases label
    case deliver i =>
      obtain ⟨hidle, r, hr, ⟨answer, -, rfl⟩ | ⟨hnone, rfl⟩⟩ := deliver_cases hstep
      · exact h.frame ht rfl (.inl rfl) (fun _ _ => rfl) rfl id
      · refine ⟨ht, by simpa [State.size] using h.acked, ?_⟩
        intro hc w r' hw hr'
        obtain rfl := Option.some.inj hw
        obtain rfl := Option.some.inj (hr.symm.trans hr')
        exact hok hc r hr hnone
    case put count =>
      have hsize := (h.sound.put hstep).2
      obtain ⟨w, r, hw, hr, -, -, rfl⟩ := put_cases hstep
      refine ⟨ht, fun hc => Nat.le_trans (h.acked hc) hsize, ?_⟩
      intro hc w' r' hw' hr'
      obtain rfl := Option.some.inj hw'
      exact h.writing hc w r' hw hr'
    case truncate =>
      obtain ⟨-, w, r, hw, hr, hw', hsize⟩ := h.sound.truncate hstep
      obtain ⟨w₁, r₁, -, -, -, rfl⟩ := truncate_cases hstep
      refine ⟨ht, fun hc => ?_, ?_⟩
      · rw [hsize]
        exact h.writing hc w r hw hr
      · intro hc w₂ r₂ hw₂ hr₂
        obtain rfl := Option.some.inj (hw'.symm.trans hw₂)
        exact h.writing hc w r₂ hw hr₂
    case answer =>
      obtain ⟨w, r, hw, hr, htruncated, rfl⟩ := answer_cases hstep
      obtain ⟨r', hwok⟩ := h.sound.writing w hw
      obtain rfl := Option.some.inj (hr.symm.trans hwok.request)
      refine ⟨ht, fun hc => ?_, by simp⟩
      have hsize := (hwok.whole htruncated).2
      show max s.acked r.stop ≤ s.size
      rw [hsize]
      exact Nat.max_le.2 ⟨h.writing hc w r hw hr, Nat.le_refl _⟩
    case post =>
      simp only [step] at hstep
      split at hstep
      · split at hstep
        · obtain rfl := Option.some.inj hstep
          refine h.frame ht rfl (.inl rfl) (fun w hw => ?_) rfl id
          obtain ⟨r, hr⟩ := h.sound.writing w hw
          exact List.getElem?_append_left (List.getElem?_eq_some_iff.1 hr.request).1
        · exact absurd hstep (by simp)
      · exact absurd hstep (by simp)
    case transportError =>
      simp only [step] at hstep
      split at hstep
      · obtain rfl := Option.some.inj hstep
        exact h.frame ht rfl (.inl rfl) (fun _ _ => rfl) rfl id
      · exact absurd hstep (by simp)
    case receive answer =>
      simp only [step] at hstep
      split at hstep
      · split at hstep
        · obtain rfl := Option.some.inj hstep
          exact h.frame ht rfl (.inl rfl) (fun _ _ => rfl) rfl id
        · exact absurd hstep (by simp)
      · exact absurd hstep (by simp)
    case giveUp =>
      obtain rfl := Option.some.inj hstep
      exact h.frame ht rfl (.inl rfl) (fun _ _ => rfl) rfl id
    case stage partAllowed =>
      obtain rfl := Option.some.inj hstep
      exact h.frame ht rfl (.inl rfl) (fun _ _ => rfl) rfl id
    all_goals
      simp only [step] at hstep
      split at hstep
    case stop.isTrue =>
      obtain rfl := Option.some.inj hstep
      exact h.frame ht rfl (.inr rfl) (fun _ _ => rfl) rfl id
    case takeOver.isTrue =>
      obtain rfl := Option.some.inj hstep
      exact ⟨ht, by simp, by simp⟩
    case jobEnds.isTrue =>
      obtain rfl := Option.some.inj hstep
      exact ⟨ht, by simp, by simp⟩
    all_goals exact absurd hstep (by simp)

/-- **What was acknowledged stays staged**, until the file is taken over or the job ends, in every
run where no chunk that the API takes ends before it; and once the end of the body was, the checks
at the end take the file. -/
theorem acked_kept {sha256 : Bytes → Digest} {s : State}
    (hr : (system endpoint chunkBytes body).ReachableBy (notBehind endpoint) s)
    (hopen : s.closed = false) :
    body.take s.acked <+: s.staged.getD [] ∧
      (body ≠ [] → body.length ≤ s.acked →
        readPart sha256 s.staged body.length (some (sha256 body)) = some body ∧
          intact sha256 s.staged body.length (some (sha256 body)) = true) := by
  have h := inductive_kept.of_reachable hr
  have hsize : s.acked ≤ (s.staged.getD []).length := h.acked hopen
  refine ⟨?_, ?_⟩
  · rw [eq_take_of_begins h.sound.staged]
    exact List.take_prefix_take_left hsize
  · intro hne hall
    have hbody : s.staged.getD [] = body :=
      h.sound.staged.eq_of_length
        (Nat.le_antisymm h.sound.staged.length_le (Nat.le_trans hall hsize))
    have hstaged : s.staged = some body := by
      cases hs : s.staged with
      | none => exact absurd (by rw [← hbody, hs]; rfl) hne
      | some raw => rw [hs] at hbody; rw [← hbody]; rfl
    rw [hstaged]
    exact ⟨readPart_self _ _, intact_self _ _⟩

/-! ## A late chunk -/

/-- The worker is at `offset`, with all before it staged. -/
structure Ready (endpoint : Endpoint) (body : Bytes) (s : State) (offset : Nat) : Prop where
  owned : s.owned = true
  partAllowed : s.partAllowed = true
  writing : s.writing = none
  worker : s.worker = .uploading offset
  staged : s.staged.getD [] = body.take offset
  closed : s.closed = false
  room : body.length ≤ endpoint.limit
  le : offset ≤ body.length

theorem refusal_eq_none {owned partAllowed : Bool} {size : Nat} {r : Request}
    (howned : owned = true) (hpart : partAllowed = true) (hoffset : r.offset ≤ size)
    (hstop : r.stop ≤ endpoint.limit) : endpoint.refusal owned partAllowed size r = none := by
  cases endpoint with
  | artifacts maxMb =>
    simp [Endpoint.refusal, refusal, howned, Nat.not_lt.2 hoffset, Nat.not_lt.2 hstop]
  | output maxMb =>
    simp [Endpoint.refusal, refusal, howned, hpart, Nat.not_lt.2 hoffset, Nat.not_lt.2 hstop]

/-- A request the API takes may be written and answered. -/
theorem taken {s : State} {i : Nat} {r : Request} (hs : Sound body s)
    (hr : s.sent[i]? = some r) (hidle : s.writing = none)
    (htaken : endpoint.refusal s.owned s.partAllowed s.size r = none) :
    (system endpoint chunkBytes body).Path Lib.anyStep s { s with
      staged := some (body.take r.stop)
      answers := (i, .accepted r.stop) :: s.answers
      acked := max s.acked r.stop } := by
  have hoffset : r.offset ≤ (s.staged.getD []).length := offset_le_of_refusal htaken
  have hchunk := hs.sent r (List.mem_of_getElem? hr)
  have hstop : r.stop ≤ max (s.staged.getD []).length body.length := by
    have hlen := hchunk.length_le
    rw [List.length_drop] at hlen
    simp only [Request.stop]
    omega
  have hbody := hs.staged.length_le
  have hfile : AnsiDeck.truncate r.stop (writeAt r.offset r.chunk (s.staged.getD [])) =
      body.take r.stop := by
    rw [writeAt_body hs.staged hoffset hchunk, truncate_of_le, List.take_take, Nat.min_eq_left]
    · exact Nat.le_max_right _ _
    · rw [List.length_take]
      exact Nat.le_min.2 ⟨Nat.le_max_right _ _, by omega⟩
  let opened : State := { s with
    staged := some (s.staged.getD []), writing := some { request := i } }
  let written : State := { s with
    staged := some (writeAt r.offset r.chunk (s.staged.getD []))
    writing := some { request := i, written := r.chunk.length } }
  let cut : State := { s with
    staged := some (body.take r.stop)
    writing := some { request := i, written := r.chunk.length, truncated := true } }
  have hdeliver : (system endpoint chunkBytes body).step s (.deliver i) = some opened := by
    simp only [system, step, hidle, hr, htaken, opened]
  have hput : (system endpoint chunkBytes body).step opened (.put r.chunk.length) =
      some written := by
    simp [system, step, hr, opened, written]
  have htruncate : (system endpoint chunkBytes body).step written .truncate = some cut := by
    simp [system, step, hr, hfile, written, cut]
  have hanswer : (system endpoint chunkBytes body).step cut .answer = some { s with
      staged := some (body.take r.stop)
      answers := (i, .accepted r.stop) :: s.answers
      acked := max s.acked r.stop } := by
    simp [system, step, hr, hidle, cut]
  exact (((Lib.System.Path.single trivial hdeliver).tail trivial hput).tail trivial
    htruncate).tail trivial hanswer

/-- **A chunk that ends before what was acknowledged cuts it off.** -/
theorem behind_loses {s : State} {i : Nat} {r : Request}
    (hs : (system endpoint chunkBytes body).Reachable s) (hr : s.sent[i]? = some r)
    (hidle : s.writing = none) (hopen : s.closed = false)
    (htaken : endpoint.refusal s.owned s.partAllowed s.size r = none) (hbehind : r.stop < s.acked) :
    ∃ t, (system endpoint chunkBytes body).Reachable t ∧ t.closed = false ∧
      t.size ≤ r.stop ∧ t.size < t.acked := by
  refine ⟨_, hs.extend (taken (inductive_sound.of_reachable hs) hr hidle htaken), hopen, ?_⟩
  simp only [State.size, Option.getD_some, List.length_take]
  omega

/-- One round of the worker's loop, when nothing goes wrong. -/
theorem Ready.round {s : State} {offset : Nat} (h : Ready endpoint body s offset)
    (hs : (system endpoint chunkBytes body).Reachable s) (hmore : offset < body.length) :
    ∃ t, (system endpoint chunkBytes body).Reachable t ∧
      Ready endpoint body t (offset + min chunkBytes (body.length - offset)) ∧
      t.sent = s.sent ++ [⟨offset, (body.drop offset).take chunkBytes⟩] ∧
      offset + min chunkBytes (body.length - offset) ≤ t.acked := by
  let r : Request := ⟨offset, (body.drop offset).take chunkBytes⟩
  have hstop : r.stop = offset + min chunkBytes (body.length - offset) := by
    simp [r, Request.stop]
  have hle : r.stop ≤ body.length := by omega
  let posted : State := { s with
    sent := s.sent ++ [r], worker := .waiting s.sent.length offset }
  have hpost : (system endpoint chunkBytes body).step s .post = some posted := by
    simp only [system, step, h.worker, if_pos hmore]
    rfl
  have hposted : (system endpoint chunkBytes body).Reachable posted :=
    hs.extend (.single trivial hpost)
  have hr : posted.sent[s.sent.length]? = some r := by
    simp [posted]
  have hsize : posted.size = offset := by
    show (s.staged.getD []).length = offset
    rw [h.staged, List.length_take, Nat.min_eq_left h.le]
  have htaken : endpoint.refusal posted.owned posted.partAllowed posted.size r = none :=
    refusal_eq_none h.owned h.partAllowed (Nat.le_of_eq hsize.symm) (Nat.le_trans hle h.room)
  have hanswered := hposted.extend
    (taken (inductive_sound.of_reachable hposted) hr h.writing htaken)
  let received : State := { posted with
    staged := some (body.take r.stop)
    answers := (s.sent.length, .accepted r.stop) :: posted.answers
    acked := max posted.acked r.stop
    worker := .uploading r.stop }
  have hreceive : (system endpoint chunkBytes body).step { posted with
      staged := some (body.take r.stop)
      answers := (s.sent.length, .accepted r.stop) :: posted.answers
      acked := max posted.acked r.stop } (.receive (.accepted r.stop)) = some received := by
    simp [system, step, posted, received, react]
  refine ⟨received, hanswered.extend (.single trivial hreceive), ?_⟩
  rw [← hstop]
  exact ⟨⟨h.owned, h.partAllowed, h.writing, rfl, rfl, h.closed, h.room, hle⟩, rfl,
    Nat.le_max_right _ _⟩

/-- A body of more than one chunk can lose bytes that were acknowledged. -/
theorem late_chunk_loses (hchunk : 0 < chunkBytes) (hmore : chunkBytes < body.length)
    (hroom : body.length ≤ endpoint.limit) :
    ∃ s, (system endpoint chunkBytes body).Reachable s ∧ s.closed = false ∧
      s.size ≤ chunkBytes ∧ s.size < s.acked := by
  let start : State := { partAllowed := true }
  have hstart : (system endpoint chunkBytes body).Reachable start := ⟨start, rfl, .refl _⟩
  have hready : Ready endpoint body start 0 :=
    ⟨rfl, rfl, rfl, rfl, rfl, rfl, hroom, Nat.zero_le _⟩
  obtain ⟨s₁, hs₁, hready₁, hsent₁, -⟩ := hready.round hstart (Nat.lt_trans hchunk hmore)
  rw [Nat.sub_zero, Nat.zero_add, Nat.min_eq_left (Nat.le_of_lt hmore)] at hready₁
  obtain ⟨s₂, hs₂, hready₂, hsent₂, hacked₂⟩ := hready₁.round hs₁ hmore
  have hfirst : s₂.sent[0]? = some ⟨0, body.take chunkBytes⟩ := by
    rw [hsent₂, hsent₁]
    rfl
  have hstop : (⟨0, body.take chunkBytes⟩ : Request).stop = chunkBytes := by
    simp [Request.stop, Nat.min_eq_left (Nat.le_of_lt hmore)]
  have htaken : endpoint.refusal s₂.owned s₂.partAllowed s₂.size ⟨0, body.take chunkBytes⟩ = none :=
    refusal_eq_none hready₂.owned hready₂.partAllowed (Nat.zero_le _)
      (by rw [hstop]; exact Nat.le_trans (Nat.le_of_lt hmore) hroom)
  obtain ⟨t, ht, hopen, hshort, hlost⟩ := behind_loses hs₂ hfirst hready₂.writing
    hready₂.closed htaken (by rw [hstop]; omega)
  exact ⟨t, ht, hopen, by rw [← hstop]; exact hshort, hlost⟩

/-- The first of two chunks of an artifacts tar, delivered again after both were acknowledged. -/
theorem acked_lost : ¬ ∀ (endpoint : Endpoint) (body : Bytes) (sha256 : Bytes → Digest) (s : State),
    (system endpoint refreshChunkBytes body).Reachable s → s.closed = false →
      body.take s.acked <+: s.staged.getD [] ∧
        (body ≠ [] → body.length ≤ s.acked →
          readPart sha256 s.staged body.length (some (sha256 body)) = some body ∧
            intact sha256 s.staged body.length (some (sha256 body)) = true) := by
  intro h
  obtain ⟨s, hs, hopen, hshort, hlost⟩ := @late_chunk_loses (.artifacts 20) refreshChunkBytes
    (List.replicate (refreshChunkBytes + 1) 0) (by decide)
    (by rw [List.length_replicate]; exact Nat.lt_succ_self _)
    (by rw [List.length_replicate]; decide)
  have hlen := (h _ _ (fun _ => "") s hs hopen).1.length_le
  rw [List.length_take, List.length_replicate] at hlen
  have hsize : min s.acked (refreshChunkBytes + 1) ≤ s.size := hlen
  omega

/-- A body of two chunks whose first is resent after its answer was lost, then taken over. -/
def resent : List Label :=
  [.post, .deliver 0, .put 1, .stop, .deliver 0, .put 2, .truncate, .answer, .transportError,
    .post, .deliver 1, .put 2, .truncate, .answer, .receive (.accepted 2), .post, .deliver 2,
    .put 1, .truncate, .answer]

instance (s : State) (label : Label) : Decidable (notBehind endpoint s label) :=
  match label with
  | .deliver request => inferInstanceAs (Decidable (s.closed = false → ∀ r ∈ s.sent[request]?,
      endpoint.refusal s.owned s.partAllowed s.size r = none → s.acked ≤ r.stop))
  | .post | .transportError | .receive _ | .giveUp | .put _ | .truncate | .answer | .stop
  | .stage _ | .takeOver | .jobEnds => isTrue trivial

theorem acked_kept_resent :
    let s := ((system (.output 1) 2 [7, 8, 9]).run (notBehind (.output 1))
      { partAllowed := true } resent).get rfl
    ([7, 8, 9] : Bytes).take s.acked <+: s.staged.getD [] ∧
      (([7, 8, 9] : Bytes) ≠ [] → ([7, 8, 9] : Bytes).length ≤ s.acked →
        readPart (fun _ => "") s.staged ([7, 8, 9] : Bytes).length (some "") = some [7, 8, 9] ∧
          intact (fun _ => "") s.staged ([7, 8, 9] : Bytes).length (some "") = true) :=
  acked_kept (Lib.System.ReachableBy.of_isSome rfl resent rfl) rfl

end Uploads

end AnsiDeck
