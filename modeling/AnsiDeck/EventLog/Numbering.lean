import AnsiDeck.Worker.EventSender

/-!
# The sender's queue is a window on the events it numbered

Whatever the sender has dropped, its pending events are the last ones it numbered, in order and
under their own numbers (`SenderOk`), and a batch it posts is a run of consecutive events
(`IsBatch`). Both only speak of the list of events produced so far, and neither is disturbed when
that list grows.
-/

namespace AnsiDeck

namespace EventLog

open InternalApi (EventsIn)
open Worker (EventSender)

variable {ε : Type} {fmt : EventFormat ε}

/-- These events as pending ones, numbered from `seq`. -/
def numbered (fmt : EventFormat ε) : Nat → List ε → List (Nat × ε × Nat)
  | _, [] => []
  | seq, e :: es => (seq, e, fmt.size e) :: numbered fmt (seq + 1) es

theorem numbered_append (seq : Nat) (a b : List ε) :
    numbered fmt seq (a ++ b) = numbered fmt seq a ++ numbered fmt (seq + a.length) b := by
  induction a generalizing seq with
  | nil => rfl
  | cons e a ih =>
    rw [List.cons_append, numbered, ih, numbered, List.length_cons]
    simp only [List.cons_append]
    congr 3
    omega

/-- Dropping through a number leaves a later window of the same events. -/
theorem dropWhile_numbered (fmt : EventFormat ε) (seq n : Nat) (es : List ε) :
    ∃ j ≤ es.length, (numbered fmt seq es).dropWhile (fun p => decide (p.1 ≤ n))
      = numbered fmt (seq + j) (es.drop j) := by
  induction es generalizing seq with
  | nil => exact ⟨0, Nat.le_refl _, rfl⟩
  | cons e es ih =>
    by_cases h : seq ≤ n
    · obtain ⟨j, hj, heq⟩ := ih (seq + 1)
      refine ⟨j + 1, by simpa using hj, ?_⟩
      rw [numbered, List.dropWhile_cons_of_pos (by simpa using h), heq, List.drop_succ_cons]
      congr 1
      omega
    · exact ⟨0, Nat.zero_le _, by
        rw [numbered, List.dropWhile_cons_of_neg (by simpa using h)]; rfl⟩

theorem prefix_fitting (size seq : Nat) (es : List ε) :
    EventSender.fitting size (numbered fmt seq es) <+: es := by
  induction es generalizing size seq with
  | nil => exact List.prefix_rfl
  | cons e es ih =>
    simp only [numbered, EventSender.fitting]
    split
    · exact List.nil_prefix
    · exact (List.prefix_cons_inj e).mpr (ih _ _)

/-! ## Batches -/

/-- The body holds consecutive events, from the one its `first_seq` names. -/
structure IsBatch (produced : List ε) (body : EventsIn ε) : Prop where
  firstSeq : 1 ≤ body.firstSeq
  events : body.events <+: produced.drop (body.firstSeq - 1)

theorem IsBatch.produce {produced : List ε} {body : EventsIn ε} (h : IsBatch produced body)
    (e : ε) : IsBatch (produced ++ [e]) body := by
  refine ⟨h.firstSeq, h.events.trans ?_⟩
  rw [List.drop_append]
  exact List.prefix_append _ _

/-- What a batch adds to the first `k` events, once those it overlaps with are skipped: the
events after them, up to the batch's last. -/
theorem IsBatch.append_fresh {produced : List ε} {body : EventsIn ε} (h : IsBatch produced body)
    {k : Nat} (hfirst : body.firstSeq ≤ k + 1)
    (hfresh : body.events.drop (k + 1 - body.firstSeq) ≠ []) :
    k ≤ body.firstSeq + body.events.length - 1 ∧
    body.firstSeq + body.events.length - 1 ≤ produced.length ∧
    produced.take k ++ body.events.drop (k + 1 - body.firstSeq)
      = produced.take (body.firstSeq + body.events.length - 1) := by
  obtain ⟨first, events⟩ := body
  have hone : 1 ≤ first := h.firstSeq
  have hlen : events.length ≤ produced.length - (first - 1) := by
    simpa using h.events.length_le
  have hlt : k + 1 - first < events.length := by
    by_contra hge
    exact hfresh (List.drop_eq_nil_of_le (Nat.le_of_not_lt hge))
  have hevents : events = (produced.drop (first - 1)).take events.length :=
    List.prefix_iff_eq_take.mp h.events
  dsimp only at hfirst hfresh ⊢
  refine ⟨by omega, by omega, ?_⟩
  rw [hevents, List.drop_take, List.drop_drop, show first - 1 + (k + 1 - first) = k by omega,
    ← List.take_add]
  congr 1
  rw [← hevents]
  omega

/-! ## The sender -/

/-- The next number is the next event's, and the pending events are the last ones produced. -/
structure SenderOk (fmt : EventFormat ε) (produced : List ε) (s : EventSender ε) : Prop where
  nextSeq : s.nextSeq = produced.length + 1
  pending : ∃ d ≤ produced.length, s.pending = numbered fmt (d + 1) (produced.drop d)

theorem SenderOk.init : SenderOk fmt ([] : List ε) {} :=
  ⟨rfl, 0, Nat.le_refl _, rfl⟩

theorem SenderOk.lastSeq {produced : List ε} {s : EventSender ε} (h : SenderOk fmt produced s) :
    s.lastSeq = produced.length := by
  rw [EventSender.lastSeq, h.nextSeq, Nat.add_sub_cancel]

theorem SenderOk.add {produced : List ε} {s : EventSender ε} (h : SenderOk fmt produced s)
    (e : ε) : SenderOk fmt (produced ++ [e]) (s.add fmt e) := by
  obtain ⟨d, hd, hp⟩ := h.pending
  refine ⟨by simp [EventSender.add, h.nextSeq], d, by simp; omega, ?_⟩
  rw [List.drop_append_of_le_length hd, numbered_append, ← hp, EventSender.add, h.nextSeq,
    List.length_drop, show d + 1 + (produced.length - d) = produced.length + 1 by omega]
  rfl

theorem SenderOk.dropThrough {produced : List ε} {s : EventSender ε}
    (h : SenderOk fmt produced s) (n : Nat) : SenderOk fmt produced (s.dropThrough n) := by
  obtain ⟨d, hd, hp⟩ := h.pending
  obtain ⟨j, hj, heq⟩ := dropWhile_numbered fmt (d + 1) n (produced.drop d)
  rw [List.length_drop] at hj
  refine ⟨h.nextSeq, d + j, by omega, ?_⟩
  change s.pending.dropWhile _ = _
  rw [hp, heq, List.drop_drop, show d + 1 + j = d + j + 1 by omega]

theorem SenderOk.clear {produced : List ε} {s : EventSender ε} (h : SenderOk fmt produced s) :
    SenderOk fmt produced s.clear :=
  ⟨h.nextSeq, produced.length, Nat.le_refl _, by rw [List.drop_length]; rfl⟩

theorem SenderOk.onAnswer {produced : List ε} {s : EventSender ε} (h : SenderOk fmt produced s)
    (body : EventsIn ε) (answer : Answer) :
    SenderOk fmt produced (s.onAnswer body answer).sender := by
  cases answer with
  | behind expected =>
    simp only [EventSender.onAnswer]
    split
    · exact h.clear
    · exact h.dropThrough _
  | gone => exact h.clear
  | acked seq cancel => exact h.dropThrough _
  | done => exact h.dropThrough _
  | payload => exact h.dropThrough _
  | refused code => exact h.dropThrough _

/-- What the thread posts is a batch. -/
theorem SenderOk.poll {produced : List ε} {s : EventSender ε} (h : SenderOk fmt produced s)
    {reason : Option Worker.StopReason} {body : EventsIn ε}
    (hpost : s.poll reason = .post body) : IsBatch produced body := by
  obtain ⟨d, -, hp⟩ := h.pending
  have hbatch : EventSender.batch s.pending = some body := by
    unfold EventSender.poll at hpost
    split at hpost
    · exact absurd hpost (by simp)
    · split at hpost
      · exact absurd hpost (by simp)
      · split at hpost
        · exact absurd hpost (by simp)
        · next hb => rw [hb, EventSender.Poll.post.inj hpost]
  rw [hp] at hbatch
  cases hdrop : produced.drop d with
  | nil => rw [hdrop] at hbatch; exact absurd hbatch (by simp [numbered, EventSender.batch])
  | cons e es =>
    rw [hdrop] at hbatch
    simp only [numbered, EventSender.batch, Option.some.injEq] at hbatch
    subst hbatch
    refine ⟨by simp, ?_⟩
    rw [Nat.add_sub_cancel, hdrop]
    exact (List.prefix_cons_inj e).mpr (prefix_fitting _ _ _)

end EventLog

end AnsiDeck
