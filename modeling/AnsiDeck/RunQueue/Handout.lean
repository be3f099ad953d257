import AnsiDeck.RunQueue.Order

/-!
# Who owns a run, and how often its job is handed out

The digests on the rows follow the claims (`TokensOk`): each was issued, belongs to one run, and
is gone from its row for good once its claim is over. That alone settles whose calls have an
effect, in every run of the system.

Handing a job out once needs more (`HandoutOk`): a run whose payload was returned must not go
back in the queue. It can, because `_store_down`'s second transaction only checks that its claim
still owns the run, not that the job token is still there: between the two transactions another
copy of the request may have been given the payload. `rechecked` is the condition on a step that
leaves this out; within it the job is handed out at most once.
-/

namespace AnsiDeck

namespace RunQueue

open InternalApi (owns)
open Lib (Table)

variable {ε : Type} {cfg : Settings} {fmt : EventFormat ε}

/-- The version a claim in flight is about to write. -/
def Work.pending? : Work ε → Option Run
  | .picked after | .marked after => some after
  | _ => none

/-! ## Tokens -/

structure TokensOk (s : State ε) : Prop where
  issued : ∀ k r c, s.runs.get? k = some r → r.claimTokenHash = some c → c ∈ s.issued ∧
    c ∉ s.overClaims
  distinct : ∀ k k' r r' c, s.runs.get? k = some r → s.runs.get? k' = some r' →
    r.claimTokenHash = some c → r'.claimTokenHash = some c → k = k'
  /-- A queued run has no tokens, a finished one no claim. -/
  queued : ∀ k r, s.runs.get? k = some r → r.status = .queued →
    r.claimTokenHash = none ∧ r.jobTokenHash = none
  finished : ∀ k r, s.runs.get? k = some r → r.status.finished = true → r.claimTokenHash = none
  /-- The claims that are about to commit have tokens no row has. -/
  pending : ∀ i tx after, s.txs.get? i = some tx → tx.work.pending? = some after →
    ∃ c, after.claimTokenHash = some c ∧ c ∈ s.issued ∧ c ∉ s.overClaims ∧
      ∀ k r, s.runs.get? k = some r → r.claimTokenHash ≠ some c
  pendingDistinct : ∀ i j tx tx' after after' c, s.txs.get? i = some tx → s.txs.get? j = some tx' →
    tx.work.pending? = some after → tx'.work.pending? = some after' →
    after.claimTokenHash = some c → after'.claimTokenHash = some c → i = j
  overClaims : ∀ c ∈ s.overClaims, c ∈ s.issued
  /-- Every payload went to the claim that owned the run, while it ran and nobody had asked to
  cancel it. -/
  returned : ∀ p ∈ s.returned, p.before.status = .running ∧ p.before.cancelRequestedAt = none ∧
    p.before.claimTokenHash = some p.claim ∧ p.claim ∉ p.overClaims

theorem TokensOk.init : TokensOk ({} : State ε) where
  issued k r c h := absurd h (by simp)
  distinct k k' r r' c h := absurd h (by simp)
  queued k r h := absurd h (by simp)
  finished k r h := absurd h (by simp)
  pending i tx after h := absurd h (by simp)
  pendingDistinct i j tx tx' after after' c h := absurd h (by simp)
  overClaims c h := absurd h (by simp)
  returned p h := absurd h (by simp)

/-- Fewer claims in flight. -/
theorem TokensOk.txs {s : State ε} (h : TokensOk s) {txs : Table Nat (Tx ε)}
    (hsub : ∀ i tx after, txs.get? i = some tx → tx.work.pending? = some after →
      ∃ tx', s.txs.get? i = some tx' ∧ tx'.work.pending? = some after) :
    TokensOk { s with txs := txs } where
  issued := h.issued
  distinct := h.distinct
  queued := h.queued
  finished := h.finished
  pending i tx after hi hp := by
    obtain ⟨tx', hi', hp'⟩ := hsub i tx after hi hp
    exact h.pending i tx' after hi' hp'
  pendingDistinct i j tx tx' after after' c hi hj hp hp' := by
    obtain ⟨u, hi', hu⟩ := hsub i tx after hi hp
    obtain ⟨u', hj', hu'⟩ := hsub j tx' after' hj hp'
    exact h.pendingDistinct i j u u' after after' c hi' hj' hu hu'
  overClaims := h.overClaims
  returned := h.returned

/-- Replacing a transaction by one that claims nothing, or the same. -/
theorem TokensOk.put {s : State ε} (h : TokensOk s) {i : Nat} {tx : Tx ε}
    (hsame : ∀ after, tx.work.pending? = some after →
      ∃ old, s.txs.get? i = some old ∧ old.work.pending? = some after) :
    TokensOk { s with txs := s.txs.put i tx } := by
  refine h.txs fun j tx' after hj hp => ?_
  rw [Table.get?_put] at hj
  split at hj
  · next hij =>
    obtain rfl := Option.some.inj hj
    subst hij
    exact hsame after hp
  · exact ⟨tx', hj, hp⟩

theorem TokensOk.remove {s : State ε} (h : TokensOk s) (i : Nat) :
    TokensOk { s with txs := s.txs.remove i } := by
  refine h.txs fun j tx' after hj hp => ?_
  obtain ⟨-, hj⟩ := Table.get?_remove_eq_some.1 hj
  exact ⟨tx', hj, hp⟩

/-- A row's claim stays, or is over, or comes from a claim that commits: none of these gives two
rows one token. -/
theorem TokensOk.commit {s : State ε} (h : TokensOk s) {i : Nat} {tx : Tx ε} {row : Run}
    (found : s.txs.get? i = some tx) (hseen : s.runs.get? tx.run = some tx.seen)
    (hclaim : row.claimTokenHash = tx.seen.claimTokenHash ∨ row.claimTokenHash = none ∨
      (tx.work.pending? = some row ∧ tx.seen.status = .queued))
    (hqueued : row.status = .queued → row.claimTokenHash = none ∧ row.jobTokenHash = none)
    (hfinished : row.status.finished = true → row.claimTokenHash = none) :
    TokensOk (commitRow s i tx row) := by
  have hrow : ∀ k r, (s.runs.put tx.run row).get? k = some r →
      (k = tx.run ∧ r = row) ∨ (k ≠ tx.run ∧ s.runs.get? k = some r) := by
    intro k r hk
    rw [Table.get?_put] at hk
    split at hk
    · next hk' => exact .inl ⟨hk', (Option.some.inj hk).symm⟩
    · next hk' => exact .inr ⟨hk', hk⟩
  have htx : ∀ j tx', (s.txs.remove i).get? j = some tx' → j ≠ i ∧ s.txs.get? j = some tx' := by
    intro j tx' hj
    obtain ⟨hne, hj⟩ := Table.get?_remove_eq_some.1 hj
    exact ⟨hne, hj⟩
  -- the row's token, if any, was not on another row, nor is it over
  have htoken : ∀ c, row.claimTokenHash = some c → c ∈ s.issued ∧ c ∉ s.overClaims ∧
      (∀ k r, k ≠ tx.run → s.runs.get? k = some r → r.claimTokenHash ≠ some c) ∧
      (∀ j tx' after, j ≠ i → s.txs.get? j = some tx' → tx'.work.pending? = some after →
        after.claimTokenHash ≠ some c) := by
    intro c hc
    obtain hsame | hnone | ⟨hpend, -⟩ := hclaim
    · have hold := hsame.symm.trans hc
      refine ⟨(h.issued _ _ c hseen hold).1, (h.issued _ _ c hseen hold).2,
        fun k r hne hk hr => hne (h.distinct k tx.run r tx.seen c hk hseen hr hold),
        fun j tx' after hne hj hp ha => ?_⟩
      obtain ⟨c', hc', -, -, hno⟩ := h.pending j tx' after hj hp
      obtain rfl := Option.some.inj (ha.symm.trans hc')
      exact hno _ _ hseen hold
    · exact absurd (hnone.symm.trans hc) (by simp)
    · obtain ⟨c', hc', hissued, hover, hno⟩ := h.pending i tx row found hpend
      obtain rfl := Option.some.inj (hc.symm.trans hc')
      exact ⟨hissued, hover, fun k r _ hk => hno k r hk,
        fun j tx' after hne hj hp ha =>
          hne (h.pendingDistinct j i tx' tx after row c hj found hp hpend ha hc)⟩
  -- what is newly over was the old row's token
  have hended : ∀ c ∈ endedClaim tx.seen row, tx.seen.claimTokenHash = some c ∧
      row.claimTokenHash ≠ some c := by
    intro c hc
    unfold endedClaim at hc
    split at hc
    · next c' hc' =>
      split at hc
      · exact absurd hc (by simp)
      next hne =>
        obtain rfl := List.mem_singleton.mp hc
        exact ⟨hc', hne⟩
    · exact absurd hc (by simp)
  have hover : ∀ c, c ∉ s.overClaims →
      (tx.seen.claimTokenHash = some c → row.claimTokenHash = some c) →
      c ∉ endedClaim tx.seen row ++ s.overClaims := by
    intro c hc himp hmem
    rcases List.mem_append.mp hmem with hmem | hmem
    · exact (hended c hmem).2 (himp (hended c hmem).1)
    · exact hc hmem
  exact {
    issued := by
      intro k r c hk hr
      obtain ⟨rfl, rfl⟩ | ⟨hne, hk⟩ := hrow k r hk
      · exact ⟨(htoken c hr).1, hover c (htoken c hr).2.1 fun _ => hr⟩
      · refine ⟨(h.issued k r c hk hr).1, hover c (h.issued k r c hk hr).2 fun hs => ?_⟩
        exact absurd (h.distinct k tx.run r tx.seen c hk hseen hr hs) hne
    distinct := by
      intro k k' r r' c hk hk' hr hr'
      obtain ⟨rfl, rfl⟩ | ⟨hne, hold⟩ := hrow k r hk <;>
        obtain ⟨rfl, rfl⟩ | ⟨hne', hold'⟩ := hrow k' r' hk'
      · rfl
      · exact absurd hr' ((htoken c hr).2.2.1 k' r' hne' hold')
      · exact absurd hr ((htoken c hr').2.2.1 k r hne hold)
      · exact h.distinct k k' r r' c hold hold' hr hr'
    queued := by
      intro k r hk hr
      obtain ⟨rfl, rfl⟩ | ⟨hne, hk⟩ := hrow k r hk
      · exact hqueued hr
      · exact h.queued k r hk hr
    finished := by
      intro k r hk hr
      obtain ⟨rfl, rfl⟩ | ⟨hne, hk⟩ := hrow k r hk
      · exact hfinished hr
      · exact h.finished k r hk hr
    pending := by
      intro j tx' after hj hp
      obtain ⟨hne, hold⟩ := htx j tx' hj
      obtain ⟨c, hc, hissued, hnot, hno⟩ := h.pending j tx' after hold hp
      refine ⟨c, hc, hissued, hover c hnot fun hs => absurd hs (hno _ _ hseen), fun k r hk hr => ?_⟩
      obtain ⟨rfl, rfl⟩ | ⟨hne', hk⟩ := hrow k r hk
      · exact (htoken c hr).2.2.2 j tx' after hne hold hp hc
      · exact hno k r hk hr
    pendingDistinct := by
      intro j k tx₁ tx₂ a b c hj hk
      exact h.pendingDistinct j k tx₁ tx₂ a b c (htx j tx₁ hj).2 (htx k tx₂ hk).2
    overClaims := by
      intro c hc
      rcases List.mem_append.mp hc with hc | hc
      · exact (h.issued _ _ c hseen (hended c hc).1).1
      · exact h.overClaims c hc
    returned := h.returned }

theorem Change.tokens {s s' : State ε} {a : Label ε} (h : Change cfg s a s') (hb : Base s)
    (ht : TokensOk s) : TokensOk s' := by
  cases h with
  | idle now refreshes catalog =>
    exact ⟨ht.issued, ht.distinct, ht.queued, ht.finished, ht.pending, ht.pendingDistinct,
      ht.overClaims, ht.returned⟩
  | triggered id run new isFresh =>
    simp only [fresh, Bool.and_eq_true, decide_eq_true_eq, Option.isNone_iff_eq_none] at isFresh
    obtain ⟨⟨⟨hqueued, -⟩, hclaim⟩, hjob⟩ := isFresh
    have hrow : ∀ k r, (s.runs.put id run).get? k = some r → r = run ∨ s.runs.get? k = some r := by
      intro k r hk
      rw [Table.get?_put] at hk
      split at hk
      · exact .inl (Option.some.inj hk).symm
      · exact .inr hk
    have hclaimed : ∀ k r c, (s.runs.put id run).get? k = some r → r.claimTokenHash = some c →
        s.runs.get? k = some r := by
      intro k r c hk hr
      obtain rfl | hk := hrow k r hk
      · exact absurd (hclaim.symm.trans hr) (by simp)
      · exact hk
    exact {
      issued := fun k r c hk hr => ht.issued k r c (hclaimed k r c hk hr) hr
      distinct := fun k k' r r' c hk hk' hr hr' =>
        ht.distinct k k' r r' c (hclaimed k r c hk hr) (hclaimed k' r' c hk' hr') hr hr'
      queued := fun k r hk hr => (hrow k r hk).elim (fun h => h ▸ ⟨hclaim, hjob⟩)
        fun hk => ht.queued k r hk hr
      finished := fun k r hk hr => (hrow k r hk).elim (fun h => h ▸ hclaim)
        fun hk => ht.finished k r hk hr
      pending := fun i tx after hi hp => by
        obtain ⟨c, hc, hissued, hover, hno⟩ := ht.pending i tx after hi hp
        exact ⟨c, hc, hissued, hover, fun k r hk hr => hno k r (hclaimed k r c hk hr) hr⟩
      pendingDistinct := ht.pendingDistinct
      overClaims := ht.overClaims
      returned := ht.returned }
  | picked i started id run workerId caps claimToken jobToken new found picks claimFresh jobFresh =>
    have hmem : ∀ c ∈ s.issued,
        c ∈ cfg.hashToken claimToken :: cfg.hashToken jobToken :: s.issued := fun c hc =>
      List.mem_cons_of_mem _ (List.mem_cons_of_mem _ hc)
    -- a token in flight is the new one or an issued one
    have htx : ∀ j tx after c, (s.txs.put i ⟨started, id, run,
        .picked (claimed cfg s started workerId claimToken jobToken run)⟩).get? j = some tx →
        tx.work.pending? = some after → after.claimTokenHash = some c →
        (j = i ∧ c = cfg.hashToken claimToken) ∨ (s.txs.get? j = some tx ∧ c ∈ s.issued) := by
      intro j tx after c hj hp hc
      rw [Table.get?_put] at hj
      split at hj
      · next hji =>
        obtain rfl := Option.some.inj hj
        obtain rfl := Option.some.inj hp
        exact .inl ⟨hji, (Option.some.inj hc).symm⟩
      · obtain ⟨c', hc', hissued, -⟩ := ht.pending j tx after hj hp
        exact .inr ⟨hj, (Option.some.inj (hc.symm.trans hc')) ▸ hissued⟩
    exact {
      issued := fun k r c hk hr => ⟨hmem c (ht.issued k r c hk hr).1, (ht.issued k r c hk hr).2⟩
      distinct := ht.distinct
      queued := ht.queued
      finished := ht.finished
      pending := fun j tx after hj hp => by
        rw [Table.get?_put] at hj
        split at hj
        · obtain rfl := Option.some.inj hj
          obtain rfl := Option.some.inj hp
          exact ⟨_, rfl, List.mem_cons_self, fun hc => claimFresh (ht.overClaims _ hc),
            fun k r hk hr => claimFresh (ht.issued k r _ hk hr).1⟩
        · obtain ⟨c, hc, hissued, hover, hno⟩ := ht.pending j tx after hj hp
          exact ⟨c, hc, hmem c hissued, hover, hno⟩
      pendingDistinct := fun j k tx tx' a b c hj hk ha hb hca hcb => by
        obtain ⟨hji, hc⟩ | ⟨hj', hissued⟩ := htx j tx a c hj ha hca <;>
          obtain ⟨hki, hc'⟩ | ⟨hk', hissued'⟩ := htx k tx' b c hk hb hcb
        · rw [hji, hki]
        · exact absurd (hc ▸ hissued') claimFresh
        · exact absurd (hc' ▸ hissued) claimFresh
        · exact ht.pendingDistinct j k tx tx' a b c hj' hk' ha hb hca hcb
      overClaims := fun c hc => hmem c (ht.overClaims c hc)
      returned := ht.returned }
  | marked i tx after found work =>
    exact ht.put fun row hp => ⟨tx, found, by rw [work]; exact hp⟩
  | locked i tx holdsNone found free ok work =>
    refine ht.put fun after hp => ?_
    obtain ⟨c, hc⟩ | ⟨token, reason, old, hc, -⟩ := work <;>
      exact absurd (by rw [hc] at hp; exact hp) (by simp [Work.pending?])
  | released i tx old found token reason work =>
    exact ht.put fun after hp => absurd (by rw [work] at hp; exact hp) (by simp [Work.pending?])
  | committed i tx row returned outage label found locks did =>
    have hseen := hb.seen i tx found locks
    have hcommit : TokensOk (commitRow s i tx row) := by
      cases did with
      | claimed work claims =>
        refine ht.commit found hseen (.inr (.inr ⟨by rw [work]; rfl, claims.queued⟩))
          (fun hq => ?_) fun hf => ?_
        · exact absurd (hq.symm.trans claims.running) (by decide)
        · rw [claims.running] at hf
          exact absurd hf (by decide)
      | served keeps served =>
        cases served with
        | touched status claim job =>
          refine ht.commit found hseen (.inl claim) (fun hq => ?_) fun hf => ?_
          · rw [claim, job]
            exact ht.queued _ _ hseen (status ▸ hq)
          · rw [claim]
            exact ht.finished _ _ hseen (status ▸ hf)
        | ended active status claim =>
          refine ht.commit found hseen (.inr (.inl claim)) (fun hq => ?_) fun _ => claim
          rw [hq] at status
          exact absurd status (by decide)
      | handedOut claimToken keeps fetched =>
        refine ht.commit found hseen (.inl fetched.claim) (fun hq => ?_) fun hf => ?_
        · exact absurd (hq.symm.trans fetched.status) (by decide)
        · rw [fetched.status] at hf
          exact absurd hf (by decide)
      | requeued claimToken reason work owned =>
        exact ht.commit found hseen (.inr (.inl rfl)) (fun _ => ⟨rfl, rfl⟩) fun hf => rfl
    have hreturned : ∀ p ∈ returned, p.before.status = .running ∧
        p.before.cancelRequestedAt = none ∧ p.before.claimTokenHash = some p.claim ∧
        p.claim ∉ p.overClaims := by
      cases did with
      | handedOut claimToken keeps fetched =>
        intro p hp
        rcases List.mem_cons.mp hp with rfl | hp
        · exact ⟨running_of_owns fetched.owned, fetched.notCancelled, claim_of_owns fetched.owned,
            (ht.issued _ _ _ hseen (claim_of_owns fetched.owned)).2⟩
        · exact ht.returned p hp
      | _ => exact ht.returned
    exact ⟨hcommit.issued, hcommit.distinct, hcommit.queued, hcommit.finished, hcommit.pending,
      hcommit.pendingDistinct, hcommit.overClaims, hreturned⟩
  | rolledBack i => exact ht.remove i

/-! ## Handing the job out once -/

/-- `_store_down`'s second transaction finds the job token still set, if its claim still owns the
run: no copy of its request got the payload in between. -/
def rechecked (cfg : Settings) (s : State ε) : Label ε → Bool
  | .relock i _ => match s.txs.get? i with
    | some ⟨_, id, _, .down claimToken _⟩ => (s.runs.get? id).all fun run =>
      !owns cfg.hashToken run claimToken || run.jobTokenHash.isSome
    | _ => true
  | _ => true

structure HandoutOk (cfg : Settings) (s : State ε) : Prop where
  /-- A run whose payload was returned is not in the queue, and while it runs its job token is
  used up. -/
  returned : ∀ p ∈ s.returned, ∃ r, s.runs.get? p.run = some r ∧ r.status ≠ .queued ∧
    (r.status = .running → r.jobTokenHash = none)
  once : (s.returned.map Handout.run).Nodup
  /-- What is about to requeue a run has found its job token. -/
  downAgain : ∀ i tx claimToken reason, s.txs.get? i = some tx →
    tx.work = .downAgain claimToken reason → owns cfg.hashToken tx.seen claimToken = true →
    tx.seen.jobTokenHash ≠ none

theorem HandoutOk.put {s : State ε} (h : HandoutOk cfg s) (i : Nat) (tx : Tx ε)
    (hagain : ∀ claimToken reason, tx.work = .downAgain claimToken reason →
      owns cfg.hashToken tx.seen claimToken = true → tx.seen.jobTokenHash ≠ none)
    (issued : List Digest) (picks : List Pick) :
    HandoutOk cfg { s with txs := s.txs.put i tx, issued := issued, picks := picks } where
  returned := h.returned
  once := h.once
  downAgain j tx' claimToken reason hj hw := by
    rw [Table.get?_put] at hj
    split at hj
    · obtain rfl := Option.some.inj hj
      exact hagain claimToken reason hw
    · exact h.downAgain j tx' claimToken reason hj hw

theorem HandoutOk.remove {s : State ε} (h : HandoutOk cfg s) (i : Nat) :
    HandoutOk cfg { s with txs := s.txs.remove i } where
  returned := h.returned
  once := h.once
  downAgain j tx' claimToken reason hj := by
    obtain ⟨-, hj⟩ := Table.get?_remove_eq_some.1 hj
    exact h.downAgain j tx' claimToken reason hj

/-- A run that is queued, or runs with its job token still set, was never handed out. -/
theorem HandoutOk.not_returned {s : State ε} (h : HandoutOk cfg s) {id : RunId} {run : Run}
    (hrun : s.runs.get? id = some run)
    (hfree : run.status = .queued ∨ run.status = .running ∧ run.jobTokenHash ≠ none) :
    ∀ p ∈ s.returned, p.run ≠ id := by
  rintro p hp rfl
  obtain ⟨r, hr, hqueued, hjob⟩ := h.returned p hp
  obtain rfl := Option.some.inj (hr.symm.trans hrun)
  obtain hq | ⟨hr, hj⟩ := hfree
  · exact hqueued hq
  · exact hj (hjob hr)

/-- A write that keeps its run as handed out as it was. -/
theorem HandoutOk.write {s : State ε} (h : HandoutOk cfg s) (id : RunId) (row : Run)
    (hrow : (∀ p ∈ s.returned, p.run ≠ id) ∨
      (row.status ≠ .queued ∧ (row.status = .running → row.jobTokenHash = none))) :
    HandoutOk cfg { s with runs := s.runs.put id row } where
  returned p hp := by
    change ∃ r, (s.runs.put id row).get? p.run = some r ∧ _
    by_cases hid : p.run = id
    · obtain hno | hgood := hrow
      · exact absurd hid (hno p hp)
      · exact ⟨row, by rw [hid, Table.get?_put_self], hgood⟩
    · obtain ⟨r, hr, hrest⟩ := h.returned p hp
      exact ⟨r, (Table.get?_put_of_ne _ _ hid).trans hr, hrest⟩
  once := h.once
  downAgain := h.downAgain

theorem Change.handout {s s' : State ε} {a : Label ε} (h : Change cfg s a s') (hb : Base s)
    (hg : rechecked cfg s a = true) (hh : HandoutOk cfg s) : HandoutOk cfg s' := by
  cases h with
  | idle now refreshes catalog => exact ⟨hh.returned, hh.once, hh.downAgain⟩
  | triggered id run new isFresh =>
    refine hh.write id run (.inl ?_)
    rintro p hp rfl
    obtain ⟨r, hr, -⟩ := hh.returned p hp
    rw [new] at hr
    exact absurd hr (by simp)
  | picked => exact hh.put _ _ (fun _ _ hw => absurd hw (by simp)) _ _
  | marked i tx after found work =>
    exact hh.put i { tx with work := .marked after } (fun _ _ hw => absurd hw (by simp)) _ _
  | locked i tx holdsNone found free ok work =>
    refine hh.put i tx (fun claimToken reason hw howns => ?_) _ _
    obtain ⟨c, hc⟩ | ⟨token, why, old, hc, rfl, hi, hrun, hdown⟩ := work
    · exact absurd (hc.symm.trans hw) (by simp)
    · -- this is the recheck
      obtain ⟨rfl, -⟩ := Work.downAgain.inj (hc.symm.trans hw)
      obtain ⟨began, id, seen, oldWork⟩ := old
      obtain rfl : id = tx.run := hrun
      obtain rfl : oldWork = .down token why := hdown
      simp only [rechecked, hi, found, Option.all_some, howns, Bool.not_true, Bool.false_or] at hg
      exact Option.isSome_iff_ne_none.mp hg
  | released i tx old found token reason work =>
    exact hh.put i tx (fun _ _ hw => absurd (work.symm.trans hw) (by simp)) _ _
  | committed i tx row returned outage label found locks did =>
    have hseen := hb.seen i tx found locks
    have hr := hh.remove i
    cases did with
    | claimed work claims =>
      have hw := hr.write tx.run row (.inl (hh.not_returned hseen (.inl claims.queued)))
      exact ⟨hw.returned, hw.once, hw.downAgain⟩
    | served keeps served =>
      have hrow : (∀ p ∈ s.returned, p.run ≠ tx.run) ∨
          (row.status ≠ .queued ∧ (row.status = .running → row.jobTokenHash = none)) := by
        cases served with
        | touched status claim job =>
          by_cases hout : ∃ p ∈ s.returned, p.run = tx.run
          · obtain ⟨p, hp, hpr⟩ := hout
            obtain ⟨r, hget, hgood⟩ := hh.returned p hp
            rw [hpr] at hget
            obtain rfl := Option.some.inj (hget.symm.trans hseen)
            rw [status, job]
            exact .inr hgood
          · exact .inl fun p hp hpr => hout ⟨p, hp, hpr⟩
        | ended active status claim =>
          rw [RunStatus.finished_eq_true] at status
          exact .inr ⟨status.1, fun h => absurd h status.2⟩
      have hw := hr.write tx.run row hrow
      exact ⟨hw.returned, hw.once, hw.downAgain⟩
    | handedOut claimToken keeps fetched =>
      have hnone := hh.not_returned hseen (.inr ⟨running_of_owns fetched.owned, fetched.token⟩)
      have hgood : row.status ≠ .queued ∧ (row.status = .running → row.jobTokenHash = none) :=
        ⟨by rw [fetched.status]; decide, fun _ => fetched.job⟩
      have hw := hr.write tx.run row (.inr hgood)
      refine ⟨fun p hp => ?_, ?_, hw.downAgain⟩
      · rcases List.mem_cons.mp hp with rfl | hp
        · exact ⟨row, Table.get?_put_self _ _ _, hgood⟩
        · exact hw.returned p hp
      · rw [List.map_cons, List.nodup_cons]
        refine ⟨fun hmem => ?_, hh.once⟩
        obtain ⟨p, hp, hpr⟩ := List.mem_map.mp hmem
        exact hnone p hp hpr
    | requeued claimToken reason work owned =>
      have hjob := hh.downAgain i tx claimToken reason found work owned
      have hw := hr.write tx.run (requeueRun tx.seen)
        (.inl (hh.not_returned hseen (.inr ⟨running_of_owns owned, hjob⟩)))
      exact ⟨hw.returned, hw.once, hw.downAgain⟩
  | rolledBack i => exact hh.remove i

/-! ## Runs of the system -/

theorem commit_disowned {s s' : State ε} {i : Nat} {tx : Tx ε} {token : Token}
    (hcommit : commit cfg fmt s i tx = some s') (htoken : tx.token? = some token)
    (howns : owns cfg.hashToken tx.seen token = false) : s'.runs = s.runs.put tx.run tx.seen := by
  obtain ⟨started, run, seen, work⟩ := tx
  cases work with
  | picked after => exact absurd htoken (by simp [Tx.token?])
  | marked after => exact absurd htoken (by simp [Tx.token?])
  | down claimToken reason => exact absurd hcommit (by simp [commit])
  | downAgain claimToken reason =>
    obtain rfl : claimToken = token := Option.some.inj htoken
    simp only [commit, requeueOrFail_disowned howns, howns, Bool.false_eq_true, if_false,
      Option.some.injEq] at hcommit
    rw [← hcommit]
    rfl
  | call c =>
    simp only [commit] at hcommit
    split at hcommit
    · exact absurd hcommit (by simp)
    next h hc =>
      have hrow := Call.handle_disowned hc htoken howns
      split at hcommit <;>
        · obtain rfl := Option.some.inj hcommit
          exact congrArg (s.runs.put run) hrow

/-- What the queue promises about claims and the secrets they give. -/
structure HandoutSafe (cfg : Settings) (fmt : EventFormat ε) (s : State ε) : Prop where
  /-- At most one payload was returned of each run. -/
  once : (s.returned.map Handout.run).Nodup
  /-- A run whose payload was returned is not back in the queue. -/
  notQueued : ∀ p ∈ s.returned, ∃ r, s.runs.get? p.run = some r ∧ r.status ≠ .queued
  /-- Each was returned while the run ran and nobody had asked to cancel it, to the claim that
  owned it, which was no claim that was over. -/
  inTime : ∀ p ∈ s.returned, p.before.status = .running ∧ p.before.cancelRequestedAt = none ∧
    p.before.claimTokenHash = some p.claim ∧ p.claim ∉ p.overClaims
  /-- A call that carries the token of a claim that is over changes no row. -/
  overChangesNothing : ∀ i tx token s', s.txs.get? i = some tx → tx.token? = some token →
    cfg.hashToken token ∈ s.overClaims → step cfg fmt s (.commit i) = some s' →
    ∀ k, s'.runs.get? k = s.runs.get? k

theorem TokensOk.overChangesNothing {s s' : State ε} (ht : TokensOk s) (hb : Base s) {i : Nat}
    {tx : Tx ε} {token : Token} (hi : s.txs.get? i = some tx) (htoken : tx.token? = some token)
    (hover : cfg.hashToken token ∈ s.overClaims) (hstep : step cfg fmt s (.commit i) = some s')
    (k : RunId) : s'.runs.get? k = s.runs.get? k := by
  simp only [step, hi, Option.bind_some] at hstep
  have hl := (commit_cases (hb.sound i tx hi) hstep).1
  have hseen := hb.seen i tx hi hl
  have howns : owns cfg.hashToken tx.seen token = false := by
    by_contra howns
    rw [Bool.not_eq_false] at howns
    exact (ht.issued _ _ _ hseen (claim_of_owns howns)).2 hover
  rw [commit_disowned hstep htoken howns, Table.get?_put]
  split
  · next hk => rw [hk, hseen]
  · rfl

/-- What holds of claims and tokens in every run, whatever `_store_down` finds. -/
theorem tokens_inductive (cfg : Settings) (fmt : EventFormat ε) :
    Lib.System.Inductive (system cfg fmt) Lib.anyStep fun s => Base s ∧ TokensOk s where
  init s hs := by
    obtain rfl : s = {} := hs
    exact ⟨.init, .init⟩
  step _ _ _ hi _ hstep :=
    have hchange := step_change hi.1 hstep
    ⟨hchange.base hi.1, hchange.tokens hi.1 hi.2⟩

theorem handout_inductive (cfg : Settings) (fmt : EventFormat ε) :
    Lib.System.Inductive (system cfg fmt) (fun s a => rechecked cfg s a = true)
      fun s => Base s ∧ HandoutOk cfg s where
  init s hs := by
    obtain rfl : s = {} := hs
    exact ⟨.init, fun p hp => absurd hp (by simp), List.nodup_nil, fun i tx ct r h =>
      absurd h (by simp)⟩
  step _ _ _ hi hg hstep :=
    have hchange := step_change hi.1 hstep
    ⟨hchange.base hi.1, hchange.handout hi.1 hg hi.2⟩

/-- **Within `rechecked`, a job is handed out once.** In every run of the system in which
`_store_down` never requeues a run whose payload another copy of the request was given: at most
one payload of each run is ever returned, in time and to the claim that owns it, the run never
goes back to the queue after it, and calls with tokens of claims that are over change nothing. -/
theorem handout_safe {s : State ε}
    (h : (system cfg fmt).ReachableBy (fun s a => rechecked cfg s a = true) s) :
    HandoutSafe cfg fmt s := by
  obtain ⟨hb, ht⟩ := (tokens_inductive cfg fmt).of_reachable h.reachable
  obtain ⟨-, hh⟩ := (handout_inductive cfg fmt).of_reachable h
  exact {
    once := hh.once
    notQueued := fun p hp =>
      let ⟨r, hr, hq, _⟩ := hh.returned p hp
      ⟨r, hr, hq⟩
    inTime := ht.returned
    overChangesNothing := fun i tx token s' hi htoken hover hstep k =>
      ht.overChangesNothing hb hi htoken hover hstep k }

/-! ## Two copies of one job request -/

/-- A run is claimed and its job fetched, once. -/
def fetchOnce : List (Label Nat) :=
  claimFirst ++ [.lock 1 0 1 (.job "claim A" "job A" .built), .commit 1]

theorem handout_safe_fetched :
    HandoutSafe queueCfg byteFormat
      (((system queueCfg byteFormat).run (fun s a => rechecked queueCfg s a = true) {}
        fetchOnce).get rfl) :=
  handout_safe (Lib.System.ReachableBy.of_isSome rfl fetchOnce rfl)

/-- The first copy finds the store down and rolls back; the second gets the payload; then the
first goes on in its second transaction, and the run is claimed and handed out again. -/
def fetchTwice : List (Label Nat) :=
  claimFirst ++
    [.lock 1 0 1 (.job "claim A" "job A" (.outage "the store is down")), .storeDown 1,
      .lock 2 0 1 (.job "claim A" "job A" .built), .commit 2,
      .relock 1 0, .commit 1,
      .pick 3 0 1 "worker" ⟨true, true, true⟩ "claim B" "job B", .mark 3, .commit 3,
      .lock 4 0 1 (.job "claim B" "job B" .built), .commit 4]

/-- The condition is needed: run 1's payload is returned twice. -/
theorem handout_twice : ¬ ∀ s : State Nat, (system queueCfg byteFormat).Reachable s →
    HandoutSafe queueCfg byteFormat s := by
  intro h
  have hs := h _ (Lib.System.ReachableBy.of_isSome rfl fetchTwice rfl)
  have honce : ([1, 1] : List RunId).Nodup := hs.once
  exact absurd honce (by decide)

end RunQueue

end AnsiDeck
