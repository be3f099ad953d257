import AnsiDeck.RefreshQueue.System

/-!
# A request for a refresh is not lost

When a call of `enqueue_refresh` commits, a refresh that is queued, or was claimed after the call
began, covers what it asked for (`Covered`), and that stays so: scopes only grow, and a queued
refresh leaves the queue by being claimed (`Grows`).

One way through the function breaks it: the queued refresh is claimed between the first insert
and the select, another call's refresh takes its place, and the second insert is refused like the
first, with nobody left to widen. `notLost` is the condition on that second insert.
-/

namespace AnsiDeck

namespace RefreshQueue

open Lib (Table)
open InventorySources

variable {inventory : InventoryId} {lease : Nat}

/-- A refresh that is queued, or was claimed since the call began, runs what it asked for. -/
def Covered (s : State) (a : Asked) : Prop :=
  ∃ id row, s.refreshes.get? id = some row ∧
    (row.status = .queued ∨ id ∈ s.claims.drop a.began) ∧ covers row.scope a.scope = true

/-- The second insert is refused only by a refresh that covers the request. -/
def notLost (s : State) : Label → Bool
  | .insert tx _ => match s.txs.get? tx with
    | some (.enqueue asked .noneQueued) => s.refreshes.all fun _ row =>
      row.status ≠ .queued || covers row.scope asked.scope
    | _ => true
  | _ => true

/-! ## Scopes and claims only grow -/

structure Grows (s s' : State) : Prop where
  claims : s.claims <+: s'.claims
  rows : ∀ id row, s.refreshes.get? id = some row → ∃ row', s'.refreshes.get? id = some row' ∧
    covers row'.scope row.scope = true ∧
    (row.status = .queued → row'.status = .queued ∨ id ∈ s'.claims.drop s.claims.length)

theorem Grows.of_eq {s s' : State} (hr : s'.refreshes = s.refreshes) (hc : s'.claims = s.claims) :
    Grows s s' := by
  refine ⟨by rw [hc], ?_⟩
  intro id row hid
  exact ⟨row, by rw [hr]; exact hid, covers_refl _, Or.inl⟩

theorem Covered.mono {s s' : State} {a : Asked} (h : Covered s a) (hg : Grows s s')
    (hbegan : a.began ≤ s.claims.length) : Covered s' a := by
  obtain ⟨id, row, hid, hstate, hcovers⟩ := h
  obtain ⟨row', hid', hscope, hkept⟩ := hg.rows id row hid
  refine ⟨id, row', hid', ?_, covers_trans hscope hcovers⟩
  obtain ⟨more, hmore⟩ := hg.claims
  rcases hstate with hqueued | hclaimed
  · rcases hkept hqueued with hq | hc
    · exact Or.inl hq
    · exact Or.inr (List.drop_subset_drop_left _ hbegan hc)
  · refine Or.inr ?_
    rw [← hmore, List.drop_append_of_le_length hbegan]
    exact List.mem_append_left _ hclaimed

/-! ## What the transactions in flight know -/

/-- By then the call has an answer, if its transaction commits. -/
def WorkOk (s : State) : Work → Prop
  | .enqueue asked phase => asked.began ≤ s.claims.length ∧ match phase with
    | .merging id scope => ∃ row, s.refreshes.get? id = some row ∧ row.status = .queued ∧
        covers scope row.scope = true ∧ covers scope asked.scope = true
    | .inserted id row => s.refreshes.get? id = none ∧ row.status = .queued ∧
        row.scope = asked.scope
    | .refusedAgain => Covered s asked
    | _ => True
  | .claim id _ _ => ∃ row, s.refreshes.get? id = some row
  | .requeue id seen phase => s.refreshes.get? id = some seen ∧ seen.status = .running ∧
    match phase with
    | .merging other _ => ∃ row, s.refreshes.get? other = some row ∧ row.status = .queued
    | _ => True

structure Inv (s : State) : Prop where
  /-- A row has one lock holder at most. -/
  alone : ∀ i j w w' id, s.txs.get? i = some w → s.txs.get? j = some w' → id ∈ w.holds →
    id ∈ w'.holds → i = j
  /-- No two transactions insert a row with one id. -/
  distinct : ∀ i j asked asked' id row row',
    s.txs.get? i = some (.enqueue asked (.inserted id row)) →
    s.txs.get? j = some (.enqueue asked' (.inserted id row')) → i = j
  works : ∀ i w, s.txs.get? i = some w → WorkOk s w
  answered : ∀ a ∈ s.answered, a.began ≤ s.claims.length ∧ Covered s a

theorem inv_init : Inv {} := by
  constructor
  · intro i j w w' id h
    exact absurd h (by simp)
  · intro i j asked asked' id row row' h
    exact absurd h (by simp)
  · intro i w h
    exact absurd h (by simp)
  · intro a h
    exact absurd h (by simp)

/-- What a transaction knows survives what leaves its rows alone. -/
theorem WorkOk.mono {s s' : State} {w : Work} (h : WorkOk s w) (hg : Grows s s')
    (hheld : ∀ id ∈ w.holds, s'.refreshes.get? id = s.refreshes.get? id)
    (hnew : ∀ asked id row, w = .enqueue asked (.inserted id row) →
      s'.refreshes.get? id = s.refreshes.get? id) : WorkOk s' w := by
  have hlen := hg.claims.length_le
  cases w with
  | claim id started by_ =>
    obtain ⟨row, hrow⟩ := h
    exact ⟨row, by rw [hheld id (by simp [Work.holds]), hrow]⟩
  | enqueue asked phase =>
    obtain ⟨hbegan, hphase⟩ := h
    refine ⟨Nat.le_trans hbegan hlen, ?_⟩
    cases phase with
    | merging id scope =>
      obtain ⟨row, hrow, hrest⟩ := hphase
      exact ⟨row, by rw [hheld id (by simp [Work.holds]), hrow], hrest⟩
    | inserted id row =>
      exact ⟨by rw [hnew asked id row rfl]; exact hphase.1, hphase.2⟩
    | refusedAgain => exact Covered.mono hphase hg hbegan
    | _ => trivial
  | requeue id seen phase =>
    obtain ⟨hseen, hrunning, hphase⟩ := h
    cases phase with
    | merging other row =>
      obtain ⟨row', hrow', hqueued⟩ := hphase
      exact ⟨by rw [hheld id (by simp [Work.holds])]; exact hseen, hrunning, row',
        by rw [hheld other (by simp [Work.holds])]; exact hrow', hqueued⟩
    | _ => exact ⟨by rw [hheld id (by simp [Work.holds])]; exact hseen, hrunning, trivial⟩

/-- A locked row is committed. -/
theorem WorkOk.held {s : State} {w : Work} (h : WorkOk s w) {id : RefreshId} (hid : id ∈ w.holds) :
    ∃ row, s.refreshes.get? id = some row := by
  cases w with
  | claim id' started by_ =>
    obtain rfl := List.mem_singleton.mp hid
    exact h
  | enqueue asked phase =>
    cases phase with
    | merging id' scope =>
      obtain rfl := List.mem_singleton.mp hid
      obtain ⟨-, row, hrow, -⟩ := h
      exact ⟨row, hrow⟩
    | _ => exact absurd hid (by simp [Work.holds])
  | requeue id' seen phase =>
    cases phase with
    | merging other row =>
      obtain ⟨hseen, -, row', hrow', -⟩ := h
      rcases List.mem_cons.mp hid with rfl | hid
      · exact ⟨seen, hseen⟩
      · obtain rfl := List.mem_singleton.mp hid
        exact ⟨row', hrow'⟩
    | _ =>
      obtain rfl := List.mem_singleton.mp hid
      exact ⟨seen, h.1⟩

theorem not_mem_holds_of_unlocked {s : State} {id : RefreshId} (h : locked s id = false) {i : Nat}
    {w : Work} (hi : s.txs.get? i = some w) : id ∉ w.holds := by
  have := Table.any_eq_false_iff.mp h i w hi
  simpa using this

theorem queued?_eq_some {s : State} {id : RefreshId} {row : InventoryRefresh}
    (h : queued? s = some (id, row)) : s.refreshes.get? id = some row ∧ row.status = .queued := by
  unfold queued? at h
  obtain ⟨e, he, heq⟩ := Option.map_eq_some_iff.mp h
  obtain ⟨rfl, rfl⟩ := Prod.mk.inj heq
  exact ⟨Table.get?_eq_some_iff.mpr (List.mem_of_find?_eq_some he), by
    simpa using List.find?_some he⟩

/-- A transaction goes on: it keeps its locks or takes ones that are free. -/
theorem Inv.setWork {s : State} (h : Inv s) (i : Nat) (w : Work) (hw : WorkOk s w)
    (hholds : ∀ id ∈ w.holds, (∃ old, s.txs.get? i = some old ∧ id ∈ old.holds) ∨
      locked s id = false)
    (hnew : ∀ asked id row, w = .enqueue asked (.inserted id row) → unused s id = true) :
    Inv (setWork s i w) := by
  have hother : ∀ j w' id, s.txs.get? j = some w' → j ≠ i → id ∈ w'.holds → id ∉ w.holds := by
    intro j w' id hj hne hid hmem
    rcases hholds id hmem with ⟨old, hold, hidold⟩ | hfree
    · exact hne (h.alone j i w' old id hj hold hid hidold)
    · exact not_mem_holds_of_unlocked hfree hj hid
  have hunused : ∀ j asked asked' id row row',
    s.txs.get? j = some (.enqueue asked (.inserted id row)) →
      w ≠ .enqueue asked' (.inserted id row') := by
    intro j asked asked' id row row' hj hw'
    have hun := hnew asked' id row' hw'
    simp only [unused, Bool.and_eq_true, Table.all_iff] at hun
    simpa using hun.2 j _ hj
  constructor
  · intro j k w₁ w₂ id hj hk h₁ h₂
    simp only [RefreshQueue.setWork, Table.get?_put] at hj hk
    split at hj <;> split at hk
    · next hji hki => rw [hji, hki]
    · next hki =>
      obtain rfl := Option.some.inj hj
      exact absurd h₁ (hother k w₂ id hk hki h₂)
    · next hji _ =>
      obtain rfl := Option.some.inj hk
      exact absurd h₂ (hother j w₁ id hj hji h₁)
    · exact h.alone j k w₁ w₂ id hj hk h₁ h₂
  · intro j k asked asked' id row row' hj hk
    simp only [RefreshQueue.setWork, Table.get?_put] at hj hk
    split at hj <;> split at hk
    · next hji hki => rw [hji, hki]
    · exact absurd (Option.some.inj hj) (hunused k asked' asked id row' row hk)
    · exact absurd (Option.some.inj hk) (hunused j asked asked' id row row' hj)
    · exact h.distinct j k asked asked' id row row' hj hk
  · intro j w' hj
    simp only [RefreshQueue.setWork, Table.get?_put] at hj
    split at hj
    · obtain rfl := Option.some.inj hj
      exact hw
    · exact h.works j w' hj
  · exact h.answered

/-! ## Commits -/

/-- What a commit leaves alone: every row its transaction neither held nor inserted. -/
theorem commitWork_frame {s s' : State} {i : Nat} {w : Work} (h : commitWork lease s i w = some s')
    {id : RefreshId} (hheld : id ∉ w.holds)
    (hnew : ∀ asked row, w ≠ .enqueue asked (.inserted id row)) :
    s'.refreshes.get? id = s.refreshes.get? id := by
  unfold commitWork at h
  split at h
  · next asked id' row =>
    obtain rfl := Option.some.inj h
    refine Table.get?_put_of_ne _ _ ?_
    rintro rfl
    exact hnew asked row rfl
  · obtain rfl := Option.some.inj h
    exact Table.get?_modify_of_ne _ _ (by simpa [Work.holds] using hheld)
  · obtain rfl := Option.some.inj h
    rfl
  · obtain rfl := Option.some.inj h
    exact Table.get?_modify_of_ne _ _ (by simpa [Work.holds] using hheld)
  · obtain rfl := Option.some.inj h
    exact Table.get?_modify_of_ne _ _ (by simpa [Work.holds] using hheld)
  · obtain rfl := Option.some.inj h
    simp only [Work.holds, List.mem_cons, List.not_mem_nil, or_false, not_or] at hheld
    rw [Table.get?_modify_of_ne _ _ hheld.1, Table.get?_modify_of_ne _ _ hheld.2]
  · exact absurd h (by simp)

theorem commitWork_txs {s s' : State} {i : Nat} {w : Work} (h : commitWork lease s i w = some s') :
    s'.txs = s.txs.remove i := by
  unfold commitWork at h
  split at h
  case h_7 => exact absurd h (by simp)
  all_goals
    obtain rfl := Option.some.inj h
    rfl

/-- A commit loses no scope, and no queued refresh but by claiming it. -/
theorem commitWork_grows {s s' : State} {i : Nat} {w : Work} (hw : WorkOk s w)
    (h : commitWork lease s i w = some s') : Grows s s' := by
  unfold commitWork at h
  split at h
  · next asked id row =>
    obtain rfl := Option.some.inj h
    refine ⟨List.prefix_rfl, ?_⟩
    intro k r hk
    have hne : k ≠ id := by
      rintro rfl
      rw [hw.2.1] at hk
      exact absurd hk (by simp)
    exact ⟨r, (Table.get?_put_of_ne _ _ hne).trans hk, covers_refl _, Or.inl⟩
  · next asked id scope =>
    obtain rfl := Option.some.inj h
    obtain ⟨-, row, hrow, hqueued, hold, -⟩ := hw
    refine ⟨List.prefix_rfl, ?_⟩
    intro k r hk
    by_cases hkid : k = id
    · subst hkid
      obtain rfl := Option.some.inj (hrow.symm.trans hk)
      refine ⟨{ row with scope := scope }, ?_, hold, Or.inl⟩
      simp [Table.get?_modify, hrow]
    · exact ⟨r, (Table.get?_modify_of_ne _ _ hkid).trans hk, covers_refl _, Or.inl⟩
  · obtain rfl := Option.some.inj h
    exact .of_eq rfl rfl
  · next id started by_ =>
    obtain rfl := Option.some.inj h
    refine ⟨List.prefix_append _ _, ?_⟩
    intro k r hk
    by_cases hkid : k = id
    · subst hkid
      refine ⟨claimedRefresh lease started by_ r, ?_, covers_refl _, fun _ => Or.inr ?_⟩
      · simp [Table.get?_modify, hk]
      · simp
    · exact ⟨r, (Table.get?_modify_of_ne _ _ hkid).trans hk, covers_refl _, Or.inl⟩
  · next id seen =>
    obtain rfl := Option.some.inj h
    refine ⟨List.prefix_rfl, ?_⟩
    intro k r hk
    by_cases hkid : k = id
    · subst hkid
      refine ⟨unclaimed .queued r, ?_, covers_refl _, fun _ => Or.inl rfl⟩
      simp [Table.get?_modify, hk]
    · exact ⟨r, (Table.get?_modify_of_ne _ _ hkid).trans hk, covers_refl _, Or.inl⟩
  · next id seen other row =>
    obtain rfl := Option.some.inj h
    obtain ⟨hseen, hrunning, row', hrow', hqueued⟩ := hw
    have hne : other ≠ id := by
      rintro rfl
      obtain rfl := Option.some.inj (hseen.symm.trans hrow')
      exact absurd (hrunning.symm.trans hqueued) (by simp)
    refine ⟨List.prefix_rfl, ?_⟩
    intro k r hk
    by_cases hkid : k = id
    · subst hkid
      obtain rfl := Option.some.inj (hseen.symm.trans hk)
      refine ⟨mergedInto other "the secret store" s.now seen, ?_, covers_refl _, ?_⟩
      · simp [Table.get?_modify, hne.symm, hk]
      · intro hq
        exact absurd (hrunning.symm.trans hq) (by simp)
    · by_cases hko : k = other
      · subst hko
        refine ⟨absorbing r seen, ?_, covers_widen_left _ _, Or.inl⟩
        simp [Table.get?_modify, hkid, hk]
      · refine ⟨r, ?_, covers_refl _, Or.inl⟩
        exact (Table.get?_modify_of_ne _ _ hkid).trans
          ((Table.get?_modify_of_ne _ _ hko).trans hk)
  · exact absurd h (by simp)

/-- **A call that commits has its request covered.** -/
theorem commitWork_answered {s s' : State} {i : Nat} {w : Work} (hw : WorkOk s w)
    (h : commitWork lease s i w = some s') {a : Asked} (ha : a ∈ s'.answered) :
    a ∈ s.answered ∨ (a.began ≤ s'.claims.length ∧ Covered s' a) := by
  unfold commitWork at h
  split at h
  · next asked id row =>
    obtain rfl := Option.some.inj h
    rcases List.mem_cons.mp ha with rfl | ha
    · refine Or.inr ⟨hw.1, id, row, Table.get?_put_self _ _ _, Or.inl hw.2.2.1, ?_⟩
      rw [hw.2.2.2]
      exact covers_refl _
    · exact Or.inl ha
  · next asked id scope =>
    obtain rfl := Option.some.inj h
    rcases List.mem_cons.mp ha with rfl | ha
    · obtain ⟨hbegan, row, hrow, hqueued, -, hcovers⟩ := hw
      refine Or.inr ⟨hbegan, id, { row with scope := scope }, ?_, Or.inl hqueued, hcovers⟩
      simp [Table.get?_modify, hrow]
    · exact Or.inl ha
  · obtain rfl := Option.some.inj h
    rcases List.mem_cons.mp ha with rfl | ha
    · exact Or.inr hw
    · exact Or.inl ha
  case h_7 => exact absurd h (by simp)
  all_goals
    obtain rfl := Option.some.inj h
    exact Or.inl ha

theorem Inv.commit {s s' : State} (h : Inv s) {i : Nat} {w : Work} (hi : s.txs.get? i = some w)
    (hc : commitWork lease s i w = some s') : Inv s' := by
  have hw := h.works i w hi
  have hg := commitWork_grows hw hc
  have htx : ∀ j w', s'.txs.get? j = some w' → j ≠ i ∧ s.txs.get? j = some w' := by
    intro j w' hj
    rw [commitWork_txs hc, Table.get?_remove] at hj
    split at hj
    · exact absurd hj (by simp)
    · next hne => exact ⟨hne, hj⟩
  constructor
  · intro j k w₁ w₂ id hj hk
    exact h.alone j k w₁ w₂ id (htx j w₁ hj).2 (htx k w₂ hk).2
  · intro j k asked asked' id row row' hj hk
    exact h.distinct j k asked asked' id row row' (htx j _ hj).2 (htx k _ hk).2
  · intro j w' hj
    obtain ⟨hne, hj⟩ := htx j w' hj
    have hok := h.works j w' hj
    -- the commit touches the rows its own transaction holds or inserts, and no others
    refine hok.mono hg ?_ ?_
    · intro id hid
      refine commitWork_frame hc (fun hmem => hne (h.alone j i w' w id hj hi hid hmem)) ?_
      rintro asked row rfl
      obtain ⟨r, hr⟩ := hok.held hid
      exact absurd (hw.2.1.symm.trans hr) (by simp)
    · rintro asked id row rfl
      refine commitWork_frame hc (fun hmem => ?_) ?_
      · obtain ⟨r, hr⟩ := hw.held hmem
        exact absurd (hok.2.1.symm.trans hr) (by simp)
      · rintro asked' row' rfl
        exact hne (h.distinct j i asked asked' id row row' hj hi)
  · intro a ha
    rcases commitWork_answered hw hc ha with hold | hnew
    · obtain ⟨hbegan, hcov⟩ := h.answered a hold
      exact ⟨Nat.le_trans hbegan hg.claims.length_le, hcov.mono hg hbegan⟩
    · exact hnew

/-! ## Steps -/

/-- The steps that only move one transaction on, the locks it has kept or none taken. -/
theorem Inv.move {s : State} (h : Inv s) {i : Nat} {old : Work} (hi : s.txs.get? i = some old)
    (w : Work) (hw : WorkOk s w) (hholds : w.holds = old.holds)
    (hnew : ∀ asked id row, w ≠ .enqueue asked (.inserted id row)) :
    Inv (RefreshQueue.setWork s i w) := by
  refine h.setWork i w hw ?_ ?_
  · intro id hid
    exact Or.inl ⟨old, hi, by rw [← hholds]; exact hid⟩
  · intro asked id row heq
    exact absurd heq (hnew asked id row)

/-- An insert: refused by a queued refresh, which must then be dealt with, or done. -/
theorem Inv.insert {s s' : State} (h : Inv s) {i : Nat} {asked : Asked} {phase next : Enqueue}
    {id : RefreshId} (hi : s.txs.get? i = some (.enqueue asked phase))
    (hphase : (Work.enqueue asked phase).holds = [])
    (hnextHolds : (Work.enqueue asked next).holds = [])
    (hnext : ∀ id row, next ≠ .inserted id row)
    (hrefused : ∀ id row, s.refreshes.get? id = some row → row.status = .queued →
      WorkOk s (.enqueue asked next))
    (hins : insert inventory s i asked id next = some s') : Inv s' := by
  have hbegan : asked.began ≤ s.claims.length := (h.works i _ hi).1
  unfold RefreshQueue.insert at hins
  split at hins
  · exact absurd hins (by simp)
  · split at hins
    · next e hq =>
      obtain rfl := Option.some.inj hins
      obtain ⟨id', row'⟩ := e
      obtain ⟨hrow, hqueued⟩ := queued?_eq_some hq
      refine h.move hi _ (hrefused id' row' hrow hqueued) (hnextHolds.trans hphase.symm) ?_
      intro asked' id'' row'' heq
      exact hnext id'' row'' (Work.enqueue.inj heq).2
    · split at hins
      · next hunused =>
        obtain rfl := Option.some.inj hins
        have hnone : s.refreshes.get? id = none := by
          simp only [unused, Bool.and_eq_true, Option.isNone_iff_eq_none] at hunused
          exact hunused.1
        refine h.setWork i _ ⟨hbegan, hnone, rfl, rfl⟩ ?_ ?_
        · intro k hk
          exact absurd hk (by simp [Work.holds])
        · intro asked' id' row' heq
          obtain ⟨rfl, -⟩ := Enqueue.inserted.inj (Work.enqueue.inj heq).2
          exact hunused
      · exact absurd hins (by simp)

/-- The call holds the queued refresh it widens. -/
theorem Inv.merge {s : State} (h : Inv s) {i : Nat} {asked : Asked} {phase : Enqueue}
    {id : RefreshId} {row : InventoryRefresh} (hi : s.txs.get? i = some (.enqueue asked phase))
    (hrow : s.refreshes.get? id = some row) (hqueued : row.status = .queued)
    (hfree : locked s id = false) : Inv (RefreshQueue.setWork s i (merging asked id row)) := by
  have hbegan : asked.began ≤ s.claims.length := (h.works i _ hi).1
  refine h.setWork i _ ⟨hbegan, row, hrow, hqueued, covers_widen_left _ _, covers_widen_right _ _⟩
    ?_ ?_
  · intro k hk
    obtain rfl := List.mem_singleton.mp hk
    exact Or.inr hfree
  · intro asked' id' row' heq
    exact absurd heq (by simp [merging])

/-- The requeued refresh goes on with the queued one it merges into. -/
theorem Inv.mergeRequeued {s : State} (h : Inv s) {i : Nat} {id other : RefreshId}
    {seen row : InventoryRefresh} {phase : Requeue}
    (hi : s.txs.get? i = some (.requeue id seen phase))
    (hrow : s.refreshes.get? other = some row) (hqueued : row.status = .queued)
    (hfree : locked s other = false) :
    Inv (RefreshQueue.setWork s i (.requeue id seen (.merging other row))) := by
  obtain ⟨hseen, hrunning, -⟩ := h.works i _ hi
  refine h.setWork i _ ⟨hseen, hrunning, row, hrow, hqueued⟩ ?_ ?_
  · intro k hk
    rcases List.mem_cons.mp hk with rfl | hk
    · refine Or.inl ⟨_, hi, ?_⟩
      cases phase <;> simp [Work.holds]
    · obtain rfl := List.mem_singleton.mp hk
      exact Or.inr hfree
  · intro asked' id' row' heq
    exact absurd heq (by simp)

section Steps

variable {s s' : State}

theorem inv_tick {seconds : Nat}
    (h : Inv s) (hstep : step inventory lease s (.tick seconds) = some s') : Inv s' := by
  obtain rfl := Option.some.inj hstep
  exact ⟨h.alone, h.distinct, h.works, h.answered⟩

theorem inv_finish {id : RefreshId} {status : RunStatus}
    (h : Inv s) (hstep : step inventory lease s (.finish id status) = some s') : Inv s' := by
  simp only [step, Option.bind_eq_bind, Option.bind_eq_some_iff, Option.ite_none_right_eq_some,
    Option.some.injEq, Bool.and_eq_true, decide_eq_true_eq, Bool.not_eq_true'] at hstep
  obtain ⟨row, hrow, ⟨⟨hrunning, hfree⟩, -⟩, rfl⟩ := hstep
  have hgrows :
      Grows s { s with refreshes := s.refreshes.put id { row with status := status } } := by
    refine ⟨List.prefix_rfl, ?_⟩
    intro k r hk
    by_cases hkid : k = id
    · subst hkid
      obtain rfl := Option.some.inj (hrow.symm.trans hk)
      refine ⟨_, Table.get?_put_self _ _ _, covers_refl _, ?_⟩
      intro hq
      exact absurd (hrunning.symm.trans hq) (by simp)
    · exact ⟨r, (Table.get?_put_of_ne _ _ hkid).trans hk, covers_refl _, Or.inl⟩
  refine ⟨h.alone, h.distinct, ?_, ?_⟩
  · intro i w hi
    refine (h.works i w hi).mono hgrows ?_ ?_
    · intro k hk
      refine Table.get?_put_of_ne _ _ ?_
      rintro rfl
      exact not_mem_holds_of_unlocked hfree hi hk
    · rintro asked k r rfl
      refine Table.get?_put_of_ne _ _ ?_
      rintro rfl
      exact absurd ((h.works i _ hi).2.1.symm.trans hrow) (by simp)
  · intro b hb
    obtain ⟨hbegan, hcov⟩ := h.answered b hb
    exact ⟨hbegan, hcov.mono hgrows hbegan⟩

theorem inv_beginEnqueue {tx : Nat} {scope : Option (Finset SourceId)}
    (h : Inv s) (hstep : step inventory lease s (.beginEnqueue tx scope) = some s') : Inv s' := by
  simp only [step, Option.ite_none_right_eq_some, Option.some.injEq] at hstep
  obtain ⟨-, rfl⟩ := hstep
  refine h.setWork tx _ ⟨Nat.le_refl _, trivial⟩ ?_ ?_
  · intro k hk
    exact absurd hk (by simp [Work.holds])
  · intro asked id row heq
    exact absurd heq (by simp)

theorem inv_insert {tx : Nat} {id : RefreshId} (h : Inv s) (hg : notLost s (.insert tx id) = true)
    (hstep : step inventory lease s (.insert tx id) = some s') : Inv s' := by
  simp only [step] at hstep
  split at hstep
  · next asked hi =>
    refine h.insert hi rfl rfl (by simp) ?_ hstep
    intro k row _ _
    exact ⟨(h.works tx _ hi).1, trivial⟩
  · next asked hi =>
    refine h.insert hi rfl rfl (by simp) ?_ hstep
    -- the second insert: what refuses it covers the request
    intro k row hrow hqueued
    have hall := hg
    simp only [notLost, hi, Table.all_iff] at hall
    have hcovers := hall k row hrow
    simp only [hqueued, ne_eq, not_true_eq_false, decide_false, Bool.false_or] at hcovers
    exact ⟨(h.works tx _ hi).1, k, row, hrow, Or.inl hqueued, hcovers⟩
  · exact absurd hstep (by simp)

theorem inv_select {tx : Nat} (h : Inv s) (hstep : step inventory lease s (.select tx) = some s') :
    Inv s' := by
  simp only [step] at hstep
  split at hstep
  · next asked hi =>
    have hbegan := (h.works tx _ hi).1
    split at hstep
    · obtain rfl := Option.some.inj hstep
      exact h.move hi _ ⟨hbegan, trivial⟩ rfl (by simp)
    · next id row hq =>
      obtain ⟨hrow, hqueued⟩ := queued?_eq_some hq
      split at hstep
      · obtain rfl := Option.some.inj hstep
        exact h.move hi _ ⟨hbegan, trivial⟩ rfl (by simp)
      · next hfree =>
        obtain rfl := Option.some.inj hstep
        exact h.merge hi hrow hqueued (Bool.eq_false_iff.mpr hfree)
  · next id seen hi =>
    split at hstep
    · exact absurd hstep (by simp)
    · next other row hq =>
      obtain ⟨hrow, hqueued⟩ := queued?_eq_some hq
      split at hstep
      · obtain rfl := Option.some.inj hstep
        exact h.move hi _ ⟨(h.works tx _ hi).1, (h.works tx _ hi).2.1, trivial⟩ rfl (by simp)
      · next hfree =>
        obtain rfl := Option.some.inj hstep
        exact h.mergeRequeued hi hrow hqueued (Bool.eq_false_iff.mpr hfree)
  · exact absurd hstep (by simp)

theorem inv_selectLocked {tx : Nat}
    (h : Inv s) (hstep : step inventory lease s (.selectLocked tx) = some s') : Inv s' := by
  simp only [step] at hstep
  split at hstep
  · next asked id hi =>
    simp only [Option.bind_eq_bind, Option.bind_eq_some_iff] at hstep
    obtain ⟨row, hrow, hstep⟩ := hstep
    split at hstep
    · exact absurd hstep (by simp)
    · next hfree =>
      split at hstep
      · next hqueued =>
        obtain rfl := Option.some.inj hstep
        exact h.merge hi hrow hqueued (Bool.eq_false_iff.mpr hfree)
      · obtain rfl := Option.some.inj hstep
        exact h.move hi _ ⟨(h.works tx _ hi).1, trivial⟩ rfl (by simp)
  · next id seen other hi =>
    simp only [Option.bind_eq_bind, Option.bind_eq_some_iff, Option.ite_none_right_eq_some,
      Option.some.injEq, Bool.and_eq_true, decide_eq_true_eq, Bool.not_eq_true'] at hstep
    obtain ⟨row, hrow, ⟨hfree, hqueued⟩, rfl⟩ := hstep
    exact h.mergeRequeued hi hrow hqueued hfree
  · exact absurd hstep (by simp)

theorem inv_claim {tx : Nat} {id : RefreshId} {by_ : Claimant}
    (h : Inv s) (hstep : step inventory lease s (.claim tx id by_) = some s') : Inv s' := by
  simp only [step, Option.bind_eq_bind, Option.bind_eq_some_iff, Option.ite_none_right_eq_some,
    Option.some.injEq, Bool.and_eq_true, Bool.not_eq_true'] at hstep
  obtain ⟨row, hrow, ⟨⟨-, hfree⟩, -⟩, rfl⟩ := hstep
  refine h.setWork tx _ ⟨row, hrow⟩ ?_ ?_
  · intro k hk
    obtain rfl := List.mem_singleton.mp hk
    exact Or.inr hfree
  · intro asked id' row' heq
    exact absurd heq (by simp)

theorem inv_beginRequeue {tx : Nat} {id : RefreshId}
    (h : Inv s) (hstep : step inventory lease s (.beginRequeue tx id) = some s') : Inv s' := by
  simp only [step, Option.bind_eq_bind, Option.bind_eq_some_iff, Option.ite_none_right_eq_some,
    Option.some.injEq, Bool.and_eq_true, decide_eq_true_eq, Bool.not_eq_true'] at hstep
  obtain ⟨row, hrow, ⟨⟨-, hrunning⟩, hfree⟩, rfl⟩ := hstep
  refine h.setWork tx _ ⟨hrow, hrunning, trivial⟩ ?_ ?_
  · intro k hk
    obtain rfl := List.mem_singleton.mp hk
    exact Or.inr hfree
  · intro asked id' row' heq
    exact absurd heq (by simp)

theorem inv_requeue {tx : Nat}
    (h : Inv s) (hstep : step inventory lease s (.requeue tx) = some s') : Inv s' := by
  simp only [step] at hstep
  split at hstep
  · next id seen hi =>
    split at hstep
    · exact absurd hstep (by simp)
    · split at hstep <;>
        · obtain rfl := Option.some.inj hstep
          exact h.move hi _ ⟨(h.works tx _ hi).1, (h.works tx _ hi).2.1, trivial⟩ rfl (by simp)
  · exact absurd hstep (by simp)

theorem inv_commit {tx : Nat} (h : Inv s) (hstep : step inventory lease s (.commit tx) = some s') :
    Inv s' := by
  simp only [step, Option.bind_eq_some_iff] at hstep
  obtain ⟨w, hi, hc⟩ := hstep
  exact h.commit hi hc

theorem inv_rollback {tx : Nat}
    (h : Inv s) (hstep : step inventory lease s (.rollback tx) = some s') : Inv s' := by
  simp only [step, Option.map_eq_some_iff] at hstep
  obtain ⟨w, -, rfl⟩ := hstep
  have htx : ∀ j w', (s.txs.remove tx).get? j = some w' → s.txs.get? j = some w' := by
    intro j w' hj
    obtain ⟨-, hj⟩ := Table.get?_remove_eq_some.1 hj
    exact hj
  refine ⟨?_, ?_, ?_, h.answered⟩
  · intro i j w₁ w₂ id hi hj
    exact h.alone i j w₁ w₂ id (htx i w₁ hi) (htx j w₂ hj)
  · intro i j asked asked' id row row' hi hj
    exact h.distinct i j asked asked' id row row' (htx i _ hi) (htx j _ hj)
  · intro i w' hi
    exact h.works i w' (htx i w' hi)

end Steps

theorem inv_step {s s' : State} {a : Label} (h : Inv s) (hg : notLost s a = true)
    (hstep : step inventory lease s a = some s') : Inv s' := by
  cases a with
  | tick seconds => exact inv_tick h hstep
  | finish id status => exact inv_finish h hstep
  | beginEnqueue tx scope => exact inv_beginEnqueue h hstep
  | insert tx id => exact inv_insert h hg hstep
  | select tx => exact inv_select h hstep
  | selectLocked tx => exact inv_selectLocked h hstep
  | claim tx id by_ => exact inv_claim h hstep
  | beginRequeue tx id => exact inv_beginRequeue h hstep
  | requeue tx => exact inv_requeue h hstep
  | commit tx => exact inv_commit h hstep
  | rollback tx => exact inv_rollback h hstep

theorem inv_inductive (inventory : InventoryId) (lease : Nat) :
    Lib.System.Inductive (system inventory lease) (fun s a => notLost s a = true) Inv where
  init s hs := by
    obtain rfl : s = {} := hs
    exact inv_init
  step _ _ _ hi hg hstep := inv_step hi hg hstep

/-- **Within `notLost`, no request for a refresh is lost.** In every run in which a second insert
is only ever refused by a refresh that covers its request, every call that has committed has a
refresh that is queued, or was claimed after the call began, and runs what it asked for. -/
theorem answered_covered {s : State}
    (h : (system inventory lease).ReachableBy (fun s a => notLost s a = true) s) :
    ∀ a ∈ s.answered, Covered s a := by
  intro a ha
  exact (((inv_inductive inventory lease).of_reachable h).answered a ha).2

/-! ## A call that merges, and one that is lost -/

def worker : Claimant := ⟨"worker", "claim", "job"⟩

/-- A refresh of source 1 waits, and a request for source 2 merges into it. -/
def mergedRequest : List Label :=
  [.beginEnqueue 0 (some {1}), .insert 0 1, .commit 0,
    .beginEnqueue 1 (some {2}), .insert 1 2, .select 1, .commit 1]

theorem answered_covered_merged :
    let s := ((system 7 60).run (fun s a => notLost s a = true) {} mergedRequest).get rfl
    ∀ a ∈ s.answered, Covered s a :=
  answered_covered (Lib.System.ReachableBy.of_isSome rfl mergedRequest rfl)

/-- The waiting refresh is claimed between the insert and the select, and a request for source 3
takes its place before the second insert. -/
def lostRequest : List Label :=
  [.beginEnqueue 0 (some {1}), .insert 0 1, .commit 0,
    .beginEnqueue 1 (some {2}), .insert 1 2, .claim 2 1 worker, .commit 2, .select 1,
    .beginEnqueue 3 (some {3}), .insert 3 2, .commit 3, .insert 1 3, .commit 1]

/-- The condition is needed: nothing runs source 2 for the second call. -/
theorem request_lost : ¬ ∀ s : State, (system 7 60).Reachable s → ∀ a ∈ s.answered,
    Covered s a := by
  intro h
  have hs := h _ (Lib.System.ReachableBy.of_isSome rfl lostRequest rfl)
  have hall := hs ⟨some {2}, 0⟩ List.mem_cons_self
  obtain ⟨id, row, hrow, -, hcovers⟩ := hall
  have hmem := Table.get?_eq_some_iff.mp hrow
  have hno : ∀ e ∈ (((system 7 60).run Lib.anyStep {} lostRequest).get rfl).refreshes.entries,
      covers e.2.scope (some {2}) = false := by decide
  exact absurd hcovers (by rw [hno _ hmem]; simp)

end RefreshQueue

end AnsiDeck
