import AnsiDeck.Notifications.Dispatch

/-!
# The outbox under crashes

An attempt's number is the delivery's committed count, so that no attempt is sent twice and there
are at most `maxAttempts` of them. The count of a claimed delivery is below the limit, so it is in
the table's range when the outcome is recorded. A delivery that is sent or failed is never touched
again, and one that died with its last attempt is failed by the claim that selects it.
-/

namespace AnsiDeck

namespace Notifications

open Lib (Table Dict Json)

variable {failedTasks : Option Json → Json}

/-! ## What a claim selects -/

theorem rows_keys_nodup (t : Table DeliveryId NotificationDelivery)
    (p : DeliveryId → NotificationDelivery → Bool) : ((t.rows p).map Prod.fst).Nodup := by
  have h := t.nodupKeys.sublist (List.filter_sublist (p := fun e => p e.1 e.2))
  unfold Table.rows
  rw [List.map_map]
  exact h

theorem mem_selected {t : Table DeliveryId NotificationDelivery} {now : Time} {id : DeliveryId}
    {d : NotificationDelivery} (h : (id, d) ∈ selected t now) :
    t.get? id = some d ∧ due now d = true := by
  have hmem := List.mem_of_mem_take h
  rw [List.mem_insertionSort, Table.mem_rows] at hmem
  exact hmem

/-- A claim selects all that is due, up to its limit. -/
theorem mem_selected_of_few {t : Table DeliveryId NotificationDelivery} {now : Time}
    {id : DeliveryId} {d : NotificationDelivery} (hd : t.get? id = some d)
    (hdue : due now d = true) (hfew : (t.rows fun _ d => due now d).length ≤ batchSize) :
    (id, d) ∈ selected t now := by
  unfold selected
  rw [List.take_of_length_le (by rw [List.length_insertionSort]; exact hfew),
    List.mem_insertionSort]
  exact Table.mem_rows.mpr ⟨hd, hdue⟩

theorem selected_keys_nodup (t : Table DeliveryId NotificationDelivery) (now : Time) :
    ((selected t now).map Prod.fst).Nodup := by
  have hperm := (List.perm_insertionSort sooner (t.rows fun _ d => due now d)).map Prod.fst
  have hsorted := hperm.nodup_iff.mpr (rows_keys_nodup t _)
  exact hsorted.sublist ((List.take_sublist _ _).map Prod.fst)

theorem get?_claim (t : Table DeliveryId NotificationDelivery) (now : Time) (id : DeliveryId) :
    (claim t now).1.get? id = (t.get? id).map fun d =>
      if ((selected t now).map Prod.fst).contains id then claimRow now d else d :=
  Table.get?_mapRows _ _ _

theorem claimRow_attempts (now : Time) (d : NotificationDelivery) :
    (claimRow now d).attempts = d.attempts := by
  unfold claimRow
  split <;> rfl

theorem claim_batch {t : Table DeliveryId NotificationDelivery} {now : Time} {id : DeliveryId}
    (h : id ∈ (claim t now).2) : ∃ d, (id, d) ∈ selected t now ∧ d.attempts < maxAttempts := by
  obtain ⟨row, hrow, rfl⟩ := List.mem_map.mp h
  obtain ⟨hsel, hfew⟩ := List.mem_filter.mp hrow
  exact ⟨row.2, hsel, of_decide_eq_true hfew⟩

/-! ## The invariant -/

/-- What a delivery under way is, by the process's phase. -/
def UnderWay (s : State) : Phase → Prop
  | .idle => True
  | .counted id attempt => (id, attempt) ∈ s.counted ∧ (id, attempt) ∉ s.sent ∧ id ∉ s.batch ∧
      ∀ d, s.deliveries.get? id = some d → d.attempts = attempt ∧ d.status = .sending
  | .sending id attempt => (id, attempt) ∈ s.counted ∧ id ∉ s.batch ∧
      ∀ d, s.deliveries.get? id = some d → d.attempts = attempt ∧ d.status = .sending

structure Inv (s : State) : Prop where
  rows : ∀ id d, s.deliveries.get? id = some d → id ∈ s.issued ∧ d.attempts ≤ maxAttempts
  counted : ∀ id attempt, (id, attempt) ∈ s.counted →
    id ∈ s.issued ∧ 1 ≤ attempt ∧ attempt ≤ maxAttempts ∧
      ∀ d, s.deliveries.get? id = some d → attempt ≤ d.attempts
  sent : ∀ e ∈ s.sent, e ∈ s.counted
  once : s.sent.Nodup
  nodup : s.batch.Nodup
  batch : ∀ id ∈ s.batch, id ∈ s.issued ∧
    ∀ d, s.deliveries.get? id = some d → d.attempts < maxAttempts
  phase : UnderWay s s.phase

/-- The process stops what it was doing. -/
theorem Inv.stop {s : State} (h : Inv s) {batch : List DeliveryId} (hsub : batch.Sublist s.batch) :
    Inv { s with batch := batch, phase := .idle } where
  rows := h.rows
  counted := h.counted
  sent := h.sent
  once := h.once
  nodup := h.nodup.sublist hsub
  batch id hid := h.batch id (hsub.subset hid)
  phase := trivial

/-- No delivery is there that was not, but for new ones under ids that nothing knows. -/
theorem Inv.rewrite {s : State} (h : Inv s) {deliveries : Table DeliveryId NotificationDelivery}
    {channels : Table ChannelId NotificationChannel} {issued : List DeliveryId}
    (hissued : ∀ id ∈ s.issued, id ∈ issued)
    (hrows : ∀ id d, deliveries.get? id = some d → id ∈ issued ∧ d.attempts ≤ maxAttempts)
    (hold : ∀ id ∈ s.issued, ∀ d, deliveries.get? id = some d → s.deliveries.get? id = some d) :
    Inv { s with channels := channels, deliveries := deliveries, issued := issued } where
  rows := hrows
  counted id attempt he := by
    obtain ⟨hid, hone, hmax, hle⟩ := h.counted id attempt he
    exact ⟨hissued id hid, hone, hmax, fun d hd => hle d (hold id hid d hd)⟩
  sent := h.sent
  once := h.once
  nodup := h.nodup
  batch id hid := by
    obtain ⟨hknown, hfew⟩ := h.batch id hid
    exact ⟨hissued id hknown, fun d hd => hfew d (hold id hknown d hd)⟩
  phase := by
    have hphase := h.phase
    dsimp only
    cases hp : s.phase with
    | idle => trivial
    | counted id attempt =>
      rw [hp] at hphase
      have hid := (h.counted id attempt hphase.1).1
      exact ⟨hphase.1, hphase.2.1, hphase.2.2.1, fun d hd => hphase.2.2.2 d (hold id hid d hd)⟩
    | sending id attempt =>
      rw [hp] at hphase
      have hid := (h.counted id attempt hphase.1).1
      exact ⟨hphase.1, hphase.2.1, fun d hd => hphase.2.2 d (hold id hid d hd)⟩

/-- Deliveries are deleted. -/
theorem Inv.fewer {s : State} (h : Inv s) {deliveries : Table DeliveryId NotificationDelivery}
    {channels : Table ChannelId NotificationChannel}
    (hsub : ∀ id d, deliveries.get? id = some d → s.deliveries.get? id = some d) :
    Inv { s with channels := channels, deliveries := deliveries } :=
  h.rewrite (fun _ hid => hid) (fun id d hd => h.rows id d (hsub id d hd)) fun id _ => hsub id

/-- A new delivery, under an id that nothing knows yet. -/
theorem Inv.insert {s : State} (h : Inv s) {id : DeliveryId} {d : NotificationDelivery}
    (hnew : id ∉ s.issued) (hfew : d.attempts ≤ maxAttempts) :
    Inv (Notifications.insert s id d) := by
  refine h.rewrite (fun _ hk => List.mem_cons_of_mem _ hk) (fun k d' hk => ?_)
    fun k hknown d' hk => ?_
  · rcases Table.get?_put_cases hk with ⟨rfl, rfl⟩ | ⟨-, hold⟩
    · exact ⟨List.mem_cons_self, hfew⟩
    · exact ⟨List.mem_cons_of_mem _ (h.rows k d' hold).1, (h.rows k d' hold).2⟩
  · rcases Table.get?_put_cases hk with ⟨rfl, -⟩ | ⟨-, hold⟩
    · exact absurd hknown hnew
    · exact hold

/-- A claim keeps every count. -/
theorem Inv.claim {s : State} (h : Inv s) (hidle : s.phase = .idle) (now : Time) :
    Inv { s with
      deliveries := (Notifications.claim s.deliveries now).1
      batch := (Notifications.claim s.deliveries now).2 } := by
  have hback : ∀ id d, (Notifications.claim s.deliveries now).1.get? id = some d →
      ∃ old, s.deliveries.get? id = some old ∧ d.attempts = old.attempts := by
    intro id d hd
    rw [get?_claim] at hd
    obtain ⟨old, hold, rfl⟩ := Option.map_eq_some_iff.mp hd
    refine ⟨old, hold, ?_⟩
    split
    · exact claimRow_attempts now old
    · rfl
  constructor
  · intro id d hd
    obtain ⟨old, hold, heq⟩ := hback id d hd
    exact ⟨(h.rows id old hold).1, heq ▸ (h.rows id old hold).2⟩
  · intro id attempt he
    obtain ⟨hid, hone, hmax, hle⟩ := h.counted id attempt he
    refine ⟨hid, hone, hmax, ?_⟩
    intro d hd
    obtain ⟨old, hold, heq⟩ := hback id d hd
    exact heq ▸ hle old hold
  · exact h.sent
  · exact h.once
  · exact (selected_keys_nodup s.deliveries now).sublist (List.filter_sublist.map Prod.fst)
  · intro id hid
    obtain ⟨d, hsel, hfew⟩ := claim_batch hid
    obtain ⟨hd, -⟩ := mem_selected hsel
    refine ⟨(h.rows id d hd).1, ?_⟩
    intro d' hd'
    obtain ⟨old, hold, heq⟩ := hback id d' hd'
    obtain rfl := Option.some.inj (hd.symm.trans hold)
    exact heq ▸ hfew
  · show UnderWay _ s.phase
    rw [hidle]
    trivial

/-! ## One delivery's transactions -/

theorem begin_settled {channels : Table ChannelId NotificationChannel}
    {deliveries : Table DeliveryId NotificationDelivery} {now : Time} {id : DeliveryId}
    {d' : NotificationDelivery}
    (h : begin_ failedTasks channels deliveries now id = .settled d') :
    ∃ d, deliveries.get? id = some d ∧ d.status = .sending ∧ d'.attempts = d.attempts := by
  unfold begin_ at h
  cases hd : deliveries.get? id with
  | none =>
    rw [hd] at h
    exact absurd h (by simp)
  | some d =>
    simp only [hd] at h
    split at h
    · exact absurd h (by simp)
    rename_i hst
    rw [Ne, not_not] at hst
    refine ⟨d, rfl, hst, ?_⟩
    split at h
    · obtain rfl := Begun.settled.inj h
      rfl
    · split at h
      · obtain rfl := Begun.settled.inj h
        rfl
      · exact absurd h (by simp)

theorem begin_counted {channels : Table ChannelId NotificationChannel}
    {deliveries : Table DeliveryId NotificationDelivery} {now : Time} {id : DeliveryId}
    {d' : NotificationDelivery}
    (h : begin_ failedTasks channels deliveries now id = .counted d') :
    ∃ d, deliveries.get? id = some d ∧ d.status = .sending ∧ d' = attempted failedTasks d := by
  unfold begin_ at h
  cases hd : deliveries.get? id with
  | none =>
    rw [hd] at h
    exact absurd h (by simp)
  | some d =>
    simp only [hd] at h
    split at h
    · exact absurd h (by simp)
    rename_i hst
    rw [Ne, not_not] at hst
    split at h
    · exact absurd h (by simp)
    · split at h
      · exact absurd h (by simp)
      · obtain rfl := Begun.counted.inj h
        exact ⟨d, rfl, hst, rfl⟩

/-- A retry waits as long as the server asked for, else for the table's entry. -/
theorem record_cases {now : Time} {d d' : NotificationDelivery} {outcome : Outcome}
    (h : record now d outcome = some d') :
    d'.attempts = d.attempts ∧ (d'.status = .sent ∨ d'.status = .failed ∨
      (d'.status = .pending ∧ d.attempts < maxAttempts ∧
        ∃ wait, retryWait d.attempts outcome = some wait ∧ d'.nextAttemptAt = now + wait)) := by
  unfold record at h
  dsimp only at h
  split at h
  · obtain rfl := Option.some.inj h
    exact ⟨rfl, .inl rfl⟩
  split at h
  · obtain rfl := Option.some.inj h
    exact ⟨rfl, .inr (.inl rfl)⟩
  · rename_i hmore
    obtain ⟨wait, hwait, rfl⟩ := Option.map_eq_some_iff.mp h
    simp only [Bool.or_eq_true, decide_eq_true_eq, not_or, Nat.not_le] at hmore
    exact ⟨rfl, .inr (.inr ⟨rfl, hmore.2, wait, hwait, rfl⟩)⟩

/-- The index is in the table for every attempt but the last one. -/
theorem backoff_eq {attempts : Nat} (hone : 1 ≤ attempts) (hfew : attempts < maxAttempts) :
    ∃ wait, backoffSeconds[attempts - 1]? = some wait ∧ backoff attempts = some wait := by
  have hne : attempts ≠ 0 := by omega
  have hlt : attempts - 1 < backoffSeconds.length := by
    rw [maxAttempts] at hfew
    omega
  refine ⟨backoffSeconds[attempts - 1], List.getElem?_eq_getElem hlt, ?_⟩
  rw [backoff, if_neg hne, List.getElem?_eq_getElem hlt]

/-- A row the process has finished with for now. -/
theorem Inv.putRow {s : State} (h : Inv s) {id : DeliveryId} {d d' : NotificationDelivery}
    (hd : s.deliveries.get? id = some d) (hle : d.attempts ≤ d'.attempts)
    (hmax : d'.attempts ≤ maxAttempts) {batch : List DeliveryId} (hsub : batch.Sublist s.batch)
    (hout : id ∉ batch) :
    Inv { s with deliveries := s.deliveries.put id d', batch := batch, phase := .idle } where
  rows k e hk := by
    rcases Table.get?_put_cases hk with ⟨rfl, rfl⟩ | ⟨-, hold⟩
    · exact ⟨(h.rows k d hd).1, hmax⟩
    · exact h.rows k e hold
  counted k attempt he := by
    obtain ⟨hk, hone, hm, hall⟩ := h.counted k attempt he
    refine ⟨hk, hone, hm, ?_⟩
    intro e hke
    rcases Table.get?_put_cases hke with ⟨rfl, rfl⟩ | ⟨-, hold⟩
    · exact (hall d hd).trans hle
    · exact hall e hold
  sent := h.sent
  once := h.once
  nodup := h.nodup.sublist hsub
  batch k hk := by
    refine ⟨(h.batch k (hsub.subset hk)).1, ?_⟩
    intro e hke
    rcases Table.get?_put_cases hke with ⟨rfl, -⟩ | ⟨-, hold⟩
    · exact absurd hk hout
    · exact (h.batch k (hsub.subset hk)).2 e hold
  phase := trivial

/-- A counted attempt's number is new. -/
theorem Inv.count {s : State} (h : Inv s) {id : DeliveryId} {d : NotificationDelivery}
    (hd : s.deliveries.get? id = some d) (hst : d.status = .sending) (hone : 1 ≤ d.attempts)
    (hnew : (id, d.attempts) ∉ s.counted) (hout : id ∉ s.batch) :
    Inv { s with
      phase := .counted id d.attempts
      counted := (id, d.attempts) :: s.counted } where
  rows := h.rows
  counted k attempt he := by
    rcases List.mem_cons.mp he with heq | hold
    · obtain ⟨rfl, rfl⟩ := Prod.mk.inj heq
      refine ⟨(h.rows k d hd).1, hone, (h.rows k d hd).2, ?_⟩
      intro d' hd'
      obtain rfl := Option.some.inj (hd.symm.trans hd')
      exact Nat.le_refl _
    · exact h.counted k attempt hold
  sent e he := List.mem_cons_of_mem _ (h.sent e he)
  once := h.once
  nodup := h.nodup
  batch := h.batch
  phase := by
    refine ⟨List.mem_cons_self, fun hsent => hnew (h.sent _ hsent), hout, ?_⟩
    intro d' hd'
    obtain rfl := Option.some.inj (hd.symm.trans hd')
    exact ⟨rfl, hst⟩

theorem inv_inductive : (system failedTasks).Inductive Lib.anyStep Inv where
  init := by
    rintro s rfl
    exact ⟨fun id d h => absurd h (by simp), fun id n h => absurd h (by simp),
      fun e h => absurd h (by simp), List.nodup_nil, List.nodup_nil,
      fun id h => absurd h (by simp), trivial⟩
  step := by
    intro s a s' h _ hs
    cases a with
    | tick seconds =>
      obtain rfl := Option.some.inj hs
      exact ⟨h.rows, h.counted, h.sent, h.once, h.nodup, h.batch, h.phase⟩
    | setChannel id channel =>
      obtain rfl := Option.some.inj hs
      exact ⟨h.rows, h.counted, h.sent, h.once, h.nodup, h.batch, h.phase⟩
    | deleteChannel id =>
      obtain rfl := Option.some.inj hs
      exact h.fewer fun _ _ hd => (Table.get?_deleteWhere_eq_some.mp hd).1
    | emit started id channel event payload =>
      obtain ⟨⟨hnew, -⟩, hs⟩ := Option.ite_none_right_eq_some.mp hs
      obtain rfl := Option.some.inj hs
      exact h.insert hnew (Nat.zero_le _)
    | test started id channel payload outcome =>
      obtain ⟨⟨hnew, -⟩, hs⟩ := Option.ite_none_right_eq_some.mp hs
      obtain rfl := Option.some.inj hs
      exact h.insert hnew (show 1 ≤ maxAttempts by decide)
    | prune started =>
      obtain ⟨-, hs⟩ := Option.ite_none_right_eq_some.mp hs
      obtain rfl := Option.some.inj hs
      exact h.fewer fun _ _ hd => (Table.get?_deleteWhere_eq_some.mp hd).1
    | claim started =>
      obtain ⟨⟨hidle, -, -⟩, hs⟩ := Option.ite_none_right_eq_some.mp hs
      obtain rfl := Option.some.inj hs
      exact h.claim hidle started
    | begin_ started =>
      simp only [system, step] at hs
      split at hs
      · rename_i hphase id rest hidle hbatch
        obtain ⟨-, hs⟩ := Option.ite_none_right_eq_some.mp hs
        have hsub : rest.Sublist s.batch := hbatch ▸ List.sublist_cons_self id rest
        have hout : id ∉ rest := by
          have hnodup := h.nodup
          rw [hbatch] at hnodup
          exact (List.nodup_cons.mp hnodup).1
        split at hs
        · obtain rfl := Option.some.inj hs
          have hstop := h.stop hsub
          rw [← hidle] at hstop
          exact hstop
        · rename_i d' hbegin
          obtain rfl := Option.some.inj hs
          obtain ⟨d, hd, -, hatt⟩ := begin_settled hbegin
          have hput := h.putRow hd (Nat.le_of_eq hatt.symm) (hatt ▸ (h.rows id d hd).2) hsub hout
          rw [← hidle] at hput
          exact hput
        · rename_i d' hbegin
          obtain rfl := Option.some.inj hs
          obtain ⟨d, hd, hst, rfl⟩ := begin_counted hbegin
          have hfew : d.attempts < maxAttempts := by
            refine (h.batch id ?_).2 d hd
            rw [hbatch]
            exact List.mem_cons_self
          have hput := @Inv.putRow s h id d (attempted failedTasks d) hd (Nat.le_succ _) hfew rest
            hsub hout
          refine hput.count (Table.get?_put_self _ _ _) hst (Nat.le_add_left _ _) ?_ hout
          intro hcounted
          have hle := (h.counted id _ hcounted).2.2.2 d hd
          exact absurd hle (Nat.not_succ_le_self _)
      · exact absurd hs (by simp)
    | send =>
      simp only [system, step] at hs
      split at hs
      · rename_i id attempt hphase
        obtain rfl := Option.some.inj hs
        have hway := h.phase
        rw [hphase] at hway
        obtain ⟨hcounted, hnew, hout, hrow⟩ := hway
        refine ⟨h.rows, h.counted, ?_, List.nodup_cons.mpr ⟨hnew, h.once⟩, h.nodup, h.batch,
          hcounted, hout, hrow⟩
        intro e he
        rcases List.mem_cons.mp he with rfl | hold
        · exact hcounted
        · exact h.sent e hold
      · exact absurd hs (by simp)
    | record started outcome =>
      simp only [system, step] at hs
      split at hs
      · rename_i id attempt hphase
        obtain ⟨d, hd, hs⟩ := Option.bind_eq_some_iff.mp hs
        obtain ⟨d', hrecord, hs⟩ := Option.bind_eq_some_iff.mp hs
        obtain ⟨-, hs⟩ := Option.ite_none_right_eq_some.mp hs
        obtain rfl := Option.some.inj hs
        have hway := h.phase
        rw [hphase] at hway
        have hatt := (record_cases hrecord).1
        exact h.putRow hd (Nat.le_of_eq hatt.symm) (hatt ▸ (h.rows id d hd).2)
          (List.Sublist.refl _) hway.2.1
      · exact absurd hs (by simp)
    | raise =>
      simp only [system, step] at hs
      split at hs
      · exact absurd hs (by simp)
      · rename_i hphase id rest hidle hbatch
        obtain rfl := Option.some.inj hs
        have hstop := h.stop (hbatch ▸ List.sublist_cons_self id rest)
        rw [← hidle] at hstop
        exact hstop
      · obtain rfl := Option.some.inj hs
        exact h.stop (List.Sublist.refl _)
    | crash =>
      obtain rfl := Option.some.inj hs
      exact h.stop (List.nil_sublist _)

/-! ## Deliveries that are over -/

/-- The delivery is this final row, or gone, and the process is not at it. -/
structure Over (id : DeliveryId) (d : NotificationDelivery) (s : State) : Prop where
  issued : id ∈ s.issued
  row : s.deliveries.get? id = some d ∨ s.deliveries.get? id = none
  final : finished d.status = true
  phase : ∀ attempt, s.phase ≠ .counted id attempt ∧ s.phase ≠ .sending id attempt

theorem Over.of_final {s : State} (h : Inv s) {id : DeliveryId} {d : NotificationDelivery}
    (hd : s.deliveries.get? id = some d) (hfinal : finished d.status = true) : Over id d s := by
  refine ⟨(h.rows id d hd).1, .inl hd, hfinal, ?_⟩
  intro attempt
  have hway := h.phase
  constructor
  · intro hphase
    rw [hphase] at hway
    rw [(hway.2.2.2 d hd).2] at hfinal
    exact absurd hfinal (by simp [finished])
  · intro hphase
    rw [hphase] at hway
    rw [(hway.2.2 d hd).2] at hfinal
    exact absurd hfinal (by simp [finished])

/-- Its row stays when another one is written. -/
theorem Over.put {s : State} {id k : DeliveryId} {d d' : NotificationDelivery} (h : Over id d s)
    (hne : id ≠ k) : (s.deliveries.put k d').get? id = some d ∨
      (s.deliveries.put k d').get? id = none := by
  rw [Table.get?_put_of_ne _ _ hne]
  exact h.row

theorem Over.delete {s : State} {id : DeliveryId} {d : NotificationDelivery} (h : Over id d s)
    (p : DeliveryId → NotificationDelivery → Bool) :
    (s.deliveries.deleteWhere p).get? id = some d ∨
    (s.deliveries.deleteWhere p).get? id = none := by
  cases hget : (s.deliveries.deleteWhere p).get? id with
  | none => exact .inr rfl
  | some e =>
    have hold := (Table.get?_deleteWhere_eq_some.mp hget).1
    rcases h.row with hrow | hrow
    · exact .inl (hold.symm.trans hrow)
    · exact absurd (hold.symm.trans hrow) (by simp)

/-- Whoever is being delivered has the status `sending`, so it is another one. -/
theorem Over.ne {s : State} {id k : DeliveryId} {d d' : NotificationDelivery} (h : Over id d s)
    (hk : s.deliveries.get? k = some d') (hst : d'.status = .sending) : id ≠ k := by
  rintro rfl
  rcases h.row with hrow | hrow
  · obtain rfl := Option.some.inj (hrow.symm.trans hk)
    have hfinal := h.final
    rw [hst] at hfinal
    exact absurd hfinal (by simp [finished])
  · exact absurd (hrow.symm.trans hk) (by simp)

/-- The sends of one delivery. -/
def sends (s : State) (id : DeliveryId) : List (DeliveryId × Nat) := s.sent.filter fun e => e.1 = id

theorem Over.step {s s' : State} {a : Label} {id : DeliveryId} {d : NotificationDelivery}
    (hi : Inv s) (h : Over id d s) (hs : step failedTasks s a = some s') :
    Over id d s' ∧ sends s' id = sends s id := by
  cases a with
  | tick seconds =>
    obtain rfl := Option.some.inj hs
    exact ⟨⟨h.issued, h.row, h.final, h.phase⟩, rfl⟩
  | setChannel k channel =>
    obtain rfl := Option.some.inj hs
    exact ⟨⟨h.issued, h.row, h.final, h.phase⟩, rfl⟩
  | deleteChannel k =>
    obtain rfl := Option.some.inj hs
    exact ⟨⟨h.issued, h.delete _, h.final, h.phase⟩, rfl⟩
  | emit started k channel event payload =>
    obtain ⟨⟨hnew, -⟩, hs⟩ := Option.ite_none_right_eq_some.mp hs
    obtain rfl := Option.some.inj hs
    have hne : id ≠ k := fun heq => hnew (heq ▸ h.issued)
    exact ⟨⟨List.mem_cons_of_mem _ h.issued, h.put hne, h.final, h.phase⟩, rfl⟩
  | test started k channel payload outcome =>
    obtain ⟨⟨hnew, -⟩, hs⟩ := Option.ite_none_right_eq_some.mp hs
    obtain rfl := Option.some.inj hs
    have hne : id ≠ k := fun heq => hnew (heq ▸ h.issued)
    exact ⟨⟨List.mem_cons_of_mem _ h.issued, h.put hne, h.final, h.phase⟩, rfl⟩
  | prune started =>
    obtain ⟨-, hs⟩ := Option.ite_none_right_eq_some.mp hs
    obtain rfl := Option.some.inj hs
    exact ⟨⟨h.issued, h.delete _, h.final, h.phase⟩, rfl⟩
  | claim started =>
    obtain ⟨-, hs⟩ := Option.ite_none_right_eq_some.mp hs
    obtain rfl := Option.some.inj hs
    refine ⟨⟨h.issued, ?_, h.final, h.phase⟩, rfl⟩
    dsimp only
    rw [get?_claim]
    rcases h.row with hrow | hrow
    · have hout : ((selected s.deliveries started).map Prod.fst).contains id = false := by
        rw [Bool.eq_false_iff, Ne, List.contains_iff_mem]
        intro hmem
        obtain ⟨⟨k, e⟩, hsel, rfl⟩ := List.mem_map.mp hmem
        obtain ⟨hget, hdue⟩ := mem_selected hsel
        obtain rfl := Option.some.inj (hrow.symm.trans hget)
        exact absurd hdue (by simp [due, h.final])
      exact .inl (by rw [hrow, Option.map_some, hout]; rfl)
    · exact .inr (by rw [hrow]; rfl)
  | begin_ started =>
    simp only [Notifications.step] at hs
    split at hs
    · obtain ⟨-, hs⟩ := Option.ite_none_right_eq_some.mp hs
      split at hs
      · obtain rfl := Option.some.inj hs
        exact ⟨⟨h.issued, h.row, h.final, h.phase⟩, rfl⟩
      · rename_i d' hbegin
        obtain rfl := Option.some.inj hs
        obtain ⟨old, hold, hst, -⟩ := begin_settled hbegin
        exact ⟨⟨h.issued, h.put (h.ne hold hst), h.final, h.phase⟩, rfl⟩
      · rename_i d' hbegin
        obtain rfl := Option.some.inj hs
        obtain ⟨old, hold, hst, -⟩ := begin_counted hbegin
        have hne := h.ne hold hst
        refine ⟨⟨h.issued, h.put hne, h.final, ?_⟩, rfl⟩
        intro attempt
        exact ⟨fun heq => hne (Phase.counted.inj heq).1.symm, fun heq => absurd heq (by simp)⟩
    · exact absurd hs (by simp)
  | send =>
    simp only [Notifications.step] at hs
    split at hs
    · rename_i k attempt hphase
      obtain rfl := Option.some.inj hs
      have hne : k ≠ id := by
        rintro rfl
        exact (h.phase attempt).1 hphase
      refine ⟨⟨h.issued, h.row, h.final, ?_⟩, ?_⟩
      · intro n
        exact ⟨fun heq => absurd heq (by simp), fun heq => hne (Phase.sending.inj heq).1⟩
      · simp [sends, hne]
    · exact absurd hs (by simp)
  | record started outcome =>
    simp only [Notifications.step] at hs
    split at hs
    · rename_i k attempt hphase
      obtain ⟨old, hold, hs⟩ := Option.bind_eq_some_iff.mp hs
      obtain ⟨d', -, hs⟩ := Option.bind_eq_some_iff.mp hs
      obtain ⟨-, hs⟩ := Option.ite_none_right_eq_some.mp hs
      obtain rfl := Option.some.inj hs
      have hway := hi.phase
      rw [hphase] at hway
      refine ⟨⟨h.issued, h.put (h.ne hold (hway.2.2 old hold).2), h.final, ?_⟩, rfl⟩
      intro n
      exact ⟨fun heq => absurd heq (by simp [next]), fun heq => absurd heq (by simp [next])⟩
    · exact absurd hs (by simp)
  | raise =>
    simp only [Notifications.step] at hs
    split at hs
    · exact absurd hs (by simp)
    · obtain rfl := Option.some.inj hs
      exact ⟨⟨h.issued, h.row, h.final, h.phase⟩, rfl⟩
    · obtain rfl := Option.some.inj hs
      refine ⟨⟨h.issued, h.row, h.final, ?_⟩, rfl⟩
      intro n
      exact ⟨fun heq => absurd heq (by simp [next]), fun heq => absurd heq (by simp [next])⟩
  | crash =>
    obtain rfl := Option.some.inj hs
    refine ⟨⟨h.issued, h.row, h.final, ?_⟩, rfl⟩
    intro n
    exact ⟨fun heq => absurd heq (by simp), fun heq => absurd heq (by simp)⟩

/-- For the rest of the run it is as it was, or gone, and not sent. -/
theorem Over.path {s t : State} (hi : Inv s) {id : DeliveryId} {d : NotificationDelivery}
    (h : Over id d s) (hp : (system failedTasks).Path Lib.anyStep s t) :
    Over id d t ∧ sends t id = sends s id := by
  refine Lib.System.Path.stable (P := fun t => Over id d t ∧ sends t id = sends s id)
    inv_inductive.step ?_ hp hi ⟨h, rfl⟩
  intro t a w hit hover _ hstep
  obtain ⟨hnext, hsends⟩ := hover.1.step hit hstep
  exact ⟨hnext, hsends.trans hover.2⟩

/-! ## The outbox -/

/-- What holds of the outbox and its dispatcher. -/
structure OutboxOk (failedTasks : Option Json → Json) (s : State) : Prop where
  /-- No delivery is sent more often than the limit. -/
  limit : ∀ id, (sends s id).length ≤ maxAttempts
  /-- What is sent is an attempt whose count is committed, and that wasn't sent before. -/
  committed : ∀ s', step failedTasks s .send = some s' → ∃ id attempt,
    s'.sent = (id, attempt) :: s.sent ∧ (id, attempt) ∈ s.counted ∧ (id, attempt) ∉ s.sent ∧
      ∀ d, s.deliveries.get? id = some d → d.attempts = attempt
  /-- The outcome can be recorded, and a retry waits for the table's entry, or for as long as the
  server asked for. -/
  backoff : ∀ id attempt d outcome started, s.phase = .sending id attempt →
    s.deliveries.get? id = some d → ∃ d', record started d outcome = some d' ∧
      (d'.status = .pending → ∃ wait, 1 ≤ attempt ∧ backoffSeconds[attempt - 1]? = some wait ∧
        d'.nextAttemptAt = started + waitAsked wait outcome.retryAfter)
  /-- A delivery that is sent or failed never changes again; it may be deleted. -/
  final : ∀ t, (system failedTasks).Path Lib.anyStep s t → ∀ id d,
    s.deliveries.get? id = some d → finished d.status = true →
      t.deliveries.get? id = some d ∨ t.deliveries.get? id = none
  /-- A claim fails what it selects with no attempt left, and that is never sent again. -/
  died : ∀ started s', step failedTasks s (.claim started) = some s' → ∀ id d,
    s.deliveries.get? id = some d → d.attempts = maxAttempts →
      (id, d) ∈ selected s.deliveries started →
        (∃ d', s'.deliveries.get? id = some d' ∧ d'.status = .failed) ∧
          ∀ t, (system failedTasks).Path Lib.anyStep s' t → sends t id = sends s id
  /-- It selects all that is due, when that is no more than its limit. -/
  selects : ∀ started id d, s.deliveries.get? id = some d → d.status = .sending →
    d.nextAttemptAt ≤ started →
      (s.deliveries.rows fun _ d => due started d).length ≤ batchSize →
        (id, d) ∈ selected s.deliveries started

theorem sends_le {s : State} (h : Inv s) (id : DeliveryId) : (sends s id).length ≤ maxAttempts := by
  have hnodup : (sends s id).Nodup := h.once.filter _
  have hsub : sends s id ⊆ (List.range' 1 maxAttempts).map fun n => (id, n) := by
    rintro ⟨k, n⟩ he
    obtain ⟨hsent, hk⟩ := List.mem_filter.mp he
    obtain rfl : k = id := of_decide_eq_true hk
    obtain ⟨-, hone, hmax, -⟩ := h.counted k n (h.sent _ hsent)
    refine List.mem_map.mpr ⟨n, ?_, rfl⟩
    rw [List.mem_range'_1]
    omega
  have hle := (List.subperm_of_subset hnodup hsub).length_le
  rwa [List.length_map, List.length_range'] at hle

theorem record_backoff {s : State} (h : Inv s) {id : DeliveryId} {attempt : Nat}
    {d : NotificationDelivery} (outcome : Outcome) (started : Time)
    (hphase : s.phase = .sending id attempt) (hd : s.deliveries.get? id = some d) :
    ∃ d', record started d outcome = some d' ∧
      (d'.status = .pending → ∃ wait, 1 ≤ attempt ∧ backoffSeconds[attempt - 1]? = some wait ∧
        d'.nextAttemptAt = started + waitAsked wait outcome.retryAfter) := by
  have hway := h.phase
  rw [hphase] at hway
  obtain ⟨hcounted, -, hrow⟩ := hway
  obtain rfl := (hrow d hd).1
  have hone := (h.counted id _ hcounted).2.1
  cases hr : record started d outcome with
  | none =>
    -- it raises only where the table has no entry
    unfold record at hr
    dsimp only at hr
    split at hr
    · exact absurd hr (by simp)
    split at hr
    · exact absurd hr (by simp)
    · rename_i hmore
      simp only [Bool.or_eq_true, decide_eq_true_eq, not_or, Nat.not_le] at hmore
      obtain ⟨wait, -, hwait⟩ := backoff_eq hone hmore.2
      rw [retryWait, hwait] at hr
      exact absurd hr (by simp)
  | some d' =>
    refine ⟨d', rfl, ?_⟩
    intro hpending
    obtain ⟨-, hsent | hfailed | ⟨-, hfew, wait, hwait, hnext⟩⟩ := record_cases hr
    · exact absurd (hpending.symm.trans hsent) (by simp)
    · exact absurd (hpending.symm.trans hfailed) (by simp)
    · obtain ⟨entry, hentry, hback⟩ := backoff_eq hone hfew
      rw [retryWait, hback, Option.bind_eq_bind, Option.bind_some] at hwait
      exact ⟨entry, hone, hentry, by rw [hnext, ← Option.some.inj hwait]⟩

theorem claim_died {s s' : State} (h : Inv s) {started : Time}
    (hs : step failedTasks s (.claim started) = some s') {id : DeliveryId}
    {d : NotificationDelivery} (hd : s.deliveries.get? id = some d)
    (hlast : d.attempts = maxAttempts) (hsel : (id, d) ∈ selected s.deliveries started) :
    (∃ d', s'.deliveries.get? id = some d' ∧ d'.status = .failed) ∧
      ∀ t, (system failedTasks).Path Lib.anyStep s' t → sends t id = sends s id := by
  have hi : Inv s' := (@inv_inductive failedTasks).step s (.claim started) s' h trivial hs
  obtain ⟨-, hs⟩ := Option.ite_none_right_eq_some.mp hs
  obtain rfl := Option.some.inj hs
  have hin : ((selected s.deliveries started).map Prod.fst).contains id = true :=
    List.contains_iff_mem.mpr (List.mem_map.mpr ⟨(id, d), hsel, rfl⟩)
  have hrow : (claim s.deliveries started).1.get? id = some (claimRow started d) := by
    rw [get?_claim, hd, Option.map_some, if_pos hin]
  have hfailed : (claimRow started d).status = .failed := by
    rw [claimRow, if_pos (Nat.le_of_eq hlast.symm)]
  refine ⟨⟨_, hrow, hfailed⟩, ?_⟩
  intro t hp
  exact ((Over.of_final hi hrow (by rw [hfailed]; rfl)).path hi hp).2

/-- **The outbox keeps to its attempts**, however often the process dies. -/
theorem outbox_keeps {s : State} (hr : (system failedTasks).Reachable s) :
    OutboxOk failedTasks s := by
  have h : Inv s := inv_inductive.of_reachable hr
  constructor
  · exact sends_le h
  · intro s' hs
    simp only [step] at hs
    split at hs
    · rename_i id attempt hphase
      obtain rfl := Option.some.inj hs
      have hway := h.phase
      rw [hphase] at hway
      exact ⟨id, attempt, rfl, hway.1, hway.2.1, fun d hd => (hway.2.2.2 d hd).1⟩
    · exact absurd hs (by simp)
  · intro id attempt d outcome started hphase hd
    exact record_backoff h outcome started hphase hd
  · intro t hp id d hd hfinal
    exact ((Over.of_final h hd hfinal).path h hp).1.row
  · intro started s' hs id d hd hlast hsel
    exact claim_died h hs hd hlast hsel
  · intro started id d hd hst hlease hfew
    exact mem_selected_of_few hd (by simp [due, finished, hst, hlease]) hfew

/-- Six attempts that die with the process. -/
def diesSixTimes : List Label :=
  [.setChannel 1 {}, .emit 0 1 1 "worker.offline" ∅] ++
    (List.range 6).flatMap fun i => [.claim (60 * i), .begin_ (60 * i), .send, .crash, .tick 60]

theorem outbox_keeps_dying :
    OutboxOk (fun _ => .null)
      (((system fun _ => .null).run Lib.anyStep {} diesSixTimes).get rfl) :=
  outbox_keeps (.of_isSome rfl diesSixTimes rfl)

/-- Twenty newer deliveries are due before its last lease has run out. -/
def twentyDueFirst : List Label :=
  diesSixTimes ++ (List.range 20).map fun i => .emit 300 (i + 2) 1 "worker.offline" ∅

/-- The first claim after that does not select it; and a retry may wait for what the server asked
for, which is not in the table. -/
theorem outbox_overtaken :
    (¬ ∀ s, (system fun _ => .null).Reachable s → ∀ started s',
      step (fun _ => .null) s (.claim started) = some s' → ∀ id d,
        s.deliveries.get? id = some d → d.status = .sending → d.attempts = maxAttempts →
          d.nextAttemptAt ≤ started →
            ∃ d', s'.deliveries.get? id = some d' ∧ d'.status = .failed) ∧
      ¬ ∀ s, (system fun _ => .null).Reachable s → ∀ id attempt d outcome started d',
        s.phase = .sending id attempt → s.deliveries.get? id = some d →
          record started d outcome = some d' → d'.status = .pending →
            ∃ wait ∈ backoffSeconds, d'.nextAttemptAt = started + wait := by
  constructor
  · intro hall
    obtain ⟨d', hd', hfailed⟩ := hall _ (.of_isSome rfl twentyDueFirst rfl) 360 _ rfl 1 _ rfl rfl
      rfl (by decide)
    obtain rfl := Option.some.inj hd'
    exact absurd hfailed (by decide)
  · intro hall
    obtain ⟨wait, hmem, hnext⟩ := hall _ (.of_isSome rfl [.setChannel 1 {},
      .emit 0 1 1 "worker.offline" ∅, .claim 0, .begin_ 0, .send] rfl) 1 1 _
      { ok := false, statusCode := some 429, retryAfter := some 7 } 0 _ rfl rfl rfl rfl
    have hseven : 7 = 0 + wait := hnext
    rw [Nat.zero_add] at hseven
    exact absurd (hseven ▸ hmem) (by decide)

end Notifications

end AnsiDeck
