import AnsiDeck.GitSync.System

/-!
# What pruning must not remove

Pruning picks the stale snapshots in one statement and deletes them by id later. In between a sync
can make one current again, and a trigger that read it as current can pin it: both then have, or
have had, the row locked, so the `DELETE` waits for them, and deletes it all the same. From the
`DELETE` on, its own lock keeps everybody off. So no snapshot that is needed is lost as long as
every `DELETE` finds its snapshot there and not needed (`spares`).
-/

namespace AnsiDeck

namespace GitSync

open Lib (Table)

/-- Whether it is current or pinned. -/
def needed (s : State) (id : GitSnapshotId) : Bool := current s id || pinned s id

/-- A `DELETE` finds its snapshot there, and not needed. -/
def spares (s : State) : Label → Bool
  | .delete tx => match s.txs.get? tx with
    | some (.prune (next :: _) _ none) => (s.snapshots.get? next.id).isSome && !needed s next.id
    | _ => true
  | _ => true

theorem current_iff {s : State} {id : GitSnapshotId} : current s id = true ↔
    ∃ k source, s.sources.get? k = some source ∧ source.currentSnapshotId = some id := by
  simp [current, Table.any_iff]

theorem pinned_iff {s : State} {id : GitSnapshotId} : pinned s id = true ↔
    (∃ k run, s.runs.get? k = some run ∧ run.status.active = true ∧ run.gitSnapshotId = some id) ∨
      ∃ k lint, s.lints.get? k = some lint ∧ lint.status.active = true ∧
        lint.gitSnapshotId = some id := by
  simp [pinned, Table.any_iff]

theorem needed_iff {s : State} {id : GitSnapshotId} : needed s id = true ↔
    current s id = true ∨ pinned s id = true := by
  simp [needed]

/-! ## The invariant -/

structure TxOk (s : State) (tx : Tx) : Prop where
  deleted : ∀ id, tx.deletes id = true → needed s id = false ∧ (s.snapshots.get? id).isSome = true
  todo : ∀ todo deleted unlinking, tx = .prune todo deleted unlinking → ∀ next ∈ todo,
    next.id < s.seq ∧ ∀ row, s.snapshots.get? next.id = some row →
      snapshotPath row = (next.sourceId, next.commit)
  unlinking : ∀ todo deleted last, tx = .prune todo deleted (some last) → last.id ∈ deleted ∧
    ∀ row, s.snapshots.get? last.id = some row → snapshotPath row = (last.sourceId, last.commit)
  pinned : ∀ id commit, tx = .trigger id (some commit) → (s.snapshots.get? id).isSome = true

structure Inv (s : State) : Prop where
  seq : ∀ id row, s.snapshots.get? id = some row → id < s.seq
  /-- The unique key. -/
  paths : s.snapshots.Pairs fun row row' => snapshotPath row ≠ snapshotPath row'
  /-- The foreign keys. -/
  there : ∀ id, needed s id = true → (s.snapshots.get? id).isSome = true
  txs : ∀ k tx, s.txs.get? k = some tx → TxOk s tx
  locks : s.txs.Pairs fun tx tx' => ∀ id, tx.deletes id = true → tx'.locks id = false

theorem inv_init : Inv {} := by
  refine ⟨?_, Table.pairs_empty _, ?_, ?_, Table.pairs_empty _⟩
  · intro id row hid
    exact absurd hid (by simp)
  · intro id hid
    exact absurd hid (by simp [needed, current, pinned])
  · intro k tx hk
    exact absurd hk (by simp)

/-- What a step must leave: the snapshots that are needed, and their tars. -/
structure Keeps (s s' : State) : Prop where
  rows : ∀ id row, s.snapshots.get? id = some row → needed s id = true →
    ∃ row', s'.snapshots.get? id = some row' ∧ snapshotPath row' = snapshotPath row
  tars : ∀ id row, s.snapshots.get? id = some row → needed s id = true →
    snapshotPath row ∈ s.tars → snapshotPath row ∈ s'.tars

theorem Keeps.same {s s' : State} (hrows : s'.snapshots = s.snapshots) (htars : s.tars ⊆ s'.tars) :
    Keeps s s' := by
  refine ⟨?_, ?_⟩
  · intro id row hid _
    exact ⟨row, by rw [hrows, hid], rfl⟩
  · intro id row _ _ hmem
    exact htars hmem

/-! ## Locks -/

theorem locks_of_deletes {tx : Tx} {id : GitSnapshotId} (h : tx.deletes id = true) :
    tx.locks id = true := by
  cases tx with
  | prune todo deleted unlinking => exact h
  | _ => exact absurd h (by simp [Tx.deletes])

theorem deletes_eq_false {tx : Tx} {id : GitSnapshotId} (h : tx.locks id = false) :
    tx.deletes id = false := by
  cases hd : tx.deletes id with
  | false => rfl
  | true =>
    rw [locks_of_deletes hd] at h
    exact absurd h (by simp)

/-- Nobody else deletes what the transaction has locked. -/
theorem Inv.undeleted {s : State} (h : Inv s) {k : Nat} {tx : Tx} (hk : s.txs.get? k = some tx)
    {id : GitSnapshotId} (hlocks : tx.locks id = true) {k' : Nat} {tx' : Tx}
    (hk' : s.txs.get? k' = some tx') (hne : k' ≠ k) : tx'.deletes id = false := by
  cases hd : tx'.deletes id with
  | false => rfl
  | true =>
    rw [h.locks k' k tx' tx hk' hk hne.symm id hd] at hlocks
    exact absurd hlocks (by simp)

theorem of_lockable {s : State} {k : Nat} {id : GitSnapshotId} (h : lockable s k id = true)
    {k' : Nat} {tx : Tx} (hk' : s.txs.get? k' = some tx) (hne : k' ≠ k) : tx.locks id = false := by
  have hother := Table.all_iff.mp h k' tx hk'
  simpa [hne] using hother

theorem of_shareable {s : State} {k : Nat} {id : GitSnapshotId} (h : shareable s k id = true)
    {k' : Nat} {tx : Tx} (hk' : s.txs.get? k' = some tx) (hne : k' ≠ k) :
    tx.deletes id = false := by
  have hother := Table.all_iff.mp h k' tx hk'
  simp only [hne, decide_false, Bool.false_or, Bool.or_eq_true, Bool.not_eq_true'] at hother
  rcases hother with htrigger | hfree
  · cases tx with
    | trigger snapshot pinned => rfl
    | _ => exact absurd htrigger (by simp [Tx.isTrigger])
  · exact deletes_eq_false hfree

theorem of_referable {s : State} {k : Nat} {id : GitSnapshotId} (h : referable s k id = true)
    {k' : Nat} {tx : Tx} (hk' : s.txs.get? k' = some tx) (hne : k' ≠ k) :
    tx.deletes id = false := by
  have hother := Table.all_iff.mp h k' tx hk'
  simpa [hne] using hother

/-! ## Transactions -/

theorem Inv.endTx {s : State} (h : Inv s) (k : Nat) : Inv (endTx s k) := by
  refine ⟨h.seq, h.paths, h.there, ?_, h.locks.remove k⟩
  intro k' tx hk'
  have hok := h.txs k' tx (Table.get?_remove_eq_some.mp hk').2
  exact ⟨hok.deleted, hok.todo, hok.unlinking, hok.pinned⟩

/-- A transaction gets on: nobody deletes what it has locked now, and the rows it deletes are its
own. -/
theorem Inv.putTx {s : State} (h : Inv s) {k : Nat} {tx : Tx} (hok : TxOk s tx)
    (hlocks : ∀ id, tx.locks id = true → ∀ k' tx', s.txs.get? k' = some tx' → k' ≠ k →
      tx'.deletes id = false)
    (hdeletes : ∀ id, tx.deletes id = true → ∀ k' tx', s.txs.get? k' = some tx' → k' ≠ k →
      tx'.locks id = false) : Inv (putTx s k tx) := by
  refine ⟨h.seq, h.paths, h.there, ?_, h.locks.put ?_⟩
  · intro k' tx' hk'
    rcases Table.get?_put_cases hk' with ⟨rfl, rfl⟩ | ⟨-, hold⟩
    · exact ⟨hok.deleted, hok.todo, hok.unlinking, hok.pinned⟩
    · have hold' := h.txs k' tx' hold
      exact ⟨hold'.deleted, hold'.todo, hold'.unlinking, hold'.pinned⟩
  · intro k' tx' hk' hne
    refine ⟨fun id hid => hdeletes id hid k' tx' hk' hne, ?_⟩
    intro id hid
    cases hl : tx.locks id with
    | false => rfl
    | true =>
      rw [hlocks id hl k' tx' hk' hne] at hid
      exact absurd hid (by simp)

/-- A sync gets on. -/
theorem Inv.putSync {s : State} (h : Inv s) {k : Nat} {source : GitSourceId} {began : Time}
    {commit : String} {phase : SyncPhase}
    (hlocks : ∀ id, (Tx.sync source began commit phase).locks id = true →
      ∀ k' tx', s.txs.get? k' = some tx' → k' ≠ k → tx'.deletes id = false) :
    Inv (GitSync.putTx s k (.sync source began commit phase)) := by
  refine h.putTx ⟨?_, ?_, ?_, ?_⟩ hlocks ?_
  · intro id hid
    exact absurd hid (by simp [Tx.deletes])
  · intro todo deleted unlinking heq
    exact absurd heq (by simp)
  · intro todo deleted last heq
    exact absurd heq (by simp)
  · intro id commit' heq
    exact absurd heq (by simp)
  · intro id hid
    exact absurd hid (by simp [Tx.deletes])

/-- A sync gets on, with no lock but what it had. -/
theorem Inv.unlocked {s : State} (h : Inv s) {k : Nat} {source : GitSourceId} {began : Time}
    {commit : String} {phase : SyncPhase}
    (hnone : ∀ id, (Tx.sync source began commit phase).locks id = false) :
    Inv (GitSync.putTx s k (.sync source began commit phase)) ∧
      Keeps s (GitSync.putTx s k (.sync source began commit phase)) := by
  refine ⟨h.putSync ?_, .same rfl (Finset.Subset.refl _)⟩
  intro id hid
  rw [hnone id] at hid
  exact absurd hid (by simp)

/-- `_sync` looks for a snapshot of the commit. -/
theorem keeps_look {s s' : State} {k : Nat} (h : Inv s) (hs : step s (.look k) = some s') :
    Inv s' ∧ Keeps s s' := by
  simp only [step] at hs
  split at hs
  · next source began commit hk =>
    obtain rfl := Option.some.inj hs
    exact h.unlocked fun _ => rfl
  · exact absurd hs (by simp)

theorem keeps_checkTar {s s' : State} {k : Nat} (h : Inv s) (hs : step s (.checkTar k) = some s') :
    Inv s' ∧ Keeps s s' := by
  simp only [step] at hs
  split at hs
  · next source began commit found hk =>
    obtain rfl := Option.some.inj hs
    refine h.unlocked ?_
    intro id
    split <;> rfl
  · exact absurd hs (by simp)

/-! ## Rows -/

/-- Rows change, but no snapshot comes or goes, and none becomes needed that is being deleted. -/
theorem Inv.rows {s s' : State} (h : Inv s)
    (hrows : ∀ id, (s'.snapshots.get? id).map snapshotPath = (s.snapshots.get? id).map snapshotPath)
    (hseq : s'.seq = s.seq) (htxs : s'.txs = s.txs)
    (hneeded : ∀ id, needed s' id = true → needed s id = true ∨
      (s.snapshots.get? id).isSome = true ∧
      ∀ k tx, s.txs.get? k = some tx → tx.deletes id = false) : Inv s' := by
  have hpath : ∀ id row', s'.snapshots.get? id = some row' →
      ∃ row, s.snapshots.get? id = some row ∧ snapshotPath row = snapshotPath row' := by
    intro id row' hid
    have hmap := hrows id
    rw [hid, Option.map_some] at hmap
    obtain ⟨row, hrow, heq⟩ := Option.map_eq_some_iff.mp hmap.symm
    exact ⟨row, hrow, heq⟩
  have hsome : ∀ id, (s.snapshots.get? id).isSome = true →
      (s'.snapshots.get? id).isSome = true := by
    intro id hid
    have hmap := congrArg Option.isSome (hrows id)
    rw [Option.isSome_map, Option.isSome_map] at hmap
    rw [hmap]
    exact hid
  refine ⟨?_, ?_, ?_, ?_, by rw [htxs]; exact h.locks⟩
  · intro id row' hid
    obtain ⟨row, hrow, -⟩ := hpath id row' hid
    rw [hseq]
    exact h.seq id row hrow
  · intro a b ra rb ha hb hne
    obtain ⟨oa, hoa, hpa⟩ := hpath a ra ha
    obtain ⟨ob, hob, hpb⟩ := hpath b rb hb
    rw [← hpa, ← hpb]
    exact h.paths a b oa ob hoa hob hne
  · intro id hid
    rcases hneeded id hid with hold | ⟨hthere, -⟩
    · exact hsome id (h.there id hold)
    · exact hsome id hthere
  · intro k tx hk
    rw [htxs] at hk
    have hok := h.txs k tx hk
    refine ⟨?_, ?_, ?_, ?_⟩
    · intro id hid
      obtain ⟨hunneeded, hthere⟩ := hok.deleted id hid
      refine ⟨?_, hsome id hthere⟩
      cases hn : needed s' id with
      | false => rfl
      | true =>
        rcases hneeded id hn with hold | ⟨-, hfree⟩
        · rw [hunneeded] at hold
          exact absurd hold (by simp)
        · rw [hfree k tx hk] at hid
          exact absurd hid (by simp)
    · intro todo deleted unlinking heq next hnext
      obtain ⟨hlt, hold⟩ := hok.todo todo deleted unlinking heq next hnext
      refine ⟨by rw [hseq]; exact hlt, ?_⟩
      intro row' hrow'
      obtain ⟨row, hrow, hpath⟩ := hpath next.id row' hrow'
      rw [← hpath]
      exact hold row hrow
    · intro todo deleted last heq
      obtain ⟨hmem, hold⟩ := hok.unlinking todo deleted last heq
      refine ⟨hmem, ?_⟩
      intro row' hrow'
      obtain ⟨row, hrow, hpath⟩ := hpath last.id row' hrow'
      rw [← hpath]
      exact hold row hrow
    · intro id commit heq
      exact hsome id (hok.pinned id commit heq)

/-! ## Commits -/

theorem modify_path (t : Table GitSnapshotId GitSnapshot) (k id : GitSnapshotId)
    (at_ : Option Time) :
    ((t.modify k (markSuperseded at_)).get? id).map snapshotPath =
    (t.get? id).map snapshotPath := by
  rw [Table.get?_modify]
  split
  · next heq =>
    rw [heq, Option.map_map]
    rfl
  · rfl

theorem applySync_path (s : State) (source : GitSourceId) (began : Time) (k : GitSnapshotId)
    (locked : Bool) (previous : Option GitSnapshotId) (id : GitSnapshotId) :
    ((applySync s source began k locked previous).snapshots.get? id).map snapshotPath =
      (s.snapshots.get? id).map snapshotPath := by
  unfold applySync
  cases previous <;> cases locked <;> simp only [modify_path, if_true, Bool.false_eq_true, if_false]

theorem applySync_needed {s : State} {source : GitSourceId} {began : Time} {k : GitSnapshotId}
    {locked : Bool} {previous : Option GitSnapshotId} {id : GitSnapshotId}
    (h : needed (applySync s source began k locked previous) id = true) :
    id = k ∨ needed s id = true := by
  rcases needed_iff.mp h with hcurrent | hpinned
  · obtain ⟨src, row, hrow, hpoints⟩ := current_iff.mp hcurrent
    simp only [applySync, Table.get?_modify] at hrow
    split at hrow
    · obtain ⟨old, -, rfl⟩ := Option.map_eq_some_iff.mp hrow
      exact Or.inl (Option.some.inj hpoints).symm
    · exact Or.inr (needed_iff.mpr (Or.inl (current_iff.mpr ⟨src, row, hrow, hpoints⟩)))
  · exact Or.inr (needed_iff.mpr (Or.inr hpinned))

/-- A sync points its source at a snapshot there is and nobody deletes. -/
theorem Inv.applySync {s : State} (h : Inv s) {source : GitSourceId} {began : Time}
    {k : GitSnapshotId} {locked : Bool} {previous : Option GitSnapshotId}
    (hk : needed s k = true ∨ (s.snapshots.get? k).isSome = true ∧
      ∀ k' tx, s.txs.get? k' = some tx → tx.deletes k = false) :
    Inv (applySync s source began k locked previous) := by
  refine h.rows (applySync_path s source began k locked previous) rfl rfl ?_
  intro id hid
  rcases applySync_needed hid with rfl | hold
  · exact hk
  · exact Or.inl hold

theorem Keeps.ofPaths {s s' : State}
    (hrows : ∀ id, (s'.snapshots.get? id).map snapshotPath = (s.snapshots.get? id).map snapshotPath)
    (htars : s.tars ⊆ s'.tars) : Keeps s s' := by
  refine ⟨?_, ?_⟩
  · intro id row hid _
    have hmap := hrows id
    rw [hid, Option.map_some] at hmap
    exact Option.map_eq_some_iff.mp hmap
  · intro id row _ _ hmem
    exact htars hmem

theorem findSnapshot_none {s : State} {source : GitSourceId} {commit : String}
    (h : (findSnapshot s source commit).isNone = true) {id : GitSnapshotId} {row : GitSnapshot}
    (hid : s.snapshots.get? id = some row) : snapshotPath row ≠ (source, commit) := by
  rw [findSnapshot, Option.isNone_map, Option.isNone_iff_eq_none, List.find?_eq_none] at h
  have hnot := h _ (Table.get?_eq_some_iff.mp hid)
  intro heq
  obtain ⟨hsource, hcommit⟩ := Prod.mk.inj heq
  exact hnot (by simp [hsource, hcommit])

/-- Its id is the next of the sequence: no row has it, and nobody deletes it. -/
theorem Inv.unused {s : State} (h : Inv s) : s.snapshots.get? s.seq = none ∧
    ∀ k tx, s.txs.get? k = some tx → tx.deletes s.seq = false := by
  have hnone : s.snapshots.get? s.seq = none := by
    cases hid : s.snapshots.get? s.seq with
    | none => rfl
    | some row => exact absurd (h.seq _ row hid) (Nat.lt_irrefl _)
  refine ⟨hnone, ?_⟩
  intro k tx hk
  cases hd : tx.deletes s.seq with
  | false => rfl
  | true =>
    have hthere := ((h.txs k tx hk).deleted _ hd).2
    rw [hnone] at hthere
    exact absurd hthere (by simp)

/-- A new snapshot, which nothing points at yet. -/
theorem Inv.insert {s : State} (h : Inv s) {source : GitSourceId} {commit : String}
    (hnew : (findSnapshot s source commit).isNone = true) :
    Inv { s with
      snapshots := s.snapshots.put s.seq { sourceId := source, commit := commit }
      seq := s.seq + 1 } := by
  have hunused := h.unused.1
  have hother : ∀ id, id ≠ s.seq →
      (s.snapshots.put s.seq { sourceId := source, commit := commit }).get? id =
        s.snapshots.get? id := fun id hne => Table.get?_put_of_ne _ _ hne
  have hthere : ∀ id, (s.snapshots.get? id).isSome = true →
      ((s.snapshots.put s.seq { sourceId := source, commit := commit }).get? id).isSome = true := by
    intro id hid
    rw [Table.get?_put]
    split
    · rfl
    · exact hid
  refine ⟨?_, h.paths.put ?_, fun id hid => hthere id (h.there id hid), ?_, h.locks⟩
  · intro id row hid
    rcases Table.get?_put_cases hid with ⟨rfl, -⟩ | ⟨-, hold⟩
    · exact Nat.lt_succ_self _
    · exact Nat.lt_succ_of_lt (h.seq id row hold)
  · intro id row hid _
    have hne := findSnapshot_none hnew hid
    exact ⟨hne.symm, hne⟩
  · intro k tx hk
    have hok := h.txs k tx hk
    refine ⟨?_, ?_, ?_, fun id c heq => hthere id (hok.pinned id c heq)⟩
    · intro id hid
      exact ⟨(hok.deleted id hid).1, hthere id (hok.deleted id hid).2⟩
    · intro todo deleted unlinking heq next hnext
      obtain ⟨hlt, hold⟩ := hok.todo todo deleted unlinking heq next hnext
      refine ⟨Nat.lt_succ_of_lt hlt, ?_⟩
      intro row hrow
      exact hold row (by rw [← hother next.id (Nat.ne_of_lt hlt)]; exact hrow)
    · intro todo deleted last heq
      obtain ⟨hmem, hold⟩ := hok.unlinking todo deleted last heq
      refine ⟨hmem, ?_⟩
      intro row hrow
      have hthere := (hok.deleted last.id (by rw [heq]; simpa [Tx.deletes] using hmem)).2
      have hne : last.id ≠ s.seq := by
        intro heq'
        rw [heq', hunused] at hthere
        exact absurd hthere (by simp)
      exact hold row (by rw [← hother last.id hne]; exact hrow)

theorem setNull_eq_some {deleted : List GitSnapshotId} {reference : Option GitSnapshotId}
    {id : GitSnapshotId} (h : setNull deleted reference = some id) :
    reference = some id ∧ id ∉ deleted := by
  obtain ⟨hsome, hnot⟩ := Option.filter_eq_some_iff.mp h
  exact ⟨hsome, by simpa using hnot⟩

/-- Pruning takes needs away, with what they were of. -/
theorem applyPrune_needed {s : State} {deleted : List GitSnapshotId} {id : GitSnapshotId}
    (h : needed (applyPrune s deleted) id = true) : needed s id = true ∧ id ∉ deleted := by
  rcases needed_iff.mp h with hcurrent | hpinned
  · obtain ⟨k, row, hrow, hpoints⟩ := current_iff.mp hcurrent
    simp only [applyPrune, Table.get?_mapRows] at hrow
    obtain ⟨old, hold, rfl⟩ := Option.map_eq_some_iff.mp hrow
    obtain ⟨hpoints', hnot⟩ := setNull_eq_some hpoints
    exact ⟨needed_iff.mpr (Or.inl (current_iff.mpr ⟨k, old, hold, hpoints'⟩)), hnot⟩
  · rcases pinned_iff.mp hpinned with ⟨k, row, hrow, hactive, hpins⟩ |
      ⟨k, row, hrow, hactive, hpins⟩
    · simp only [applyPrune, Table.get?_mapRows] at hrow
      obtain ⟨old, hold, rfl⟩ := Option.map_eq_some_iff.mp hrow
      obtain ⟨hpins', hnot⟩ := setNull_eq_some hpins
      exact ⟨needed_iff.mpr (Or.inr (pinned_iff.mpr (Or.inl ⟨k, old, hold, hactive, hpins'⟩))),
        hnot⟩
    · simp only [applyPrune, Table.get?_mapRows] at hrow
      obtain ⟨old, hold, rfl⟩ := Option.map_eq_some_iff.mp hrow
      obtain ⟨hpins', hnot⟩ := setNull_eq_some hpins
      exact ⟨needed_iff.mpr (Or.inr (pinned_iff.mpr (Or.inr ⟨k, old, hold, hactive, hpins'⟩))),
        hnot⟩

theorem applyPrune_get? {s : State} {deleted : List GitSnapshotId} {id : GitSnapshotId}
    {row : GitSnapshot} : (applyPrune s deleted).snapshots.get? id = some row ↔
      s.snapshots.get? id = some row ∧ id ∉ deleted := by
  rw [applyPrune, Table.get?_deleteWhere_eq_some]
  simp

/-- A pruning that deleted nothing else's rows commits. -/
theorem Inv.applyPrune {s : State} (h : Inv s) {k : Nat} {deleted : List GitSnapshotId}
    (hk : s.txs.get? k = some (.prune [] deleted none)) :
    Inv (GitSync.endTx (GitSync.applyPrune s deleted) k) := by
  have hthere : ∀ id, id ∉ deleted → (s.snapshots.get? id).isSome = true →
      ((GitSync.applyPrune s deleted).snapshots.get? id).isSome = true := by
    intro id hnot hid
    obtain ⟨row, hrow⟩ := Option.isSome_iff_exists.mp hid
    rw [applyPrune_get?.mpr ⟨hrow, hnot⟩]
    rfl
  -- the other transactions have locked none of them
  have hnot : ∀ k' tx, k' ≠ k → s.txs.get? k' = some tx → ∀ id, tx.locks id = true →
      id ∉ deleted := by
    intro k' tx hne hk' id hlocks hmem
    have hfree := h.undeleted hk' hlocks hk hne.symm
    exact absurd hfree (by simp [Tx.deletes, hmem])
  refine ⟨?_, ?_, ?_, ?_, h.locks.remove k⟩
  · intro id row hid
    exact h.seq id row (applyPrune_get?.mp hid).1
  · intro a b ra rb ha hb
    exact h.paths a b ra rb (applyPrune_get?.mp ha).1 (applyPrune_get?.mp hb).1
  · intro id hid
    obtain ⟨hneeded, hkept⟩ := applyPrune_needed hid
    exact hthere id hkept (h.there id hneeded)
  · intro k' tx hk'
    obtain ⟨hne, hold⟩ := Table.get?_remove_eq_some.mp hk'
    have hok := h.txs k' tx hold
    refine ⟨?_, ?_, ?_, ?_⟩
    · intro id hid
      obtain ⟨hunneeded, hrow⟩ := hok.deleted id hid
      refine ⟨?_, hthere id (hnot k' tx hne hold id (locks_of_deletes hid)) hrow⟩
      cases hn : needed (GitSync.endTx (GitSync.applyPrune s deleted) k) id with
      | false => rfl
      | true =>
        rw [(applyPrune_needed hn).1] at hunneeded
        exact absurd hunneeded (by simp)
    · intro todo deleted' unlinking heq next hnext
      obtain ⟨hlt, hpath⟩ := hok.todo todo deleted' unlinking heq next hnext
      exact ⟨hlt, fun row hrow => hpath row (applyPrune_get?.mp hrow).1⟩
    · intro todo deleted' last heq
      obtain ⟨hmem, hpath⟩ := hok.unlinking todo deleted' last heq
      exact ⟨hmem, fun row hrow => hpath row (applyPrune_get?.mp hrow).1⟩
    · intro id commit heq
      refine hthere id (hnot k' tx hne hold id ?_) (hok.pinned id commit heq)
      rw [heq]
      simp [Tx.locks]

theorem Keeps.prune {s : State} (h : Inv s) {k : Nat} {deleted : List GitSnapshotId}
    (hk : s.txs.get? k = some (.prune [] deleted none)) :
    Keeps s (endTx (applyPrune s deleted) k) := by
  refine ⟨?_, fun _ _ _ _ hmem => hmem⟩
  intro id row hid hneeded
  refine ⟨row, applyPrune_get?.mpr ⟨hid, ?_⟩, rfl⟩
  intro hmem
  have hunneeded := ((h.txs k _ hk).deleted id (by simpa [Tx.deletes] using hmem)).1
  rw [hneeded] at hunneeded
  exact absurd hunneeded (by simp)

/-- The tar that is removed is that of a snapshot nobody needs, and of no other. -/
theorem Keeps.unlink {s : State} (h : Inv s) {k : Nat} {todo : List Stale}
    {deleted : List GitSnapshotId} {last : Stale}
    (hk : s.txs.get? k = some (.prune todo deleted (some last))) {tx : Tx} :
    Keeps s { putTx s k tx with tars := s.tars.erase (last.sourceId, last.commit) } := by
  refine ⟨fun id row hid _ => ⟨row, hid, rfl⟩, ?_⟩
  intro id row hid hneeded hmem
  obtain ⟨hlast, hpath⟩ := (h.txs k _ hk).unlinking todo deleted last rfl
  obtain ⟨hunneeded, hthere⟩ := (h.txs k _ hk).deleted last.id (by simpa [Tx.deletes] using hlast)
  obtain ⟨lost, hlost⟩ := Option.isSome_iff_exists.mp hthere
  refine Finset.mem_erase.mpr ⟨?_, hmem⟩
  rw [← hpath lost hlost]
  refine h.paths id last.id row lost hid hlost ?_
  rintro rfl
  rw [hneeded] at hunneeded
  exact absurd hunneeded (by simp)

/-- A run or check that was queued or running changes its status. -/
theorem Inv.jobs {s s' : State} (h : Inv s) (hsnapshots : s'.snapshots = s.snapshots)
    (hseq : s'.seq = s.seq) (htxs : s'.txs = s.txs)
    (hneeded : ∀ id, needed s' id = true → needed s id = true ∨
      (s.snapshots.get? id).isSome = true ∧
      ∀ k tx, s.txs.get? k = some tx → tx.deletes id = false) : Inv s' :=
  h.rows (fun id => by rw [hsnapshots]) hseq htxs hneeded

/-- A new source points at nothing. -/
theorem createSource_needed {s : State} {k : GitSourceId} {id : GitSnapshotId}
    (h : needed { s with sources := s.sources.put k {} } id = true) : needed s id = true := by
  refine needed_iff.mpr ?_
  rcases needed_iff.mp h with hcurrent | hpinned
  · obtain ⟨k', row, hrow, hpoints⟩ := current_iff.mp hcurrent
    rcases Table.get?_put_cases hrow with ⟨-, rfl⟩ | ⟨-, hold⟩
    · exact absurd hpoints (by simp)
    · exact Or.inl (current_iff.mpr ⟨k', row, hold, hpoints⟩)
  · exact Or.inr hpinned

theorem setRun_needed {s : State} {k : RunId} {run : Run} {status : RunStatus}
    (hk : s.runs.get? k = some run) (hactive : run.status.active = true) {id : GitSnapshotId}
    (h : needed { s with runs := s.runs.put k { run with status := status } } id = true) :
    needed s id = true := by
  refine needed_iff.mpr ?_
  rcases needed_iff.mp h with hcurrent | hpinned
  · exact Or.inl hcurrent
  · refine Or.inr (pinned_iff.mpr ?_)
    rcases pinned_iff.mp hpinned with ⟨k', row, hrow, hactive', hpins⟩ | hlint
    · rcases Table.get?_put_cases hrow with ⟨rfl, rfl⟩ | ⟨-, hold⟩
      · exact Or.inl ⟨k', run, hk, hactive, hpins⟩
      · exact Or.inl ⟨k', row, hold, hactive', hpins⟩
    · exact Or.inr hlint

theorem setLint_needed {s : State} {k : LintId} {lint : LintJob} {status : RunStatus}
    (hk : s.lints.get? k = some lint) (hactive : lint.status.active = true) {id : GitSnapshotId}
    (h : needed { s with lints := s.lints.put k { lint with status := status } } id = true) :
    needed s id = true := by
  refine needed_iff.mpr ?_
  rcases needed_iff.mp h with hcurrent | hpinned
  · exact Or.inl hcurrent
  · refine Or.inr (pinned_iff.mpr ?_)
    rcases pinned_iff.mp hpinned with hrun | ⟨k', row, hrow, hactive', hpins⟩
    · exact Or.inl hrun
    · rcases Table.get?_put_cases hrow with ⟨rfl, rfl⟩ | ⟨-, hold⟩
      · exact Or.inr ⟨k', lint, hk, hactive, hpins⟩
      · exact Or.inr ⟨k', row, hold, hactive', hpins⟩

theorem queueRun_needed {s : State} {k : RunId} {run : Run} {id : GitSnapshotId}
    (h : needed { s with runs := s.runs.put k run } id = true) :
    run.gitSnapshotId = some id ∨ needed s id = true := by
  rcases needed_iff.mp h with hcurrent | hpinned
  · exact Or.inr (needed_iff.mpr (Or.inl hcurrent))
  · rcases pinned_iff.mp hpinned with ⟨k', row, hrow, hactive, hpins⟩ | hlint
    · rcases Table.get?_put_cases hrow with ⟨rfl, rfl⟩ | ⟨-, hold⟩
      · exact Or.inl hpins
      · refine Or.inr (needed_iff.mpr (Or.inr (pinned_iff.mpr ?_)))
        exact Or.inl ⟨k', row, hold, hactive, hpins⟩
    · exact Or.inr (needed_iff.mpr (Or.inr (pinned_iff.mpr (Or.inr hlint))))

theorem queueLint_needed {s : State} {k : LintId} {lint : LintJob} {id : GitSnapshotId}
    (h : needed { s with lints := s.lints.put k lint } id = true) :
    lint.gitSnapshotId = some id ∨ needed s id = true := by
  rcases needed_iff.mp h with hcurrent | hpinned
  · exact Or.inr (needed_iff.mpr (Or.inl hcurrent))
  · rcases pinned_iff.mp hpinned with hrun | ⟨k', row, hrow, hactive, hpins⟩
    · exact Or.inr (needed_iff.mpr (Or.inr (pinned_iff.mpr (Or.inl hrun))))
    · rcases Table.get?_put_cases hrow with ⟨rfl, rfl⟩ | ⟨-, hold⟩
      · exact Or.inl hpins
      · refine Or.inr (needed_iff.mpr (Or.inr (pinned_iff.mpr ?_)))
        exact Or.inr ⟨k', row, hold, hactive, hpins⟩

/-- What a trigger has pinned, nobody deletes. -/
theorem Inv.pinned_free {s : State} (h : Inv s) {k : Nat} {id : GitSnapshotId} {commit : String}
    (hk : s.txs.get? k = some (.trigger id (some commit))) :
    (s.snapshots.get? id).isSome = true ∧
      ∀ k' tx, s.txs.get? k' = some tx → tx.deletes id = false := by
  refine ⟨(h.txs k _ hk).pinned id commit rfl, ?_⟩
  intro k' tx hk'
  by_cases hne : k' = k
  · subst hne
    rw [hk] at hk'
    obtain rfl := Option.some.inj hk'
    rfl
  · exact h.undeleted hk (by simp [Tx.locks]) hk' hne

/-- A sync commits a new snapshot. -/
theorem Inv.insertSync {s : State} (h : Inv s) {source : GitSourceId} {began : Time}
    {commit : String} {previous : Option GitSnapshotId}
    (hnew : (findSnapshot s source commit).isNone = true) :
    Inv (insertSync s source began commit previous) := by
  refine (h.insert hnew).applySync (Or.inr ⟨?_, h.unused.2⟩)
  rw [Table.get?_put_self]
  rfl

theorem Keeps.insertSync {s : State} (h : Inv s) {source : GitSourceId} {began : Time}
    {commit : String} {previous : Option GitSnapshotId} {k : Nat} :
    Keeps s (endTx (insertSync s source began commit previous) k) := by
  refine ⟨?_, fun _ _ _ _ hmem => hmem⟩
  intro id row hid _
  have hpath := applySync_path { s with
    snapshots := s.snapshots.put s.seq { sourceId := source, commit := commit }
    seq := s.seq + 1 } source began s.seq false previous id
  rw [Table.get?_put_of_ne _ _ (Nat.ne_of_lt (h.seq id row hid)), hid] at hpath
  exact Option.map_eq_some_iff.mp hpath

/-- What pruning picks are snapshots there are. -/
theorem Inv.prune {s : State} (h : Inv s) (k : Nat) (began : Time) :
    Inv (GitSync.putTx s k (.prune (stale s began) [] none)) := by
  refine h.putTx ⟨?_, ?_, ?_, ?_⟩ ?_ ?_
  · intro id hid
    exact absurd hid (by simp [Tx.deletes])
  · intro todo deleted unlinking heq next hnext
    obtain ⟨rfl, -, -⟩ := Tx.prune.inj heq
    obtain ⟨⟨id, row⟩, hmem, rfl⟩ := List.mem_map.mp hnext
    have hid := Table.get?_eq_some_iff.mpr (List.mem_filter.mp hmem).1
    refine ⟨h.seq id row hid, ?_⟩
    intro row' hrow'
    rw [hid] at hrow'
    obtain rfl := Option.some.inj hrow'
    rfl
  · intro todo deleted last heq
    exact absurd heq (by simp)
  · intro id commit heq
    exact absurd heq (by simp)
  · intro id hid
    exact absurd hid (by simp [Tx.locks, Tx.deletes])
  · intro id hid
    exact absurd hid (by simp [Tx.deletes])

/-- Pruning deletes a snapshot that nobody needs or has locked. -/
theorem Inv.delete {s : State} (h : Inv s) {k : Nat} {next : Stale} {todo : List Stale}
    {deleted : List GitSnapshotId} (hk : s.txs.get? k = some (.prune (next :: todo) deleted none))
    (hthere : (s.snapshots.get? next.id).isSome = true) (hunneeded : needed s next.id = false)
    (hfree : lockable s k next.id = true) :
    Inv (GitSync.putTx s k (.prune todo (next.id :: deleted) (some next))) := by
  have hok := h.txs k _ hk
  have hcases : ∀ id, (Tx.prune todo (next.id :: deleted) (some next)).deletes id = true →
      id = next.id ∨ (Tx.prune (next :: todo) deleted none).deletes id = true := by
    intro id hid
    simpa [Tx.deletes] using hid
  refine h.putTx ⟨?_, ?_, ?_, ?_⟩ ?_ ?_
  · intro id hid
    rcases hcases id hid with rfl | hold
    · exact ⟨hunneeded, hthere⟩
    · exact hok.deleted id hold
  · intro todo' deleted' unlinking heq other hother
    obtain ⟨rfl, -, -⟩ := Tx.prune.inj heq
    exact hok.todo _ _ _ rfl other (List.mem_cons_of_mem _ hother)
  · intro todo' deleted' last heq
    obtain ⟨-, rfl, hlast⟩ := Tx.prune.inj heq
    obtain rfl := Option.some.inj hlast
    exact ⟨List.mem_cons_self, (hok.todo _ _ _ rfl next List.mem_cons_self).2⟩
  · intro id commit heq
    exact absurd heq (by simp)
  · intro id hid k' tx' hk' hne
    rcases hcases id hid with rfl | hold
    · exact deletes_eq_false (of_lockable hfree hk' hne)
    · exact h.undeleted hk (locks_of_deletes hold) hk' hne
  · intro id hid k' tx' hk' hne
    rcases hcases id hid with rfl | hold
    · exact of_lockable hfree hk' hne
    · exact h.locks k k' _ tx' hk hk' hne id hold

/-- And removes its tar. -/
theorem Inv.unlinked {s : State} (h : Inv s) {k : Nat} {todo : List Stale}
    {deleted : List GitSnapshotId} {last : Stale}
    (hk : s.txs.get? k = some (.prune todo deleted (some last))) :
    Inv (GitSync.putTx s k (.prune todo deleted none)) := by
  have hok := h.txs k _ hk
  refine h.putTx ⟨hok.deleted, ?_, ?_, ?_⟩ ?_ ?_
  · intro todo' deleted' unlinking heq
    obtain ⟨rfl, -, -⟩ := Tx.prune.inj heq
    exact hok.todo _ _ _ rfl
  · intro todo' deleted' last' heq
    exact absurd heq (by simp)
  · intro id commit heq
    exact absurd heq (by simp)
  · intro id hid k' tx' hk' hne
    exact h.undeleted hk hid hk' hne
  · intro id hid k' tx' hk' hne
    exact h.locks k k' _ tx' hk hk' hne id hid

/-! ## Steps -/

theorem flushSnapshot_locks {s : State} {k : Nat} {source : GitSourceId} {began : Time}
    {commit : String} {found : Option Loaded} {changed : Bool} {phase : SyncPhase}
    (h : flushSnapshot s k source commit found changed = some phase) {id : GitSnapshotId}
    (hid : (Tx.sync source began commit phase).locks id = true) : lockable s k id = true := by
  unfold flushSnapshot at h
  split at h
  · split at h
    · obtain rfl := Option.some.inj h
      exact absurd hid (by simp [Tx.locks])
    · exact absurd h (by simp)
  · split at h
    · split at h
      · next hfree =>
        obtain rfl := Option.some.inj h
        rw [Bool.and_eq_true] at hfree
        simp only [Tx.locks, Bool.true_and, decide_eq_true_eq, Option.some.injEq] at hid
        rw [← hid]
        exact hfree.2
      · exact absurd h (by simp)
    · obtain rfl := Option.some.inj h
      exact absurd hid (by simp [Tx.locks])

theorem previousOf_lockable {s : State} {k : Nat} {source : GitSource}
    {snapshot : Option GitSnapshotId} {id : GitSnapshotId}
    (h : previousOf s k source snapshot = some (some id)) : lockable s k id = true := by
  unfold previousOf at h
  split at h
  · exact absurd h (by simp)
  · split at h
    · exact absurd h (by simp)
    · split at h
      · next hfree =>
        obtain rfl := Option.some.inj (Option.some.inj h)
        exact hfree
      · exact absurd h (by simp)

section Steps

variable {s s' : State}

theorem keeps_tick {seconds : Nat} (h : Inv s) (hs : step s (.tick seconds) = some s') :
    Inv s' ∧ Keeps s s' := by
  obtain rfl := Option.some.inj hs
  refine ⟨h.rows (fun _ => rfl) rfl rfl fun _ hid => Or.inl hid, .same rfl (Finset.Subset.refl _)⟩

theorem keeps_createSource {id : GitSourceId} (h : Inv s)
    (hs : step s (.createSource id) = some s') : Inv s' ∧ Keeps s s' := by
  simp only [step] at hs
  split at hs
  · obtain rfl := Option.some.inj hs
    refine ⟨h.jobs rfl rfl rfl ?_, .same rfl (Finset.Subset.refl _)⟩
    intro id' hid'
    exact Or.inl (createSource_needed hid')
  · exact absurd hs (by simp)

theorem keeps_sync {k : Nat} {source : GitSourceId} {commit : String} {began : Time} (h : Inv s)
    (hs : step s (.sync k source commit began) = some s') : Inv s' ∧ Keeps s s' := by
  simp only [step] at hs
  split at hs
  · obtain rfl := Option.some.inj hs
    refine ⟨h.putSync ?_, .same rfl (Finset.Subset.refl _)⟩
    intro id hid
    exact absurd hid (by simp [Tx.locks, Tx.deletes])
  · exact absurd hs (by simp)

theorem keeps_buildSnapshot {k : Nat} {changed : Bool} (h : Inv s)
    (hs : step s (.buildSnapshot k changed) = some s') : Inv s' ∧ Keeps s s' := by
  simp only [step] at hs
  split at hs
  · next source began commit found hk =>
    obtain rfl := Option.some.inj hs
    have hinv : Inv (putTx s k (.sync source began commit (.built found changed))) :=
      (h.unlocked fun _ => rfl).1
    refine ⟨hinv.rows (fun _ => rfl) rfl rfl fun _ hid => Or.inl hid, .same rfl ?_⟩
    exact Finset.subset_insert _ _
  · exact absurd hs (by simp)

theorem keeps_flush {k : Nat} (h : Inv s) (hs : step s (.flush k) = some s') :
    Inv s' ∧ Keeps s s' := by
  simp only [step] at hs
  split at hs
  · next source began commit found changed hk =>
    obtain ⟨row, -, hs⟩ := Option.bind_eq_some_iff.mp hs
    obtain ⟨phase, hflush, hs⟩ := Option.bind_eq_some_iff.mp hs
    obtain rfl := Option.some.inj hs
    refine ⟨h.putSync ?_, .same rfl (Finset.Subset.refl _)⟩
    intro id hid k' tx' hk' hne
    exact deletes_eq_false (of_lockable (flushSnapshot_locks hflush hid) hk' hne)
  · exact absurd hs (by simp)

theorem keeps_supersede {k : Nat} (h : Inv s) (hs : step s (.supersede k) = some s') :
    Inv s' ∧ Keeps s s' := by
  simp only [step] at hs
  split at hs
  · next source began commit snapshot locked hk =>
    obtain ⟨row, -, hs⟩ := Option.bind_eq_some_iff.mp hs
    obtain ⟨previous, hprevious, hs⟩ := Option.bind_eq_some_iff.mp hs
    obtain rfl := Option.some.inj hs
    refine ⟨h.putSync ?_, .same rfl (Finset.Subset.refl _)⟩
    intro id hid k' tx' hk' hne
    simp only [Tx.locks, Bool.or_eq_true, decide_eq_true_eq] at hid
    rcases hid with hold | rfl
    · exact h.undeleted hk (by simpa [Tx.locks] using hold) hk' hne
    · exact deletes_eq_false (of_lockable (previousOf_lockable hprevious) hk' hne)
  · exact absurd hs (by simp)

theorem keeps_commitSync {k : Nat} (h : Inv s) (hs : step s (.commitSync k) = some s') :
    Inv s' ∧ Keeps s s' := by
  simp only [step] at hs
  split at hs
  · next source began commit id locked previous hk =>
    obtain ⟨row, hrow, hs⟩ := Option.bind_eq_some_iff.mp hs
    split at hs
    · next hcan =>
      obtain rfl := Option.some.inj hs
      simp only [Bool.or_eq_true, Bool.and_eq_true, decide_eq_true_eq] at hcan
      have happlied : Inv (applySync s source began id locked previous) := by
        refine h.applySync ?_
        rcases hcan with hsame | ⟨hthere, hfree⟩
        · exact Or.inl (needed_iff.mpr (Or.inl (current_iff.mpr ⟨source, row, hrow, hsame⟩)))
        · refine Or.inr ⟨hthere, ?_⟩
          intro k' tx hk'
          by_cases hne : k' = k
          · subst hne
            rw [hk] at hk'
            obtain rfl := Option.some.inj hk'
            rfl
          · exact of_referable hfree hk' hne
      exact ⟨happlied.endTx k, .ofPaths (applySync_path s source began id locked previous)
        (Finset.Subset.refl _)⟩
    · exact absurd hs (by simp)
  · next source began commit locked previous hk =>
    split at hs
    · next hnew =>
      obtain rfl := Option.some.inj hs
      exact ⟨(h.insertSync hnew).endTx k, .insertSync h⟩
    · exact absurd hs (by simp)
  · exact absurd hs (by simp)

theorem keeps_trigger {k : Nat} {source : GitSourceId} (h : Inv s)
    (hs : step s (.trigger k source) = some s') : Inv s' ∧ Keeps s s' := by
  obtain ⟨row, -, hs⟩ := Option.bind_eq_some_iff.mp hs
  obtain ⟨id, -, hs⟩ := Option.bind_eq_some_iff.mp hs
  split at hs
  · obtain rfl := Option.some.inj hs
    refine ⟨h.putTx ⟨?_, ?_, ?_, ?_⟩ ?_ ?_, .same rfl (Finset.Subset.refl _)⟩
    · intro id' hid
      exact absurd hid (by simp [Tx.deletes])
    · intro todo deleted unlinking heq
      exact absurd heq (by simp)
    · intro todo deleted last heq
      exact absurd heq (by simp)
    · intro id' commit heq
      exact absurd heq (by simp)
    · intro id' hid
      exact absurd hid (by simp [Tx.locks, Tx.deletes])
    · intro id' hid
      exact absurd hid (by simp [Tx.deletes])
  · exact absurd hs (by simp)

theorem keeps_pin {k : Nat} (h : Inv s) (hs : step s (.pin k) = some s') : Inv s' ∧ Keeps s s' := by
  simp only [step] at hs
  split at hs
  · next id hk =>
    obtain ⟨row, hid, hs⟩ := Option.bind_eq_some_iff.mp hs
    split at hs
    · next hcan =>
      obtain rfl := Option.some.inj hs
      rw [Bool.and_eq_true] at hcan
      refine ⟨h.putTx ⟨?_, ?_, ?_, ?_⟩ ?_ ?_, .same rfl (Finset.Subset.refl _)⟩
      · intro id' hid'
        exact absurd hid' (by simp [Tx.deletes])
      · intro todo deleted unlinking heq
        exact absurd heq (by simp)
      · intro todo deleted last heq
        exact absurd heq (by simp)
      · intro id' commit heq
        obtain ⟨rfl, -⟩ := Tx.trigger.inj heq
        rw [hid]
        rfl
      · intro id' hid' k' tx' hk' hne
        simp only [Tx.locks, decide_eq_true_eq] at hid'
        rw [← hid']
        exact of_shareable hcan.1 hk' hne
      · intro id' hid'
        exact absurd hid' (by simp [Tx.deletes])
    · exact absurd hs (by simp)
  · exact absurd hs (by simp)

theorem keeps_queueRun {k : Nat} {id : RunId} {run : Run} (h : Inv s)
    (hs : step s (.queueRun k id run) = some s') : Inv s' ∧ Keeps s s' := by
  simp only [step] at hs
  split at hs
  · next snapshot commit hk =>
    split at hs
    · obtain rfl := Option.some.inj hs
      have hqueued : Inv { s with runs := s.runs.put id { run with
          status := .queued, gitSnapshotId := some snapshot, gitCommit := some commit } } := by
        refine h.jobs rfl rfl rfl ?_
        intro id' hid'
        rcases queueRun_needed hid' with heq | hold
        · obtain rfl := Option.some.inj heq
          exact Or.inr (h.pinned_free hk)
        · exact Or.inl hold
      exact ⟨hqueued.endTx k, .same rfl (Finset.Subset.refl _)⟩
    · exact absurd hs (by simp)
  · exact absurd hs (by simp)

theorem keeps_queueLint {k : Nat} {id : LintId} {lint : LintJob} (h : Inv s)
    (hs : step s (.queueLint k id lint) = some s') : Inv s' ∧ Keeps s s' := by
  simp only [step] at hs
  split at hs
  · next snapshot commit hk =>
    split at hs
    · obtain rfl := Option.some.inj hs
      have hqueued : Inv { s with lints := s.lints.put id { lint with
          status := .queued, gitSnapshotId := some snapshot, gitCommit := some commit } } := by
        refine h.jobs rfl rfl rfl ?_
        intro id' hid'
        rcases queueLint_needed hid' with heq | hold
        · obtain rfl := Option.some.inj heq
          exact Or.inr (h.pinned_free hk)
        · exact Or.inl hold
      exact ⟨hqueued.endTx k, .same rfl (Finset.Subset.refl _)⟩
    · exact absurd hs (by simp)
  · exact absurd hs (by simp)

theorem keeps_setRun {id : RunId} {status : RunStatus} (h : Inv s)
    (hs : step s (.setRun id status) = some s') : Inv s' ∧ Keeps s s' := by
  obtain ⟨run, hid, hs⟩ := Option.bind_eq_some_iff.mp hs
  split at hs
  · next hactive =>
    obtain rfl := Option.some.inj hs
    refine ⟨h.jobs rfl rfl rfl ?_, .same rfl (Finset.Subset.refl _)⟩
    intro id' hid'
    exact Or.inl (setRun_needed hid hactive hid')
  · exact absurd hs (by simp)

theorem keeps_setLint {id : LintId} {status : RunStatus} (h : Inv s)
    (hs : step s (.setLint id status) = some s') : Inv s' ∧ Keeps s s' := by
  obtain ⟨lint, hid, hs⟩ := Option.bind_eq_some_iff.mp hs
  split at hs
  · next hactive =>
    obtain rfl := Option.some.inj hs
    refine ⟨h.jobs rfl rfl rfl ?_, .same rfl (Finset.Subset.refl _)⟩
    intro id' hid'
    exact Or.inl (setLint_needed hid hactive hid')
  · exact absurd hs (by simp)

theorem keeps_prune {k : Nat} {began : Time} (h : Inv s) (hs : step s (.prune k began) = some s') :
    Inv s' ∧ Keeps s s' := by
  simp only [step] at hs
  split at hs
  · obtain rfl := Option.some.inj hs
    exact ⟨h.prune k began, .same rfl (Finset.Subset.refl _)⟩
  · exact absurd hs (by simp)

theorem keeps_delete {k : Nat} (h : Inv s) (hok : spares s (.delete k) = true)
    (hs : step s (.delete k) = some s') : Inv s' ∧ Keeps s s' := by
  simp only [step] at hs
  split at hs
  · next next todo deleted hk =>
    simp only [spares, hk, Bool.and_eq_true, Bool.not_eq_true'] at hok
    split at hs
    · next hgone =>
      rw [hgone] at hok
      exact absurd hok.1 (by simp)
    · split at hs
      · next hfree =>
        obtain rfl := Option.some.inj hs
        exact ⟨h.delete hk hok.1 hok.2 hfree, .same rfl (Finset.Subset.refl _)⟩
      · exact absurd hs (by simp)
  · exact absurd hs (by simp)

theorem keeps_unlink {k : Nat} (h : Inv s) (hs : step s (.unlink k) = some s') :
    Inv s' ∧ Keeps s s' := by
  simp only [step] at hs
  split at hs
  · next todo deleted last hk =>
    obtain rfl := Option.some.inj hs
    refine ⟨?_, .unlink h hk⟩
    exact (h.unlinked hk).rows (fun _ => rfl) rfl rfl fun _ hid => Or.inl hid
  · exact absurd hs (by simp)

theorem keeps_commitPrune {k : Nat} (h : Inv s) (hs : step s (.commitPrune k) = some s') :
    Inv s' ∧ Keeps s s' := by
  simp only [step] at hs
  split at hs
  · next deleted hk =>
    obtain rfl := Option.some.inj hs
    exact ⟨h.applyPrune hk, .prune h hk⟩
  · exact absurd hs (by simp)

theorem keeps_rollback {k : Nat} (h : Inv s) (hs : step s (.rollback k) = some s') :
    Inv s' ∧ Keeps s s' := by
  obtain ⟨tx, -, hs⟩ := Option.bind_eq_some_iff.mp hs
  obtain rfl := Option.some.inj hs
  exact ⟨h.endTx k, .same rfl (Finset.Subset.refl _)⟩

end Steps

theorem step_keeps {s s' : State} {a : Label} (h : Inv s) (hok : spares s a = true)
    (hs : step s a = some s') : Inv s' ∧ Keeps s s' := by
  cases a with
  | tick seconds => exact keeps_tick h hs
  | createSource id => exact keeps_createSource h hs
  | sync k source commit began => exact keeps_sync h hs
  | look k => exact keeps_look h hs
  | checkTar k => exact keeps_checkTar h hs
  | buildSnapshot k changed => exact keeps_buildSnapshot h hs
  | flush k => exact keeps_flush h hs
  | supersede k => exact keeps_supersede h hs
  | commitSync k => exact keeps_commitSync h hs
  | trigger k source => exact keeps_trigger h hs
  | pin k => exact keeps_pin h hs
  | queueRun k id run => exact keeps_queueRun h hs
  | queueLint k id lint => exact keeps_queueLint h hs
  | setRun id status => exact keeps_setRun h hs
  | setLint id status => exact keeps_setLint h hs
  | prune k began => exact keeps_prune h hs
  | delete k => exact keeps_delete h hok hs
  | unlink k => exact keeps_unlink h hs
  | commitPrune k => exact keeps_commitPrune h hs
  | rollback k => exact keeps_rollback h hs

theorem inv_inductive :
    Lib.System.Inductive system (fun s a => spares s a = true) Inv where
  init := by
    rintro s rfl
    exact inv_init
  step _ _ _ h hok hs := (step_keeps h hok hs).1

/-- What syncs and jobs can rely on. -/
structure Retained (ok : State → Label → Prop) (s : State) : Prop where
  /-- A snapshot that is needed is there. -/
  there : ∀ id, needed s id = true → (s.snapshots.get? id).isSome = true
  /-- No step deletes it, or removes its tar. -/
  keeps : ∀ a s', ok s a → step s a = some s' → Keeps s s'

/-- **Pruning loses no snapshot that is current or pinned**, where each `DELETE` finds its snapshot
there and not needed. -/
theorem retained {s : State} (hr : system.ReachableBy (fun s a => spares s a = true) s) :
    Retained (fun s a => spares s a = true) s := by
  have h : Inv s := inv_inductive.of_reachable hr
  exact ⟨h.there, fun _ _ hok hs => (step_keeps h hok hs).2⟩

/-- A branch moves on, and a run keeps the old commit until it ends; then it is pruned. -/
def prunedAfterRun : List Label :=
  [.createSource 1, .sync 1 1 "a" 0, .look 1, .checkTar 1, .buildSnapshot 1 true, .flush 1,
    .supersede 1, .commitSync 1, .trigger 2 1, .pin 2,
    .queueRun 2 1 { inventoryId := none, queuedAt := 0 }, .sync 1 1 "b" 0, .look 1, .checkTar 1,
    .buildSnapshot 1 true, .flush 1, .supersede 1, .commitSync 1, .tick 700, .prune 3 700,
    .commitPrune 3, .setRun 1 .success, .prune 3 700, .delete 3, .unlink 3, .commitPrune 3]

theorem retained_prunedAfterRun :
    Retained (fun s a => spares s a = true)
      ((system.run (fun s a => spares s a = true) {} prunedAfterRun).get rfl) :=
  retained (.of_isSome rfl prunedAfterRun rfl)

/-- Pruning picks the old commit's snapshot; then the branch goes back to that commit. -/
def branchGoesBack : List Label :=
  [.createSource 1, .sync 1 1 "a" 0, .look 1, .checkTar 1, .buildSnapshot 1 true, .flush 1,
    .supersede 1, .commitSync 1, .sync 1 1 "b" 0, .look 1, .checkTar 1, .buildSnapshot 1 true,
    .flush 1, .supersede 1, .commitSync 1, .tick 700, .prune 3 700, .sync 1 1 "a" 700, .look 1,
    .checkTar 1, .flush 1, .supersede 1, .commitSync 1, .delete 3, .unlink 3]

/-- The source's current snapshot is deleted, its tar already removed. -/
theorem not_retained : ¬∀ s, system.Reachable s → Retained Lib.anyStep s := by
  intro h
  have hs : system.Reachable ((system.run Lib.anyStep {} branchGoesBack).get rfl) :=
    .of_isSome rfl branchGoesBack rfl
  obtain ⟨row, hrow, -⟩ := ((h _ hs).keeps (.commitPrune 3) _ trivial rfl).rows 1 _ rfl rfl
  exact Option.some_ne_none row (hrow.symm.trans rfl)

end GitSync

end AnsiDeck
