import AnsiDeck.GitSync.Retention
import AnsiDeck.Lib.Serial

/-!
# One transaction at a time

Where no sync, trigger or pruning begins before the others end, what a pruning has picked stays
there and is not needed: jobs that end need less, a new source points at nothing. So the run is one
of those that lose nothing (`spares_of_oneAtATime`).
-/

namespace AnsiDeck

namespace GitSync

open Lib (Serial Table)

/-- A sync, a trigger or a pruning begins when there is no transaction. -/
def oneAtATime (s : State) : Label → Bool
  | .sync _ _ _ _ | .trigger _ _ | .prune _ _ => s.txs.all fun _ _ => false
  | _ => true

/-- What a pruning has picked is there, and not needed. -/
def Saw (s : State) (tx : Tx) : Prop :=
  ∀ todo deleted unlinking, tx = .prune todo deleted unlinking →
    ∀ next ∈ todo, (s.snapshots.get? next.id).isSome = true ∧ needed s next.id = false

/-- At most one transaction is open. -/
abbrev Alone (s : State) : Prop := Serial (fun _ => false) (Saw s) s.txs

/-- A sync has picked nothing to delete. -/
theorem saw_sync {s : State} {source : GitSourceId} {began : Time} {commit : String}
    {phase : SyncPhase} : Saw s (.sync source began commit phase) :=
  fun _ _ _ h => absurd h (by simp)

/-- Nor has a trigger. -/
theorem saw_trigger {s : State} {id : GitSnapshotId} {pinned : Option String} :
    Saw s (.trigger id pinned) :=
  fun _ _ _ h => absurd h (by simp)

/-- The jobs and the sources change, and need no other snapshot. -/
theorem Alone.jobs {s s' : State} (h : Alone s) (hsnapshots : s'.snapshots = s.snapshots)
    (htxs : s'.txs = s.txs) (hneeded : ∀ id, needed s' id = true → needed s id = true) :
    Alone s' := by
  unfold Alone
  rw [htxs]
  refine h.mono fun tx hsaw todo deleted unlinking heq next hnext => ?_
  obtain ⟨hthere, hunneeded⟩ := hsaw todo deleted unlinking heq next hnext
  refine ⟨by rw [hsnapshots]; exact hthere, ?_⟩
  cases hn : needed s' next.id with
  | false => rfl
  | true =>
    rw [hneeded next.id hn] at hunneeded
    exact absurd hunneeded (by simp)

/-- The SELECT picks rows that are there, not current and pinned by no job. -/
theorem saw_stale (s : State) (began : Time) : Saw s (.prune (stale s began) [] none) := by
  intro todo deleted unlinking heq next hnext
  obtain ⟨rfl, -, -⟩ := Tx.prune.inj heq
  obtain ⟨⟨id, row⟩, hmem, rfl⟩ := List.mem_map.mp hnext
  obtain ⟨hentry, hstale⟩ := List.mem_filter.mp hmem
  simp only [Bool.and_eq_true, Bool.not_eq_true'] at hstale
  refine ⟨by rw [Table.get?_eq_some_iff.mpr hentry]; rfl, ?_⟩
  rw [needed, hstale.2, hstale.1.2]
  rfl

/-- The open sync gets on. -/
theorem Alone.syncs {s s' : State} {k : Nat} {source : GitSourceId} {began : Time}
    {commit : String} {phase phase' : SyncPhase} (h : Alone s)
    (hk : s.txs.get? k = some (.sync source began commit phase))
    (htxs : s'.txs = s.txs.put k (.sync source began commit phase')) : Alone s' := by
  unfold Alone
  rw [htxs]
  exact h.move hk rfl fun _ => saw_sync

/-- The open transaction commits or rolls back. -/
theorem Alone.ends {s s' : State} {k : Nat} {tx : Tx} (h : Alone s) (hk : s.txs.get? k = some tx)
    (htxs : s'.txs = s.txs.remove k) : Alone s' := by
  unfold Alone
  rw [htxs]
  exact h.leave hk rfl

/-- A pruning gets on with what is left to delete. -/
theorem Alone.prunes {s s' : State} {k : Nat} {todo todo' : List Stale}
    {deleted deleted' : List GitSnapshotId} {unlinking unlinking' : Option Stale} (h : Alone s)
    (hk : s.txs.get? k = some (.prune todo deleted unlinking)) (hsub : todo' ⊆ todo)
    (hsnapshots : s'.snapshots = s.snapshots) (hneeded : ∀ id, needed s' id = needed s id)
    (htxs : s'.txs = s.txs.put k (.prune todo' deleted' unlinking')) : Alone s' := by
  unfold Alone
  rw [htxs]
  refine h.move hk rfl fun _ left deleted unlinking heq next hnext => ?_
  obtain ⟨rfl, -, -⟩ := Tx.prune.inj heq
  rw [hsnapshots, hneeded]
  exact h.knows k _ hk rfl _ _ _ rfl next (hsub hnext)

section Alone

variable {s s' : State}

theorem alone_tick {seconds : Nat} (h : Alone s) (hs : step s (.tick seconds) = some s') :
    Alone s' := by
  obtain rfl := Option.some.inj hs
  exact h.jobs rfl rfl fun _ hid => hid

theorem alone_createSource {id : GitSourceId} (h : Alone s)
    (hs : step s (.createSource id) = some s') : Alone s' := by
  simp only [step] at hs
  split at hs
  · obtain rfl := Option.some.inj hs
    exact h.jobs rfl rfl fun _ hid => createSource_needed hid
  · exact absurd hs (by simp)

/-- A sync begins with no other transaction open. -/
theorem alone_sync {k : Nat} {source : GitSourceId} {commit : String} {began : Time}
    (hok : oneAtATime s (.sync k source commit began) = true)
    (hs : step s (.sync k source commit began) = some s') : Alone s' := by
  simp only [step] at hs
  split at hs
  · obtain rfl := Option.some.inj hs
    exact Serial.begin hok fun _ => saw_sync
  · exact absurd hs (by simp)

theorem alone_look {k : Nat} (h : Alone s) (hs : step s (.look k) = some s') : Alone s' := by
  simp only [step] at hs
  split at hs
  · next hk =>
    obtain rfl := Option.some.inj hs
    exact h.syncs hk rfl
  · exact absurd hs (by simp)

theorem alone_checkTar {k : Nat} (h : Alone s) (hs : step s (.checkTar k) = some s') :
    Alone s' := by
  simp only [step] at hs
  split at hs
  · next hk =>
    obtain rfl := Option.some.inj hs
    exact h.syncs hk rfl
  · exact absurd hs (by simp)

theorem alone_buildSnapshot {k : Nat} {changed : Bool} (h : Alone s)
    (hs : step s (.buildSnapshot k changed) = some s') : Alone s' := by
  simp only [step] at hs
  split at hs
  · next hk =>
    obtain rfl := Option.some.inj hs
    exact h.syncs hk rfl
  · exact absurd hs (by simp)

theorem alone_flush {k : Nat} (h : Alone s) (hs : step s (.flush k) = some s') : Alone s' := by
  simp only [step] at hs
  split at hs
  · next hk =>
    obtain ⟨row, -, hs⟩ := Option.bind_eq_some_iff.mp hs
    obtain ⟨phase, -, hs⟩ := Option.bind_eq_some_iff.mp hs
    obtain rfl := Option.some.inj hs
    exact h.syncs hk rfl
  · exact absurd hs (by simp)

/-- The sync retires the snapshot it replaces, while no pruning has picked any. -/
theorem alone_supersede {k : Nat} (h : Alone s) (hs : step s (.supersede k) = some s') :
    Alone s' := by
  simp only [step] at hs
  split at hs
  · next hk =>
    obtain ⟨row, -, hs⟩ := Option.bind_eq_some_iff.mp hs
    obtain ⟨previous, -, hs⟩ := Option.bind_eq_some_iff.mp hs
    obtain rfl := Option.some.inj hs
    exact h.syncs hk rfl
  · exact absurd hs (by simp)

theorem alone_commitSync {k : Nat} (h : Alone s) (hs : step s (.commitSync k) = some s') :
    Alone s' := by
  simp only [step] at hs
  split at hs
  · next hk =>
    obtain ⟨row, -, hs⟩ := Option.bind_eq_some_iff.mp hs
    split at hs
    · obtain rfl := Option.some.inj hs
      exact h.ends hk rfl
    · exact absurd hs (by simp)
  · next hk =>
    split at hs
    · obtain rfl := Option.some.inj hs
      exact h.ends hk rfl
    · exact absurd hs (by simp)
  · exact absurd hs (by simp)

theorem alone_trigger {k : Nat} {source : GitSourceId}
    (hok : oneAtATime s (.trigger k source) = true) (hs : step s (.trigger k source) = some s') :
    Alone s' := by
  obtain ⟨row, -, hs⟩ := Option.bind_eq_some_iff.mp hs
  obtain ⟨id, -, hs⟩ := Option.bind_eq_some_iff.mp hs
  split at hs
  · obtain rfl := Option.some.inj hs
    exact Serial.begin hok fun _ => saw_trigger
  · exact absurd hs (by simp)

theorem alone_pin {k : Nat} (h : Alone s) (hs : step s (.pin k) = some s') : Alone s' := by
  simp only [step] at hs
  split at hs
  · next hk =>
    obtain ⟨row, -, hs⟩ := Option.bind_eq_some_iff.mp hs
    split at hs
    · obtain rfl := Option.some.inj hs
      exact h.move hk rfl fun _ => saw_trigger
    · exact absurd hs (by simp)
  · exact absurd hs (by simp)

/-- A trigger's run needs a snapshot that no open pruning has picked, as there is none. -/
theorem alone_queueRun {k : Nat} {id : RunId} {run : Run} (h : Alone s)
    (hs : step s (.queueRun k id run) = some s') : Alone s' := by
  simp only [step] at hs
  split at hs
  · next hk =>
    split at hs
    · obtain rfl := Option.some.inj hs
      exact h.ends hk rfl
    · exact absurd hs (by simp)
  · exact absurd hs (by simp)

theorem alone_queueLint {k : Nat} {id : LintId} {lint : LintJob} (h : Alone s)
    (hs : step s (.queueLint k id lint) = some s') : Alone s' := by
  simp only [step] at hs
  split at hs
  · next hk =>
    split at hs
    · obtain rfl := Option.some.inj hs
      exact h.ends hk rfl
    · exact absurd hs (by simp)
  · exact absurd hs (by simp)

/-- A run's status changes: it needs the snapshot it needed, or none. -/
theorem alone_setRun {id : RunId} {status : RunStatus} (h : Alone s)
    (hs : step s (.setRun id status) = some s') : Alone s' := by
  obtain ⟨run, hid, hs⟩ := Option.bind_eq_some_iff.mp hs
  split at hs
  · next hactive =>
    obtain rfl := Option.some.inj hs
    exact h.jobs rfl rfl fun _ hneeded => setRun_needed hid hactive hneeded
  · exact absurd hs (by simp)

theorem alone_setLint {id : LintId} {status : RunStatus} (h : Alone s)
    (hs : step s (.setLint id status) = some s') : Alone s' := by
  obtain ⟨lint, hid, hs⟩ := Option.bind_eq_some_iff.mp hs
  split at hs
  · next hactive =>
    obtain rfl := Option.some.inj hs
    exact h.jobs rfl rfl fun _ hneeded => setLint_needed hid hactive hneeded
  · exact absurd hs (by simp)

/-- A pruning begins with no other transaction open, and picks what nothing needs. -/
theorem alone_prune {k : Nat} {began : Time}
    (hok : oneAtATime s (.prune k began) = true) (hs : step s (.prune k began) = some s') :
    Alone s' := by
  simp only [step] at hs
  split at hs
  · obtain rfl := Option.some.inj hs
    exact Serial.begin hok fun _ => saw_stale s began
  · exact absurd hs (by simp)

/-- The rows left to delete are still there after one of them is deleted. -/
theorem alone_delete {k : Nat} (h : Alone s) (hs : step s (.delete k) = some s') : Alone s' := by
  simp only [step] at hs
  split at hs
  · next next todo deleted hk =>
    split at hs
    · obtain rfl := Option.some.inj hs
      exact h.prunes hk (List.subset_cons_self _ _) rfl (fun _ => rfl) rfl
    · split at hs
      · obtain rfl := Option.some.inj hs
        exact h.prunes hk (List.subset_cons_self _ _) rfl (fun _ => rfl) rfl
      · exact absurd hs (by simp)
  · exact absurd hs (by simp)

theorem alone_unlink {k : Nat} (h : Alone s) (hs : step s (.unlink k) = some s') : Alone s' := by
  simp only [step] at hs
  split at hs
  · next todo deleted last hk =>
    obtain rfl := Option.some.inj hs
    exact h.prunes hk (List.Subset.refl _) rfl (fun _ => rfl) rfl
  · exact absurd hs (by simp)

theorem alone_commitPrune {k : Nat} (h : Alone s) (hs : step s (.commitPrune k) = some s') :
    Alone s' := by
  simp only [step] at hs
  split at hs
  · next deleted hk =>
    obtain rfl := Option.some.inj hs
    exact h.ends hk rfl
  · exact absurd hs (by simp)

theorem alone_rollback {k : Nat} (h : Alone s) (hs : step s (.rollback k) = some s') :
    Alone s' := by
  obtain ⟨tx, hk, hs⟩ := Option.bind_eq_some_iff.mp hs
  obtain rfl := Option.some.inj hs
  exact h.ends hk rfl

end Alone

/-- One lemma for each label; only the three that begin a transaction ask anything of it. -/
theorem alone_step {s s' : State} {a : Label} (h : Alone s) (hok : oneAtATime s a = true)
    (hs : step s a = some s') : Alone s' := by
  cases a with
  | tick seconds => exact alone_tick h hs
  | createSource id => exact alone_createSource h hs
  | sync k source commit began => exact alone_sync hok hs
  | look k => exact alone_look h hs
  | checkTar k => exact alone_checkTar h hs
  | buildSnapshot k changed => exact alone_buildSnapshot h hs
  | flush k => exact alone_flush h hs
  | supersede k => exact alone_supersede h hs
  | commitSync k => exact alone_commitSync h hs
  | trigger k source => exact alone_trigger hok hs
  | pin k => exact alone_pin h hs
  | queueRun k id run => exact alone_queueRun h hs
  | queueLint k id lint => exact alone_queueLint h hs
  | setRun id status => exact alone_setRun h hs
  | setLint id status => exact alone_setLint h hs
  | prune k began => exact alone_prune hok hs
  | delete k => exact alone_delete h hs
  | unlink k => exact alone_unlink h hs
  | commitPrune k => exact alone_commitPrune h hs
  | rollback k => exact alone_rollback h hs

/-- The DELETE of the one open pruning is of a row that nothing needs. -/
theorem spares_of_alone {s : State} {a : Label} (h : Alone s) : spares s a = true := by
  cases a with
  | delete k =>
    simp only [spares]
    split
    · next next todo deleted hk =>
      obtain ⟨hthere, hunneeded⟩ := h.knows k _ hk rfl _ _ _ rfl next List.mem_cons_self
      rw [hthere, hunneeded]
      rfl
    · rfl
  | _ => rfl

/-- **A pruning that overlaps nothing deletes what nobody needs.** -/
theorem spares_of_oneAtATime {s : State}
    (hr : system.ReachableBy (fun s a => oneAtATime s a = true) s) :
    system.ReachableBy (fun s a => spares s a = true) s := by
  have halone : system.Inductive (fun s a => oneAtATime s a = true) Alone :=
    { init := by
        rintro s rfl
        exact Serial.empty
      step := fun _ _ _ h hok hs => alone_step h hok hs }
  exact hr.within halone fun _ _ h _ => spares_of_alone h

end GitSync

end AnsiDeck
