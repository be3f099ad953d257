import AnsiDeck.Lease.System
import AnsiDeck.RunQueue.Moves

/-!
# The worker's fence clock against the lease

While a worker has a run, its fence clock is not far behind the lease: a heartbeat's answer sets it
to when the heartbeat was sent, before the server renewed the lease. The heartbeat loop looks at it
at the end of each beat, so a run that can't be renewed is told to stop 50 seconds after that at
most, and as long as a beat's post takes, and the lease has ten left.

The claim's answer sets the clock to when it arrives, and that may be much later than the claim set
the lease. So those ten seconds (`Margin`) have to cover a beat's post, the delay of that answer and
the time the process takes to stop: `prompt` shares them out.
-/

namespace AnsiDeck

namespace Lease

open Lib (Table)
open InternalApi (owns)
open RunQueue (Keeps Served)

/-- How long a claim's answer and a heartbeat's post may take, between the fence and the lease. -/
structure Margin where
  answer : Nat
  post : Nat
  fits : answer + post + heartbeatSeconds + fenceSeconds ≤ runLeaseSeconds

variable {ε : Type} {hashToken : Token → Digest} {fmt : EventFormat ε} {m : Margin}

/-- A claim's answer and a heartbeat's post take no longer than the margin has it, and a process
that was told to stop is gone before the run's fence clock is as old as a lease, less the claim's
delay. -/
def prompt (m : Margin) (s : State) : Label → Bool
  | .answer token => (s.tasks.get? token).all fun task => s.now ≤ task.claimedAt + m.answer
  | .tick seconds =>
    (s.workers.all fun _ heart => match heart with
      | .posting began _ _ => s.now + seconds ≤ began + m.post
      | .waiting _ => true) &&
    s.tasks.all fun _ task => match task.phase with
      | .stopping _ => s.now + seconds + m.answer ≤ task.renewed + runLeaseSeconds
      | _ => true
  | _ => true

/-- The run is running under this claim. -/
def Owns (hashToken : Token → Digest) (s : State) (token : Token) (id : RunId) : Prop :=
  ∃ run, s.runs.get? id = some run ∧ owns hashToken run token = true

/-- While it is, its lease lasts until then at least. -/
def Leased (hashToken : Token → Digest) (s : State) (token : Token) (id : RunId) (until_ : Time) :
    Prop :=
  ∀ run, s.runs.get? id = some run → owns hashToken run token = true →
    ∃ lease, run.leaseExpiresAt = some lease ∧ until_ ≤ lease

/-- A lease that lasts until then lasts until any time before. -/
theorem Leased.le {s : State} {token : Token} {id : RunId} {t t' : Time}
    (h : Leased hashToken s token id t) (hle : t' ≤ t) : Leased hashToken s token id t' := by
  intro run hrun howns
  obtain ⟨lease, hlease, ht⟩ := h run hrun howns
  exact ⟨lease, hlease, Nat.le_trans hle ht⟩

/-! ## The invariant -/

/-- The fence clock of a task that isn't stopped has been looked at in time. -/
def Checked (m : Margin) (now renewed : Time) (token : Token) : Heart → Prop
  | .waiting since => since ≤ renewed + fenceSeconds ∧ now ≤ since + heartbeatSeconds
  | .posting began tasks _ => now ≤ began + m.post ∧
    (token ∈ tasks ∧ began ≤ renewed + fenceSeconds + heartbeatSeconds ∨
      token ∉ tasks ∧ began ≤ renewed)

/-- A task the worker knows of: the lease is short of the fence clock by the claim's delay at most.
-/
structure Held (m : Margin) (hashToken : Token → Digest) (s : State) (token : Token) (run : RunId)
    (clock : Time) : Prop where
  past : clock ≤ s.now
  leased : Leased hashToken s token run (clock + runLeaseSeconds - m.answer)

/-- What is known of a task in each phase. From the claim on until its answer the worker has no
clock for it; then the clock is looked at in time, and in `stopping` what counts is that the
process is gone soon enough. -/
def PhaseOk (m : Margin) (hashToken : Token → Digest) (s : State) (token : Token) (task : Task) :
    Prop :=
  match task.phase with
  | .answering => task.claimedAt ≤ s.now ∧
      Leased hashToken s token task.run (task.claimedAt + runLeaseSeconds)
  | .stopping _ => Held m hashToken s token task.run task.renewed ∧
      s.now + m.answer ≤ task.renewed + runLeaseSeconds
  | .ended => True
  | _ => Held m hashToken s token task.run task.renewed ∧
      ∀ heart, s.workers.get? task.worker = some heart → Checked m s.now task.renewed token heart

/-- A task has a worker, and while that works on its run the run is the claim's. -/
structure TaskOk (m : Margin) (hashToken : Token → Digest) (s : State)
    (token : Token) (task : Task) :
    Prop where
  worker : ∃ heart, s.workers.get? task.worker = some heart
  phase : PhaseOk m hashToken s token task
  owned : task.working = true → Owns hashToken s token task.run

/-- A wait between two beats is no longer than `HEARTBEAT_S`, and a post than the margin has it. -/
def HeartOk (m : Margin) (now : Time) : Heart → Prop
  | .waiting since => since ≤ now ∧ now ≤ since + heartbeatSeconds
  | .posting began _ _ => began ≤ now ∧ now ≤ began + m.post

/-- The invariant: every task's clock against its lease, the answers on their way, and what makes
a claim's token and an inventory's running run unique. -/
structure Inv (m : Margin) (hashToken : Token → Digest) (s : State) : Prop where
  tasks : ∀ token task, s.tasks.get? token = some task → TaskOk m hashToken s token task
  hearts : ∀ worker heart, s.workers.get? worker = some heart → HeartOk m s.now heart
  /-- Nor will the lease be short when a heartbeat's answer arrives that is on its way. -/
  answers : ∀ worker began tasks answers,
    s.workers.get? worker = some (.posting began tasks answers) →
    ∀ token beat task, (token, beat) ∈ answers → beat ≠ .gone → s.tasks.get? token = some task →
      Leased hashToken s token task.run (began + runLeaseSeconds)
  fresh : ∀ a b ta tb, s.tasks.get? a = some ta → s.tasks.get? b = some tb →
    hashToken a = hashToken b → a = b
  /-- One run of an inventory runs. -/
  one : ∀ a b ra rb, s.runs.get? a = some ra → s.runs.get? b = some rb → ra.status = .running →
    rb.status = .running → RunQueue.sameInventory ra rb = true → a = b

theorem inv_init : Inv m hashToken {} := by
  constructor
  · intro token task h
    exact absurd h (by simp)
  · intro worker heart h
    exact absurd h (by simp)
  · intro worker began tasks answers h
    exact absurd h (by simp)
  · intro a b ta tb h
    exact absurd h (by simp)
  · intro a b ra rb h
    exact absurd h (by simp)

/-! ## What keeps a task in order -/

/-- The runs change, and what the claim owns it still does, for as long. -/
theorem PhaseOk.runs {s s' : State} {token : Token} {task : Task}
    (h : PhaseOk m hashToken s token task) (hnow : s'.now = s.now)
    (hworkers : s'.workers = s.workers)
    (hleased : ∀ t, t ≤ s.now + runLeaseSeconds → Leased hashToken s token task.run t →
      Leased hashToken s' token task.run t) : PhaseOk m hashToken s' token task := by
  have hheld : Held m hashToken s token task.run task.renewed →
      Held m hashToken s' token task.run task.renewed := by
    intro hh
    have hr := hh.past
    have hlease : Leased hashToken s' token task.run
        (task.renewed + runLeaseSeconds - m.answer) := by
      refine hleased _ ?_ hh.leased
      lia
    exact ⟨by rw [hnow]; exact hr, hlease⟩
  unfold PhaseOk at h ⊢
  rw [hnow, hworkers]
  cases hp : task.phase with
  | answering =>
    rw [hp] at h
    obtain ⟨hclaimed, hlease⟩ := h
    refine ⟨hclaimed, hleased _ ?_ hlease⟩
    lia
  | ended => trivial
  | _ =>
    rw [hp] at h
    exact ⟨hheld h.1, h.2⟩

/-- One run changes: whoever owns it now has a lease as long as before, and the tasks that work on
it still own it. -/
theorem Inv.putRun {s : State} (h : Inv m hashToken s) {id : RunId} {run' : Run}
    (hleased : ∀ token, owns hashToken run' token = true → ∀ t, t ≤ s.now + runLeaseSeconds →
      Leased hashToken s token id t → ∃ lease, run'.leaseExpiresAt = some lease ∧ t ≤ lease)
    (howns : ∀ token task, s.tasks.get? token = some task → task.run = id → task.working = true →
      Owns hashToken s token id → owns hashToken run' token = true)
    (hone : run'.status = .running → ∀ k r, k ≠ id → s.runs.get? k = some r → r.status = .running →
      RunQueue.sameInventory r run' = false) : Inv m hashToken (putRun s id run') := by
  have hkept : ∀ token other t, t ≤ s.now + runLeaseSeconds → Leased hashToken s token other t →
      Leased hashToken (Lease.putRun s id run') token other t := by
    intro token other t ht hl run hrun howned
    simp only [Lease.putRun, Table.get?_put] at hrun
    split at hrun
    · next hid =>
      obtain rfl := Option.some.inj hrun
      exact hleased token howned t ht (by rw [← hid]; exact hl)
    · exact hl run hrun howned
  refine ⟨?_, h.hearts, ?_, h.fresh, ?_⟩
  · intro token task htask
    have hok := h.tasks token task htask
    refine ⟨hok.worker, hok.phase.runs rfl rfl (hkept token task.run), ?_⟩
    intro hworking
    by_cases hid : task.run = id
    · have hold := hok.owned hworking
      rw [hid] at hold ⊢
      exact ⟨run', Table.get?_put_self _ _ _, howns token task htask hid hworking hold⟩
    · obtain ⟨run, hrun, howned⟩ := hok.owned hworking
      exact ⟨run, by rw [← hrun]; exact Table.get?_put_of_ne _ _ hid, howned⟩
  · intro worker began tasks answers hw token beat task hmem hbeat htask
    have hbegan : began ≤ s.now := (h.hearts _ _ hw).1
    refine hkept token task.run _ ?_ (h.answers _ _ _ _ hw token beat task hmem hbeat htask)
    lia
  · intro a b ra rb ha hb hra hrb hsame
    simp only [Lease.putRun, Table.get?_put] at ha hb
    split at ha <;> split at hb
    · next hai hbi => rw [hai, hbi]
    · next hai hbi =>
      obtain rfl := Option.some.inj ha
      rw [RunQueue.sameInventory_comm] at hsame
      exact absurd (hone hra b rb hbi hb hrb) (by simp [hsame])
    · next hai hbi =>
      obtain rfl := Option.some.inj hb
      exact absurd (hone hrb a ra hai ha hra) (by simp [hsame])
    · exact h.one a b ra rb ha hb hra hrb hsame

/-- A task is new, or moves on. -/
theorem Inv.putTask {s : State} (h : Inv m hashToken s) {token : Token} {task' : Task}
    (hok : TaskOk m hashToken s token task')
    (hanswers : ∀ t, t ≤ s.now + runLeaseSeconds →
      (∀ task, s.tasks.get? token = some task → Leased hashToken s token task.run t) →
      Leased hashToken s token task'.run t)
    (hfresh : ∀ other task, s.tasks.get? other = some task → hashToken other = hashToken token →
      other = token) : Inv m hashToken (putTask s token task') := by
  refine ⟨?_, h.hearts, ?_, ?_, h.one⟩
  · intro k t hk
    simp only [Lease.putTask, Table.get?_put] at hk
    split at hk
    · next hkt =>
      obtain rfl := Option.some.inj hk
      rw [hkt]
      exact ⟨hok.worker, hok.phase.runs rfl rfl fun _ _ hl => hl, hok.owned⟩
    · have hold := h.tasks k t hk
      exact ⟨hold.worker, hold.phase.runs rfl rfl fun _ _ hl => hl, hold.owned⟩
  · intro worker began tasks answers hw k beat task hmem hbeat hk
    have hbegan : began ≤ s.now := (h.hearts _ _ hw).1
    simp only [Lease.putTask, Table.get?_put] at hk
    split at hk
    · next hkt =>
      obtain rfl := Option.some.inj hk
      subst hkt
      refine hanswers _ ?_ (fun old hold => h.answers _ _ _ _ hw k beat old hmem hbeat hold)
      lia
    · exact h.answers _ _ _ _ hw k beat task hmem hbeat hk
  · intro a b ta tb ha hb heq
    simp only [Lease.putTask, Table.get?_put] at ha hb
    split at ha <;> split at hb
    · next hat hbt => rw [hat, hbt]
    · next hat _ =>
      rw [hat] at heq ⊢
      exact (hfresh b tb hb heq.symm).symm
    · next hbt =>
      rw [hbt] at heq ⊢
      exact hfresh a ta ha heq
    · exact h.fresh a b ta tb ha hb heq

/-- A task moves on with its run. -/
theorem Inv.moveTask {s : State} (h : Inv m hashToken s) {token : Token} {task task' : Task}
    (htask : s.tasks.get? token = some task) (hrun : task'.run = task.run)
    (hok : TaskOk m hashToken s token task') : Inv m hashToken (Lease.putTask s token task') := by
  refine h.putTask hok ?_ ?_
  · intro t _ hold
    rw [hrun]
    exact hold task htask
  · intro other t hother heq
    exact h.fresh other token t task hother htask heq

/-! ## Stopping a task -/

/-- The fence comes soon enough: a beat and its post after it is due at most. -/
theorem Checked.within {now renewed : Time} {token : Token} {heart : Heart}
    (h : Checked m now renewed token heart) : now + m.answer ≤ renewed + runLeaseSeconds := by
  unfold Checked at h
  have hfits := m.fits
  cases heart with
  | waiting since =>
    obtain ⟨hsince, hnow⟩ := h
    lia
  | posting began tasks answers =>
    obtain ⟨hnow, ⟨-, hbegan⟩ | ⟨-, hbegan⟩⟩ := h
    · lia
    · lia

/-- A task may be stopped at any moment; if its process runs, it has to be gone within the margin
from here on. -/
theorem TaskOk.stop {s : State} {token : Token} {task : Task}
    (h : TaskOk m hashToken s token task) :
    TaskOk m hashToken s token (stopTask s.now task) := by
  obtain ⟨worker, run, claimedAt, renewed, phase⟩ := task
  have hphase := h.phase
  cases phase with
  | answering => exact h
  | claimed => exact ⟨h.worker, trivial, fun hw => absurd hw (by simp [stopTask, Task.working])⟩
  | fetched => exact ⟨h.worker, trivial, fun hw => absurd hw (by simp [stopTask, Task.working])⟩
  | executing =>
    obtain ⟨heart, hheart⟩ := h.worker
    obtain ⟨hheld, hchecked⟩ := hphase
    refine ⟨⟨heart, hheart⟩, ⟨hheld, ?_⟩, fun _ => h.owned rfl⟩
    exact (hchecked heart hheart).within
  | stopping since => exact h
  | ended => exact h

/-! ## The heartbeat loop -/

/-- Whether the fence has anything to stop. -/
def Task.fenced (task : Task) : Bool :=
  match task.phase with
  | .claimed | .fetched | .executing => true
  | _ => false

/-- A task that was stopped isn't looked at again. -/
theorem stopTask_fenced (now : Time) (task : Task) : (stopTask now task).fenced = false := by
  obtain ⟨worker, run, claimedAt, renewed, phase⟩ := task
  cases phase <;> rfl

@[simp] theorem stopTask_run (now : Time) (task : Task) : (stopTask now task).run = task.run := by
  obtain ⟨worker, run, claimedAt, renewed, phase⟩ := task
  cases phase <;> rfl

@[simp] theorem stopTask_worker (now : Time) (task : Task) :
    (stopTask now task).worker = task.worker := by
  obtain ⟨worker, run, claimedAt, renewed, phase⟩ := task
  cases phase <;> rfl

/-- A heartbeat's answer sets the clock to when the beat began. -/
theorem TaskOk.renew {s : State} {token : Token} {task : Task} (h : TaskOk m hashToken s token task)
    {began : Time} {tasks : List Token} {answers : List (Token × InternalApi.Beat)}
    (hw : s.workers.get? task.worker = some (.posting began tasks answers))
    (hheart : HeartOk m s.now (.posting began tasks answers))
    (hleased : Leased hashToken s token task.run (began + runLeaseSeconds)) :
    TaskOk m hashToken s token { task with renewed := began } := by
  have hbegan : began ≤ s.now := hheart.1
  have hnow : s.now ≤ began + m.post := hheart.2
  have hheld : Held m hashToken s token task.run began :=
    ⟨hbegan, hleased.le (Nat.sub_le _ _)⟩
  have hchecked : ∀ heart, s.workers.get? task.worker = some heart →
      Checked m s.now began token heart := by
    intro heart hget
    rw [hw] at hget
    obtain rfl := Option.some.inj hget
    by_cases hmem : token ∈ tasks
    · refine ⟨hnow, Or.inl ⟨hmem, ?_⟩⟩
      lia
    · exact ⟨hnow, Or.inr ⟨hmem, Nat.le_refl _⟩⟩
  refine ⟨h.worker, ?_, h.owned⟩
  have hphase := h.phase
  unfold PhaseOk at hphase ⊢
  cases hp : task.phase with
  | answering => rw [hp] at hphase; exact hphase
  | ended => trivial
  | stopping since =>
    rw [hp] at hphase
    refine ⟨hheld, ?_⟩
    show s.now + m.answer ≤ began + runLeaseSeconds
    have hfits := m.fits
    lia
  | _ => exact ⟨hheld, hchecked⟩

/-- At the end of a beat a task goes on whose clock is recent. -/
theorem TaskOk.beatEnds {s : State} {token : Token} {task : Task}
    (h : TaskOk m hashToken s token task) {worker : String} {began : Time} {tasks : List Token}
    {answers : List (Token × InternalApi.Beat)}
    (hrecent : task.worker = worker → task.fenced = true → s.now ≤ task.renewed + fenceSeconds) :
    TaskOk m hashToken (endBeat s worker began tasks answers) token task := by
  have hheart : ∀ heart, (endBeat s worker began tasks answers).workers.get? task.worker =
      some heart →
      (task.worker = worker ∧ heart = .waiting s.now) ∨
        s.workers.get? task.worker = some heart := by
    intro heart hget
    simp only [Lease.endBeat, Table.get?_put] at hget
    split at hget
    · next hworker => exact Or.inl ⟨hworker, (Option.some.inj hget).symm⟩
    · exact Or.inr hget
  refine ⟨?_, ?_, h.owned⟩
  · obtain ⟨heart, hget⟩ := h.worker
    simp only [Lease.endBeat, Table.get?_put]
    split
    · exact ⟨_, rfl⟩
    · exact ⟨heart, hget⟩
  · have hphase := h.phase
    unfold PhaseOk at hphase ⊢
    have hchecked : task.fenced = true →
        (∀ heart, s.workers.get? task.worker = some heart →
          Checked m s.now task.renewed token heart) →
        ∀ heart, (Lease.endBeat s worker began tasks answers).workers.get? task.worker =
          some heart →
          Checked m s.now task.renewed token heart := by
      intro hfenced hold heart hget
      rcases hheart heart hget with ⟨hworker, rfl⟩ | hsame
      · exact ⟨hrecent hworker hfenced, Nat.le_add_right _ _⟩
      · exact hold heart hsame
    cases hp : task.phase with
    | answering => rw [hp] at hphase; exact hphase
    | ended => trivial
    | stopping since => rw [hp] at hphase; exact ⟨⟨hphase.1.past, hphase.1.leased⟩, hphase.2⟩
    | _ =>
      rw [hp] at hphase
      exact ⟨⟨hphase.1.past, hphase.1.leased⟩, hchecked (by simp [Task.fenced, hp]) hphase.2⟩

/-- What the fence leaves running was renewed less than `FENCE_S` ago. -/
theorem fence_recent {now : Time} {task : Task} (h : (fence now task).fenced = true) :
    now ≤ (fence now task).renewed + fenceSeconds := by
  unfold fence at h ⊢
  split
  · next hlate =>
    rw [if_pos hlate, stopTask_fenced] at h
    exact absurd h (by simp)
  · next hnot => exact Nat.le_of_not_lt hnot

/-- The fence stops a task, or leaves it as it is. -/
theorem TaskOk.fence {s : State} {token : Token} {task : Task}
    (h : TaskOk m hashToken s token task) :
    TaskOk m hashToken s token (fence s.now task) := by
  unfold Lease.fence
  split
  · exact h.stop
  · exact h

/-- An answer to a heartbeat: the clock starts anew, and the task is stopped if the run is
cancelled or no longer the claim's. -/
theorem TaskOk.hear {s : State} {token : Token} {task : Task} (h : TaskOk m hashToken s token task)
    {began : Time} {tasks : List Token} {answers heard : List (Token × InternalApi.Beat)}
    (hw : s.workers.get? task.worker = some (.posting began tasks answers))
    (hheart : HeartOk m s.now (.posting began tasks answers))
    (hleased : ∀ beat, (token, beat) ∈ heard → beat ≠ .gone →
      Leased hashToken s token task.run (began + runLeaseSeconds)) :
    TaskOk m hashToken s token (hear s.now began heard token task) := by
  unfold Lease.hear
  cases hf : heard.find? fun a => a.1 = token with
  | none => exact h
  | some found =>
    obtain ⟨k, beat⟩ := found
    have hk : k = token := by simpa using List.find?_some hf
    have hmem : (token, beat) ∈ heard := by
      rw [← hk]
      exact List.mem_of_find?_eq_some hf
    cases beat with
    | ok => exact h.renew hw hheart (hleased .ok hmem (by simp))
    | cancel => exact (h.renew hw hheart (hleased .cancel hmem (by simp))).stop
    | gone => exact h.stop

theorem hear_run (now began : Time) (heard : List (Token × InternalApi.Beat)) (token : Token)
    (task : Task) : (hear now began heard token task).run = task.run := by
  unfold hear
  split <;> simp

theorem fence_run (now : Time) (task : Task) : (fence now task).run = task.run := by
  unfold fence
  split <;> simp

/-- The beat ends: it has looked at every task it began with, and the others are new. -/
theorem Inv.endBeat {s : State} (h : Inv m hashToken s) {worker : String} {began : Time}
    {tasks : List Token} {answers heard : List (Token × InternalApi.Beat)}
    (hw : s.workers.get? worker = some (.posting began tasks answers)) (hheard : heard ⊆ answers) :
    Inv m hashToken (endBeat s worker began tasks heard) := by
  have hheart := h.hearts _ _ hw
  have hnow : s.now ≤ began + m.post := hheart.2
  have hget : ∀ k t, (Lease.endBeat s worker began tasks heard).tasks.get? k = some t →
      ∃ old, s.tasks.get? k = some old ∧ t.run = old.run := by
    intro k t hk
    simp only [Lease.endBeat, Table.get?_mapRows] at hk
    obtain ⟨old, hold, rfl⟩ := Option.map_eq_some_iff.mp hk
    refine ⟨old, hold, ?_⟩
    split
    · rw [fence_run, hear_run]
    · rfl
  refine ⟨?_, ?_, ?_, ?_, h.one⟩
  · intro k t hk
    simp only [Lease.endBeat, Table.get?_mapRows] at hk
    obtain ⟨old, hold, rfl⟩ := Option.map_eq_some_iff.mp hk
    have hok := h.tasks k old hold
    split
    · next hlooked =>
      have hwold : s.workers.get? old.worker = some (.posting began tasks answers) := by
        rw [hlooked.1, hw]
      have hheardOk := hok.hear hwold hheart fun beat hmem hbeat =>
        h.answers _ _ _ _ hw k beat old (hheard hmem) hbeat hold
      exact (hheardOk.fence).beatEnds fun _ hfenced => fence_recent hfenced
    · next hnew =>
      refine hok.beatEnds ?_
      intro hworker hfenced
      have hnotmem : k ∉ tasks := fun hmem => hnew ⟨hworker, hmem⟩
      -- it was answered while the beat was on its way
      have hchecked : Checked m s.now old.renewed k (.posting began tasks answers) := by
        have hphase := hok.phase
        unfold PhaseOk at hphase
        unfold Task.fenced at hfenced
        cases hp : old.phase with
        | answering => exact absurd hfenced (by simp [hp])
        | ended => exact absurd hfenced (by simp [hp])
        | stopping since => exact absurd hfenced (by simp [hp])
        | _ => rw [hp] at hphase; exact hphase.2 _ (by rw [hworker, hw])
      obtain ⟨-, ⟨hmem, -⟩ | ⟨-, hbegan⟩⟩ := hchecked
      · exact absurd hmem hnotmem
      · have hfits := m.fits
        simp only [runLeaseSeconds, heartbeatSeconds, fenceSeconds] at hfits ⊢
        lia
  · intro w heart hget
    simp only [Lease.endBeat, Table.get?_put] at hget
    split at hget
    · obtain rfl := Option.some.inj hget
      exact ⟨Nat.le_refl _, Nat.le_add_right _ _⟩
    · exact h.hearts w heart hget
  · intro w began' tasks' answers' hget' k beat t hmem hbeat hk
    simp only [Lease.endBeat, Table.get?_put] at hget'
    split at hget'
    · exact absurd hget' (by simp)
    · obtain ⟨old, hold, hrun⟩ := hget k t hk
      rw [hrun]
      exact h.answers _ _ _ _ hget' k beat old hmem hbeat hold
  · intro a b ta tb ha hb heq
    obtain ⟨oa, hoa, -⟩ := hget a ta ha
    obtain ⟨ob, hob, -⟩ := hget b tb hb
    exact h.fresh a b oa ob hoa hob heq

/-- The next beat begins with every task the fence looks at. -/
theorem Inv.beat {s : State} (h : Inv m hashToken s) {worker : String} {since : Time}
    {tasks : List Token} (hw : s.workers.get? worker = some (.waiting since))
    (htasks : ∀ token task, s.tasks.get? token = some task → task.worker = worker →
      task.listed = true → token ∈ tasks) :
    Inv m hashToken { s with workers := s.workers.put worker (.posting s.now tasks []) } := by
  have hheart : ∀ w heart, (s.workers.put worker (.posting s.now tasks [])).get? w = some heart →
      (w = worker ∧ heart = .posting s.now tasks []) ∨ s.workers.get? w = some heart := by
    intro w heart hget
    simp only [Table.get?_put] at hget
    split at hget
    · next hwk => exact Or.inl ⟨hwk, (Option.some.inj hget).symm⟩
    · exact Or.inr hget
  refine ⟨?_, ?_, ?_, h.fresh, h.one⟩
  · intro k t hk
    have hok := h.tasks k t hk
    refine ⟨?_, ?_, hok.owned⟩
    · obtain ⟨heart, hget⟩ := hok.worker
      simp only [Table.get?_put]
      split
      · exact ⟨_, rfl⟩
      · exact ⟨heart, hget⟩
    · have hphase := hok.phase
      unfold PhaseOk at hphase ⊢
      have hchecked : t.listed = true →
          (∀ heart, s.workers.get? t.worker = some heart → Checked m s.now t.renewed k heart) →
          ∀ heart, (s.workers.put worker (.posting s.now tasks [])).get? t.worker = some heart →
            Checked m s.now t.renewed k heart := by
        intro hlisted hold heart hget
        rcases hheart _ heart hget with ⟨hworker, rfl⟩ | hsame
        · obtain ⟨hsince, hnow⟩ := hold (.waiting since) (by rw [hworker, hw])
          refine ⟨Nat.le_add_right _ _, Or.inl ⟨htasks k t hk hworker hlisted, ?_⟩⟩
          lia
        · exact hold heart hsame
      cases hp : t.phase with
      | answering => rw [hp] at hphase; exact hphase
      | ended => trivial
      | stopping since => rw [hp] at hphase; exact ⟨⟨hphase.1.past, hphase.1.leased⟩, hphase.2⟩
      | _ =>
        rw [hp] at hphase
        exact ⟨⟨hphase.1.past, hphase.1.leased⟩, hchecked (by simp [Task.listed, hp]) hphase.2⟩
  · intro w heart hget
    rcases hheart w heart hget with ⟨-, rfl⟩ | hsame
    · exact ⟨Nat.le_refl _, Nat.le_add_right _ _⟩
    · exact h.hearts w heart hsame
  · intro w began tasks' answers hget k beat t hmem hbeat hk
    rcases hheart w _ hget with ⟨-, heq⟩ | hsame
    · obtain ⟨-, -, rfl⟩ := Heart.posting.inj heq
      exact absurd hmem (by simp)
    · exact h.answers w began tasks' answers hsame k beat t hmem hbeat hk

/-- Time passes, and every clock is still looked at in time. -/
theorem Inv.tick {s : State} (h : Inv m hashToken s) {seconds : Nat}
    (hpatient : patient s seconds = true) (hprompt : prompt m s (.tick seconds) = true) :
    Inv m hashToken { s with now := s.now + seconds } := by
  simp only [patient, Bool.and_eq_true, Table.all_iff] at hpatient
  simp only [prompt, Bool.and_eq_true, Table.all_iff] at hprompt
  obtain ⟨hworkers, -⟩ := hpatient
  obtain ⟨hposts, hgone⟩ := hprompt
  refine ⟨?_, ?_, h.answers, h.fresh, h.one⟩
  · intro k t hk
    have hok := h.tasks k t hk
    refine ⟨hok.worker, ?_, hok.owned⟩
    have hphase := hok.phase
    have hgone := hgone k t hk
    unfold PhaseOk at hphase ⊢
    have hchecked : ∀ heart, s.workers.get? t.worker = some heart →
        Checked m s.now t.renewed k heart →
        Checked m (s.now + seconds) t.renewed k heart := by
      intro heart hget hold
      cases heart with
      | waiting since => exact ⟨hold.1, by simpa using hworkers _ _ hget⟩
      | posting began tasks answers => exact ⟨by simpa using hposts _ _ hget, hold.2⟩
    cases hp : t.phase with
    | answering => rw [hp] at hphase; exact ⟨Nat.le_add_right_of_le hphase.1, hphase.2⟩
    | ended => trivial
    | stopping since =>
      rw [hp] at hphase hgone
      exact ⟨⟨Nat.le_add_right_of_le hphase.1.past, hphase.1.leased⟩, by simpa using hgone⟩
    | _ =>
      rw [hp] at hphase
      exact ⟨⟨Nat.le_add_right_of_le hphase.1.past, hphase.1.leased⟩,
        fun heart hget => hchecked heart hget (hphase.2 heart hget)⟩
  · intro w heart hget
    have hok := h.hearts w heart hget
    cases heart with
    | waiting since => exact ⟨Nat.le_add_right_of_le hok.1, by simpa using hworkers _ _ hget⟩
    | posting began tasks answers =>
      exact ⟨Nat.le_add_right_of_le hok.1, by simpa using hposts _ _ hget⟩

end Lease

end AnsiDeck
