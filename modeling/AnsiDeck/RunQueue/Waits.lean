import Mathlib.Algebra.GroupWithZero.Nat
import Mathlib.Data.List.Sort
import AnsiDeck.RunQueue.Order

/-!
# Why a queued run waits

`queue.wait_reason`, what the page of a queued run says it waits for: the claim rules once more, one
query after the other. `waitReason_spec` says that it agrees with the claim statement, whatever is
in the database: the reasons up to the secret store's are those for which no worker may claim the
run, and after them a worker that can do everything may.

`if run.credential_id` and `if credential.store_path` also leave out what is 0 or empty, and so does
the `or` between the two queries for the run ahead. The database gives no such id, and `check_path`
accepts no such path (`Proper`).
-/

namespace AnsiDeck

namespace RunQueue

open Lib (Table)

/-! ## Workers -/

/-- A row of `workers`: what it last reported. -/
structure WorkerRow where
  slots : Nat
  lastSeenAt : Time
  hostKeys : Option Bool
  egressAllowlist : Option Bool
  egressFiltered : Option Bool
  sshCertificates : Option Bool
  /-- The API takes no other number. -/
  slots_pos : 0 < slots

abbrev Workers := Table String WorkerRow

def workerOnlineSeconds : Nat := 30

def WorkerRow.online (now : Time) (w : WorkerRow) : Bool :=
  now < w.lastSeenAt + workerOnlineSeconds

/-- What its claims say it can do. An allowlist only counts with the filter. -/
def WorkerRow.caps (w : WorkerRow) : Caps where
  hostKeys := w.hostKeys = some true
  egressAllowlist := w.egressAllowlist = some true && w.egressFiltered = some true
  sshCertificates := w.sshCertificates = some true

/-- `online_slots`, of the workers that can do it. -/
def onlineSlots (now : Time) (workers : Workers) (can : Caps → Bool) : Nat :=
  ((workers.rows fun _ w => w.online now && can w.caps).map fun e => e.2.slots).sum

/-! ## The reason -/

inductive WaitReason
  | galaxyInstall
  | refresh
  /-- The run right ahead of it on the same inventory. -/
  | behind (ahead : RunId)
  /-- The store has been down for so long, and the wait goes on for so long. -/
  | store (down left : Nat)
  | noWorker
  | hostKeys
  | egress
  | sshCertificates
  | busy
  | aWorker
  deriving DecidableEq

/-- `_minutes`; `round` goes to the even one. -/
def minutes (seconds : Nat) : String :=
  let whole := seconds / 60
  let rest := seconds % 60
  s!"{max 1 (if rest < 30 ∨ rest = 30 ∧ whole % 2 = 0 then whole else whole + 1)} min"

/-- `label` is the store's name, and `why` what is said of the outage's kind. -/
def WaitReason.text (label why : String) : WaitReason → String
  | galaxyInstall => "Waiting for a galaxy install to finish"
  | refresh => "Waiting for its inventory's sources to be refreshed"
  | behind ahead => s!"Waiting behind run #{ahead} (same inventory)"
  | store down left =>
    s!"Waiting for {label}: {why} (for {minutes down}). AnsiDeck tries again every " ++
      s!"{StoreOutage.holdSeconds} s; the run fails if {label} is still unavailable in " ++
      s!"{minutes left}"
  | noWorker => "No worker is online: start one to run queued runs"
  | hostKeys => "Waiting for a worker that checks SSH host keys (upgrade your workers)"
  | egress => "Waiting for a worker that can restrict network egress (its egress filter must be " ++
      "on; upgrade your workers)"
  | sshCertificates =>
    "Waiting for a worker that supports SSH certificates (upgrade your workers)"
  | busy => "Waiting for a free worker (all are busy)"
  | aWorker => "Waiting for a worker…"

section

variable {ε : Type}

/-- `ORDER BY queued_at DESC, id DESC`: `e` is not queued before `f`. -/
def notBefore (e f : RunId × Run) : Prop := before e.1 e.2 f.1 f.2 = false

instance : DecidableRel notBefore := fun e f =>
  inferInstanceAs (Decidable (before e.1 e.2 f.1 f.2 = false))

/-- A run that is queued on the same inventory before this one. -/
def earlier (id : RunId) (run : Run) (k : RunId) (row : Run) : Bool :=
  sameInventory row run && row.status = .queued && before k row id run

def runningThere (run row : Run) : Bool := sameInventory row run && row.status = .running

/-- `a or b`, of ids: 0 is false. -/
def orId (a b : Option RunId) : Option RunId :=
  match a with
  | some (k + 1) => some (k + 1)
  | some 0 | none => b

/-- The last earlier queued one, or else the one running there. -/
def ahead (s : State ε) (id : RunId) (run : Run) : Option RunId :=
  if run.inventoryId.isNone then none
  else orId
    (((s.runs.rows (earlier id run)).insertionSort notBefore).head?.map Prod.fst)
    ((s.runs.rows fun _ row => runningThere run row).head?.map Prod.fst)

/-- `bool(path)`. -/
def hasPath (path : Option String) : Bool := path.any fun p => p ≠ ""

/-- `store_outage.run_needs_store`. -/
def runNeedsStore (c : Catalog) (run : Run) : Bool :=
  let credential := (run.credentialId.filter (· ≠ 0)).bind c.credentials.get?
  credential.any (fun cr => hasPath cr.storePath || cr.kind = "ssh_cert") ||
    (run.vaultPasswordId.bind c.vaultPasswords.get?).any (fun v => hasPath v.storePath) ||
    0 < (c.credentials.rows fun k cr =>
      run.envCredentialIds.contains k && cr.storePath.isSome).length

/-- `_store_wait`: for how long the store has been down, and for how long the run waits. -/
def storeWait (cfg : Settings) (s : State ε) (now : Time) (run : Run) : Option (Nat × Nat) :=
  if cfg.storeWaitMinutes = 0 then none
  else match s.catalog.outage.filter fun o => now < o.holdUntil with
  | none => none
  | some o =>
    if !runNeedsStore s.catalog run then none
    else
      let deadline := StoreOutage.deadline cfg.storeWaitMinutes run.queuedAt o.since
      if deadline ≤ now then none else some (now - o.since, deadline - now)

/-- What the run needs of a worker, by the catalog. -/
def checksHostKeys (s : State ε) (run : Run) : Bool :=
  (run.inventoryId.bind s.catalog.inventories.get?).any fun i => i.hostKeyChecking ≠ "off"

def restrictsEgress (s : State ε) (run : Run) : Bool :=
  (run.inventoryId.bind s.catalog.inventories.get?).any fun i => i.egressRestricted

def hasCertificate (s : State ε) (run : Run) : Bool :=
  (run.credentialId.bind s.catalog.credentials.get?).any fun c => c.kind = "ssh_cert"

/-- What is left when the run waits for nothing but a worker. -/
def waitForWorker (s : State ε) (workers : Workers) (now : Time) (run : Run) : WaitReason :=
  let slots := onlineSlots now workers fun _ => true
  if slots = 0 then .noWorker
  else if checksHostKeys s run && onlineSlots now workers Caps.hostKeys = 0 then .hostKeys
  else if restrictsEgress s run && onlineSlots now workers Caps.egressAllowlist = 0 then .egress
  else if hasCertificate s run && onlineSlots now workers Caps.sshCertificates = 0 then
    .sshCertificates
  else if slots ≤ s.runs.count fun _ row => row.status = .running then .busy
  else .aWorker

def waitReason (cfg : Settings) (s : State ε) (installPending : Bool) (workers : Workers)
    (now : Time) (id : RunId) (run : Run) : WaitReason :=
  if installPending then .galaxyInstall
  else if (run.waitingRefreshId.bind s.refreshes.get?).any RunStatus.active then .refresh
  else match ahead s id run with
  | some k => .behind k
  | none => match storeWait cfg s now run with
    | some (down, left) => .store down left
    | none => waitForWorker s workers now run

/-! ## What the reasons mean -/

/-- What the database promises of the rows: ids begin at 1, and a path is not empty. -/
structure Proper (s : State ε) : Prop where
  runs : s.runs.get? 0 = none
  credentials : s.catalog.credentials.get? 0 = none
  credentialPaths : ∀ k c, s.catalog.credentials.get? k = some c → c.storePath ≠ some ""
  vaultPaths : ∀ k v, s.catalog.vaultPasswords.get? k = some v → v.storePath ≠ some ""

/-- The run right ahead on the same inventory: of those queued before it, the last; where there is
none, one that is running there. -/
def DirectlyAhead (s : State ε) (id : RunId) (run : Run) (k : RunId) : Prop :=
  ∃ row, s.runs.get? k = some row ∧
    (earlier id run k row = true ∧
        (∀ k' row', s.runs.get? k' = some row' → earlier id run k' row' = true →
          before k row k' row' = false) ∨
      runningThere run row = true ∧
        ∀ k' row', s.runs.get? k' = some row' → earlier id run k' row' = false)

/-- The worker can do what the run's inventory and credential ask for. -/
structure Covers (s : State ε) (run : Run) (caps : Caps) : Prop where
  hostKeys : checksHostKeys s run = true → caps.hostKeys = true
  egressAllowlist : restrictsEgress s run = true → caps.egressAllowlist = true
  sshCertificates : hasCertificate s run = true → caps.sshCertificates = true

/-- A worker that is online and can do this. -/
def Online (workers : Workers) (now : Time) (can : Caps → Bool) : Prop :=
  ∃ name w, workers.get? name = some w ∧ w.online now = true ∧ can w.caps = true

/-- `_claim_run`, as far as this run goes: the galaxy gate, then the claim statement's `WHERE`. -/
def mayClaim (cfg : Settings) (s : State ε) (installPending : Bool) (now : Time) (caps : Caps)
    (id : RunId) (run : Run) : Bool :=
  !installPending && eligible cfg s now caps id run

/-- No worker may claim the run now, whatever it can do. -/
def Held (cfg : Settings) (s : State ε) (installPending : Bool) (now : Time) (id : RunId)
    (run : Run) : Prop :=
  ∀ caps, mayClaim cfg s installPending now caps id run = false

/-- A worker may claim the run now just when it can do what the run asks for. -/
def Free (cfg : Settings) (s : State ε) (installPending : Bool) (now : Time) (id : RunId)
    (run : Run) : Prop :=
  ∀ caps, mayClaim cfg s installPending now caps id run = true ↔ Covers s run caps

/-- What is so where the page gives this reason. -/
def WaitReason.Holds (cfg : Settings) (s : State ε) (installPending : Bool) (workers : Workers)
    (now : Time) (id : RunId) (run : Run) : WaitReason → Prop
  | galaxyInstall => Held cfg s installPending now id run ∧ installPending = true
  | refresh => Held cfg s installPending now id run ∧
      ∃ k status, run.waitingRefreshId = some k ∧ s.refreshes.get? k = some status ∧
        status.active = true
  | behind k => Held cfg s installPending now id run ∧ DirectlyAhead s id run k
  | store down left => Held cfg s installPending now id run ∧
      ∃ o, s.catalog.outage = some o ∧ now < o.holdUntil ∧ down = now - o.since ∧
        -- it ends in `left` seconds, however long the outage is held
        0 < left ∧ ∀ t held, t < held →
          (StoreOutage.holds cfg.storeWaitMinutes t run.queuedAt (some ⟨o.since, held⟩) = true ↔
            t < now + left)
  | noWorker => Free cfg s installPending now id run ∧ ¬ Online workers now fun _ => true
  | hostKeys => Free cfg s installPending now id run ∧ checksHostKeys s run = true ∧
      ¬ Online workers now Caps.hostKeys
  | egress => Free cfg s installPending now id run ∧ restrictsEgress s run = true ∧
      ¬ Online workers now Caps.egressAllowlist
  | sshCertificates => Free cfg s installPending now id run ∧ hasCertificate s run = true ∧
      ¬ Online workers now Caps.sshCertificates
  | busy => Free cfg s installPending now id run ∧
      onlineSlots now workers (fun _ => true) ≤ s.runs.count fun _ row => row.status = .running
  | aWorker => Free cfg s installPending now id run ∧
      (s.runs.count fun _ row => row.status = .running) < onlineSlots now workers (fun _ => true) ∧
      (checksHostKeys s run = true → Online workers now Caps.hostKeys) ∧
      (restrictsEgress s run = true → Online workers now Caps.egressAllowlist) ∧
      (hasCertificate s run = true → Online workers now Caps.sshCertificates)

end

section

variable {ε : Type} {cfg : Settings} {s : State ε} {installPending : Bool} {workers : Workers}
  {now : Time} {id : RunId} {run : Run}

/-! ## Each query -/

theorem onlineSlots_eq_zero {can : Caps → Bool} :
    onlineSlots now workers can = 0 ↔ ¬ Online workers now can := by
  simp only [onlineSlots, List.sum_eq_zero_iff_forall_eq_nat, List.mem_map, Prod.exists,
    Table.mem_rows, Online, Bool.and_eq_true]
  constructor
  · rintro h ⟨name, w, hw, honline, hcan⟩
    have hzero := h w.slots ⟨name, w, ⟨hw, honline, hcan⟩, rfl⟩
    exact absurd hzero (Nat.pos_iff_ne_zero.1 w.slots_pos)
  · rintro h n ⟨name, w, ⟨hw, honline, hcan⟩, rfl⟩
    exact absurd ⟨name, w, hw, honline, hcan⟩ h

theorem hasPath_eq {path : Option String} (h : path ≠ some "") : hasPath path = path.isSome := by
  cases path with
  | none => rfl
  | some p =>
    have hp : p ≠ "" := fun hp => h (hp ▸ rfl)
    simp [hasPath, hp]

theorem Proper.credential? (h : Proper s) (id : Option Nat) :
    (id.filter (· ≠ 0)).bind s.catalog.credentials.get? = id.bind s.catalog.credentials.get? := by
  cases id with
  | none => rfl
  | some k =>
    rw [Option.filter_some]
    split
    · rfl
    · next hzero =>
      obtain rfl : k = 0 := by simpa using hzero
      exact h.credentials.symm

/-- The rule of the page is that of the claim statement. -/
theorem Proper.runNeedsStore (h : Proper s) (run : Run) :
    runNeedsStore s.catalog run = needsStore s.catalog run := by
  have hcredential : ∀ c, run.credentialId.bind s.catalog.credentials.get? = some c →
      hasPath c.storePath = c.storePath.isSome := by
    intro c hc
    obtain ⟨k, -, hk⟩ := Option.bind_eq_some_iff.1 hc
    exact hasPath_eq (h.credentialPaths k c hk)
  have hvault : ∀ v, run.vaultPasswordId.bind s.catalog.vaultPasswords.get? = some v →
      hasPath v.storePath = v.storePath.isSome := by
    intro v hv
    obtain ⟨k, -, hk⟩ := Option.bind_eq_some_iff.1 hv
    exact hasPath_eq (h.vaultPaths k v hk)
  have henv : (decide (0 < (s.catalog.credentials.rows fun k c =>
        run.envCredentialIds.contains k && c.storePath.isSome).length)) =
      run.envCredentialIds.any fun k =>
        (s.catalog.credentials.get? k).any fun c => c.storePath.isSome := by
    rw [Bool.eq_iff_iff, decide_eq_true_iff, List.length_pos_iff_exists_mem]
    simp only [Prod.exists, Table.mem_rows, Bool.and_eq_true, List.contains_iff_mem,
      List.any_eq_true, Option.any_eq_true]
    constructor
    · rintro ⟨k, c, hk, hmem, hstored⟩
      exact ⟨k, hmem, c, hk, hstored⟩
    · rintro ⟨k, hmem, c, hk, hstored⟩
      exact ⟨k, c, hk, hmem, hstored⟩
  simp only [RunQueue.runNeedsStore, needsStore, h.credential?, henv]
  congr 2
  · cases hc : run.credentialId.bind s.catalog.credentials.get? with
    | none => rfl
    | some c => simp [hcredential c hc]
  · cases hv : run.vaultPasswordId.bind s.catalog.vaultPasswords.get? with
    | none => rfl
    | some v => simp [hvault v hv]

theorem holds_eq {minutes : Nat} {queuedAt : Time} {outage : Option SecretStoreOutage} :
    StoreOutage.holds minutes now queuedAt outage = true ↔ minutes ≠ 0 ∧
      ∃ o, outage = some o ∧ now < o.holdUntil ∧
        now < StoreOutage.deadline minutes queuedAt o.since := by
  simp only [StoreOutage.holds, Bool.and_eq_true, decide_eq_true_eq, Option.any_eq_true]

theorem Proper.storeWait_none (h : Proper s) (hnone : storeWait cfg s now run = none) :
    (StoreOutage.holds cfg.storeWaitMinutes now run.queuedAt s.catalog.outage &&
      needsStore s.catalog run) = false := by
  rw [Bool.and_eq_false_iff, ← Bool.not_eq_true, holds_eq, ← h.runNeedsStore]
  by_contra hboth
  simp only [not_or, not_not, Bool.not_eq_false] at hboth
  obtain ⟨⟨hminutes, o, ho, hheld, hdeadline⟩, hneeds⟩ := hboth
  have hcurrent : (some o).filter (fun o => now < o.holdUntil) = some o :=
    Option.filter_some_pos (by simpa using hheld)
  rw [storeWait, if_neg hminutes, ho, hcurrent] at hnone
  simp [hneeds, Nat.not_le.2 hdeadline] at hnone

theorem storeWait_some {down left : Nat} (hsome : storeWait cfg s now run = some (down, left)) :
    runNeedsStore s.catalog run = true ∧ cfg.storeWaitMinutes ≠ 0 ∧
      ∃ o, s.catalog.outage = some o ∧ now < o.holdUntil ∧ down = now - o.since ∧
        StoreOutage.deadline cfg.storeWaitMinutes run.queuedAt o.since = now + left ∧ 0 < left := by
  simp only [storeWait] at hsome
  split at hsome
  · cases hsome
  next hminutes =>
  split at hsome
  · cases hsome
  next o ho =>
  obtain ⟨hout, hheld⟩ := Option.filter_eq_some_iff.1 ho
  split at hsome
  · cases hsome
  next hneeds =>
  split at hsome
  · cases hsome
  next hdeadline =>
  cases hsome
  have hlater := Nat.not_le.1 hdeadline
  exact ⟨by simpa using hneeds, hminutes, o, hout, by simpa using hheld, rfl,
    (Nat.add_sub_cancel' hlater.le).symm, Nat.sub_pos_of_lt hlater⟩

/-! ## The run ahead -/

theorem not_before_total (e f : RunId × Run) : notBefore e f ∨ notBefore f e := by
  simp only [notBefore, before, Bool.or_eq_false_iff, Bool.and_eq_false_iff,
    decide_eq_false_iff_not, Time, RunId]
  omega

theorem not_before_trans {d e f : RunId × Run} (hde : notBefore d e) (hef : notBefore e f) :
    notBefore d f := by
  simp only [notBefore, before, Bool.or_eq_false_iff, Bool.and_eq_false_iff,
    decide_eq_false_iff_not, Time, RunId] at *
  omega

instance : Std.Total notBefore := ⟨not_before_total⟩

instance : IsTrans (RunId × Run) notBefore := ⟨fun _ _ _ => not_before_trans⟩

/-- The first query finds the last of the earlier ones. -/
theorem lastEarlier_some {k : RunId}
    (hsome : ((s.runs.rows (earlier id run)).insertionSort notBefore).head?.map Prod.fst = some k) :
    ∃ row, s.runs.get? k = some row ∧ earlier id run k row = true ∧
      ∀ k' row', s.runs.get? k' = some row' → earlier id run k' row' = true →
        before k row k' row' = false := by
  obtain ⟨⟨k, row⟩, hhead, rfl⟩ := Option.map_eq_some_iff.1 hsome
  obtain ⟨rest, hsorted⟩ := List.head?_eq_some_iff.1 hhead
  have hmem : ∀ e, e ∈ (k, row) :: rest ↔ e ∈ s.runs.rows (earlier id run) := fun e => by
    rw [← hsorted, List.mem_insertionSort]
  have hpairs := List.pairwise_insertionSort notBefore (s.runs.rows (earlier id run))
  rw [hsorted] at hpairs
  obtain ⟨hrow, hearlier⟩ := Table.mem_rows.1 ((hmem _).1 (List.mem_cons_self ..))
  refine ⟨row, hrow, hearlier, fun k' row' hrow' hearlier' => ?_⟩
  rcases List.mem_cons.1 ((hmem (k', row')).2 (Table.mem_rows.2 ⟨hrow', hearlier'⟩)) with hfirst |
    hrest
  · cases hfirst
    exact or_self_iff.1 (not_before_total (k, row) (k, row))
  · exact List.rel_of_pairwise_cons hpairs hrest

theorem lastEarlier_none
    (hnone : ((s.runs.rows (earlier id run)).insertionSort notBefore).head?.map Prod.fst = none) :
    s.runs.any (earlier id run) = false := by
  rw [Option.map_eq_none_iff, List.head?_eq_none_iff] at hnone
  rw [Table.any_eq_false_iff]
  intro k row hrow
  by_contra hearlier
  have hmem := Table.mem_rows.2 ⟨hrow, Bool.not_eq_false _ ▸ hearlier⟩
  rw [← List.mem_insertionSort notBefore, hnone] at hmem
  cases hmem

theorem sameInventory_none {row : Run} (hnone : run.inventoryId.isNone = true) :
    sameInventory row run = false := by
  rw [Option.isNone_iff_eq_none] at hnone
  cases hrow : row.inventoryId <;> simp [sameInventory, hrow, hnone]

theorem Proper.ahead_some (h : Proper s) {k : RunId} (hsome : ahead s id run = some k) :
    DirectlyAhead s id run k := by
  rw [ahead] at hsome
  split at hsome
  · cases hsome
  cases hlast : ((s.runs.rows (earlier id run)).insertionSort notBefore).head?.map Prod.fst with
  | none =>
    rw [hlast] at hsome
    obtain ⟨⟨k, row⟩, hhead, rfl⟩ := Option.map_eq_some_iff.1 hsome
    obtain ⟨hrow, hrunning⟩ := Table.mem_rows.1 (List.mem_of_head? hhead)
    exact ⟨row, hrow, .inr ⟨hrunning, Table.any_eq_false_iff.1 (lastEarlier_none hlast)⟩⟩
  | some k' =>
    obtain ⟨row, hrow, hearlier⟩ := lastEarlier_some hlast
    cases k' with
    | zero => exact absurd hrow (by simp [h.runs])
    | succ k' =>
      rw [hlast] at hsome
      obtain rfl : k' + 1 = k := Option.some.inj hsome
      exact ⟨row, hrow, .inl hearlier⟩

theorem Proper.ahead_none (h : Proper s) (hnone : ahead s id run = none) :
    s.runs.any (earlier id run) = false ∧
      s.runs.any (fun _ row => runningThere run row) = false := by
  rw [ahead] at hnone
  split at hnone
  · next hinventory =>
    simp [Table.any_eq_false_iff, earlier, runningThere, sameInventory_none hinventory]
  cases hlast : ((s.runs.rows (earlier id run)).insertionSort notBefore).head?.map Prod.fst with
  | none =>
    rw [hlast] at hnone
    refine ⟨lastEarlier_none hlast, Table.any_eq_false_iff.2 fun k row hrow => ?_⟩
    by_contra hrunning
    have hmem := (Table.mem_rows (p := fun _ row => runningThere run row)).2
      ⟨hrow, Bool.eq_true_of_not_eq_false hrunning⟩
    rw [List.head?_eq_none_iff.1 (Option.map_eq_none_iff.1 hnone)] at hmem
    cases hmem
  | some k =>
    obtain ⟨row, hrow, -⟩ := lastEarlier_some hlast
    cases k with
    | zero => exact absurd hrow (by simp [h.runs])
    | succ k =>
      rw [hlast] at hnone
      cases hnone

/-! ## The claim rules, and the reason -/

/-- What the claim rules ask whoever claims. -/
structure Unheld (cfg : Settings) (s : State ε) (installPending : Bool) (now : Time) (id : RunId)
    (run : Run) : Prop where
  noInstall : installPending = false
  refreshed : (run.waitingRefreshId.bind s.refreshes.get?).any RunStatus.active = false
  earlier : s.runs.any (earlier id run) = false
  running : s.runs.any (fun _ row => runningThere run row) = false
  store : (StoreOutage.holds cfg.storeWaitMinutes now run.queuedAt s.catalog.outage &&
    needsStore s.catalog run) = false

theorem mayClaim_iff (hqueued : run.status = .queued) {caps : Caps} :
    mayClaim cfg s installPending now caps id run = true ↔
      Unheld cfg s installPending now id run ∧ Covers s run caps := by
  have himp : ∀ can asked : Bool, (can = true ∨ asked = false) ↔ (asked = true → can = true) := by
    decide
  simp only [mayClaim, eligible, hqueued, decide_true, Bool.true_and, Bool.and_eq_true,
    Bool.not_eq_true', Bool.or_eq_true, himp]
  constructor
  · rintro ⟨hinstall, ⟨⟨⟨⟨⟨hrunning, hrefreshed⟩, hkeys⟩, hegress⟩, hcertificate⟩, hstore⟩,
      hearlier⟩
    exact ⟨⟨hinstall, hrefreshed, hearlier, hrunning, hstore⟩, ⟨hkeys, hegress, hcertificate⟩⟩
  · rintro ⟨⟨hinstall, hrefreshed, hearlier, hrunning, hstore⟩, ⟨hkeys, hegress, hcertificate⟩⟩
    exact ⟨hinstall, ⟨⟨⟨⟨⟨hrunning, hrefreshed⟩, hkeys⟩, hegress⟩, hcertificate⟩, hstore⟩, hearlier⟩

theorem held_of_not (hqueued : run.status = .queued)
    (h : ¬ Unheld cfg s installPending now id run) : Held cfg s installPending now id run :=
  fun _ => Bool.not_eq_true _ ▸ fun hclaims => h ((mayClaim_iff hqueued).1 hclaims).1

theorem Unheld.free (hqueued : run.status = .queued)
    (h : Unheld cfg s installPending now id run) : Free cfg s installPending now id run :=
  fun _ => (mayClaim_iff hqueued).trans (and_iff_right h)

theorem DirectlyAhead.not_unheld {k : RunId} (h : DirectlyAhead s id run k) :
    ¬ Unheld cfg s installPending now id run := by
  intro hunheld
  obtain ⟨row, hrow, ⟨hearlier, -⟩ | ⟨hrunning, -⟩⟩ := h
  · exact absurd hearlier (by simp [Table.any_eq_false_iff.1 hunheld.earlier k row hrow])
  · exact absurd hrunning (by simp [Table.any_eq_false_iff.1 hunheld.running k row hrow])

/-- The wait's end is fixed: only the outage's hold moves. -/
theorem Proper.store_holds (h : Proper s) (hqueued : run.status = .queued) {down left : Nat}
    (hsome : storeWait cfg s now run = some (down, left)) :
    (WaitReason.store down left).Holds cfg s installPending workers now id run := by
  obtain ⟨hneeds, hminutes, o, ho, hheld, hdown, hdeadline, hleft⟩ := storeWait_some hsome
  refine ⟨held_of_not hqueued fun hunheld => ?_, o, ho, hheld, hdown, hleft, fun t held ht => ?_⟩
  · have hholds : StoreOutage.holds cfg.storeWaitMinutes now run.queuedAt s.catalog.outage = true :=
      holds_eq.2 ⟨hminutes, o, ho, hheld, hdeadline ▸ Nat.lt_add_of_pos_right hleft⟩
    have hstore := hunheld.store
    rw [hholds, ← h.runNeedsStore, hneeds] at hstore
    cases hstore
  · rw [holds_eq]
    constructor
    · rintro ⟨-, o', ho', -, hlater⟩
      cases ho'
      exact hdeadline ▸ hlater
    · exact fun hlater => ⟨hminutes, _, rfl, ht, hdeadline.symm ▸ hlater⟩

theorem online_of_asked {asked : Bool} {can : Caps → Bool}
    (h : ¬ (asked && onlineSlots now workers can = 0) = true) (hasked : asked = true) :
    Online workers now can := by
  by_contra hnone
  exact h (by rw [hasked, decide_eq_true (onlineSlots_eq_zero.2 hnone)]; rfl)

/-- The questions about the workers come last. -/
theorem Free.waits (h : Free cfg s installPending now id run) :
    (waitForWorker s workers now run).Holds cfg s installPending workers now id run := by
  rw [waitForWorker]
  by_cases hnone : onlineSlots now workers (fun _ => true) = 0
  · rw [if_pos hnone]
    exact ⟨h, onlineSlots_eq_zero.1 hnone⟩
  rw [if_neg hnone]
  by_cases hkeys : (checksHostKeys s run && onlineSlots now workers Caps.hostKeys = 0) = true
  · rw [if_pos hkeys]
    obtain ⟨hasked, hzero⟩ := Bool.and_eq_true_iff.1 hkeys
    exact ⟨h, hasked, onlineSlots_eq_zero.1 (of_decide_eq_true hzero)⟩
  rw [if_neg hkeys]
  by_cases hegress : (restrictsEgress s run && onlineSlots now workers Caps.egressAllowlist = 0) =
    true
  · rw [if_pos hegress]
    obtain ⟨hasked, hzero⟩ := Bool.and_eq_true_iff.1 hegress
    exact ⟨h, hasked, onlineSlots_eq_zero.1 (of_decide_eq_true hzero)⟩
  rw [if_neg hegress]
  by_cases hcertificate :
      (hasCertificate s run && onlineSlots now workers Caps.sshCertificates = 0) = true
  · rw [if_pos hcertificate]
    obtain ⟨hasked, hzero⟩ := Bool.and_eq_true_iff.1 hcertificate
    exact ⟨h, hasked, onlineSlots_eq_zero.1 (of_decide_eq_true hzero)⟩
  rw [if_neg hcertificate]
  by_cases hbusy : onlineSlots now workers (fun _ => true) ≤
      s.runs.count fun _ row => row.status = .running
  · rw [if_pos hbusy]
    exact ⟨h, hbusy⟩
  rw [if_neg hbusy]
  exact ⟨h, Nat.not_le.1 hbusy, online_of_asked hkeys, online_of_asked hegress,
    online_of_asked hcertificate⟩

/-- The page and the claim statement agree, whatever is in the database. Where it gives one of the
reasons up to the secret store's, no worker may claim the run; after them the run waits for nothing
but a worker that can do what it asks for. -/
theorem waitReason_spec (cfg : Settings) (installPending : Bool) (workers : Workers) (now : Time)
    (id : RunId) (hproper : Proper s) (hqueued : run.status = .queued) :
    (waitReason cfg s installPending workers now id run).Holds cfg s installPending workers now id
      run := by
  rw [waitReason]
  by_cases hinstall : installPending = true
  · rw [if_pos hinstall]
    exact ⟨held_of_not hqueued fun h => absurd hinstall (by simp [h.noInstall]), hinstall⟩
  rw [if_neg hinstall]
  by_cases hrefresh : (run.waitingRefreshId.bind s.refreshes.get?).any RunStatus.active = true
  · rw [if_pos hrefresh]
    refine ⟨held_of_not hqueued fun h => absurd hrefresh (by simp [h.refreshed]), ?_⟩
    obtain ⟨status, hstatus, hactive⟩ := (Option.any_eq_true ..).1 hrefresh
    obtain ⟨k, hk, hrow⟩ := Option.bind_eq_some_iff.1 hstatus
    exact ⟨k, status, hk, hrow, hactive⟩
  rw [if_neg hrefresh]
  cases hahead : ahead s id run with
  | some k =>
    have hdirectly := hproper.ahead_some hahead
    exact ⟨held_of_not hqueued hdirectly.not_unheld, hdirectly⟩
  | none =>
    obtain ⟨hearlier, hrunning⟩ := hproper.ahead_none hahead
    cases hstore : storeWait cfg s now run with
    | some wait => exact hproper.store_holds hqueued hstore
    | none =>
      have hfree : Free cfg s installPending now id run :=
        Unheld.free hqueued ⟨Bool.not_eq_true _ ▸ hinstall, Bool.not_eq_true _ ▸ hrefresh, hearlier,
          hrunning, hproper.storeWait_none hstore⟩
      exact hfree.waits

end

/-! ## Two workers, each with half of it -/

/-- Run 1's inventory has its host keys checked and its egress restricted. -/
def asksBoth : State Nat where
  runs := Table.put ∅ 1 triggered
  catalog := {
    inventories := Table.put ∅ 7 { hostKeyChecking := "strict", egressRestricted := true } }

def halfWorker (keys : Bool) : WorkerRow where
  slots := 1
  lastSeenAt := 0
  hostKeys := some keys
  egressAllowlist := some !keys
  egressFiltered := some true
  sshCertificates := none
  slots_pos := Nat.one_pos

def halves : Workers := Table.put (Table.put ∅ "a" (halfWorker true)) "b" (halfWorker false)

theorem asksBoth_proper : Proper asksBoth where
  runs := rfl
  credentials := rfl
  credentialPaths k c hk := absurd hk (by simp [asksBoth])
  vaultPaths k v hk := absurd hk (by simp [asksBoth])

theorem waitReason_spec_halves :
    waitReason queueCfg asksBoth false halves 0 1 triggered = .aWorker ∧
      (waitReason queueCfg asksBoth false halves 0 1 triggered).Holds queueCfg asksBoth false halves
        0 1 triggered :=
  ⟨by decide, waitReason_spec queueCfg false halves 0 1 asksBoth_proper rfl⟩

-- each query finds a worker, but neither may claim the run
example : (halves.rows fun _ w => mayClaim queueCfg asksBoth false 0 w.caps 1 triggered) = [] := by
  decide

end RunQueue

end AnsiDeck
