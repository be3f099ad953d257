import AnsiDeck.Notifications.Alerts

/-!
# Alert episodes

An alert's journal alternates: it is raised, then closed, then raised again (`Alternates`).
Committed entries follow the committed row; what a transaction adds to them follows the row as the
transaction has left it (`WorkOk`), and where it has left none it adds none. Only one transaction at
a time changes a row (`Apart`), so a commit puts its own entries behind the ones that it followed.

Workers' alerts are also closed without an event, so their events alone need not alternate
(`silenced_alternate`).
-/

namespace AnsiDeck

namespace Notifications

namespace Alerts

open Lib (Table)

/-! ## What alternates -/

/-- What an entry says of an alert. -/
inductive Mark
  | raised
  | resolved
  | silenced
  deriving DecidableEq

def Entry.mark (key : AlertKey) : Entry → Option Mark
  | .emitted _ event =>
    if event.key = some key then some (if event.isResolved then .resolved else .raised) else none
  | .silenced k _ => if k = key then some .silenced else none

def Entry.number (key : AlertKey) : Entry → Option Nat
  | .emitted id event => if event.key = some key then some id else none
  | .silenced _ _ => none

def marks (key : AlertKey) (journal : List Entry) : List Mark := journal.filterMap (Entry.mark key)

/-- The numbers of the key's events. -/
def ids (key : AlertKey) (journal : List Entry) : List Nat := journal.filterMap (Entry.number key)

/-- Whether the alert is raised after these, `none` where one is raised twice or closed without
being raised. -/
def follow : Bool → List Mark → Option Bool
  | raised, [] => some raised
  | false, .raised :: ms => follow true ms
  | true, .resolved :: ms | true, .silenced :: ms => follow false ms
  | true, .raised :: _ | false, .resolved :: _ | false, .silenced :: _ => none

/-- Raised, closed, raised and so on. -/
def Alternates (ms : List Mark) : Prop := (follow false ms).isSome = true

instance (ms : List Mark) : Decidable (Alternates ms) := inferInstanceAs (Decidable (_ = true))

/-- The events that were emitted for the key. -/
def events (key : AlertKey) (journal : List Entry) : List Mark :=
  (marks key journal).filter (· ≠ .silenced)

theorem follow_append (raised : Bool) (ms ms' : List Mark) :
    follow raised (ms ++ ms') = (follow raised ms).bind fun r => follow r ms' := by
  induction ms generalizing raised with
  | nil => rfl
  | cons m ms ih =>
    cases raised with
    | false =>
      cases m with
      | raised => exact ih true
      | resolved => rfl
      | silenced => rfl
    | true =>
      cases m with
      | raised => rfl
      | resolved => exact ih false
      | silenced => exact ih false

theorem marks_append (key : AlertKey) (journal more : List Entry) :
    marks key (journal ++ more) = marks key journal ++ marks key more :=
  List.filterMap_append

theorem ids_append (key : AlertKey) (journal more : List Entry) :
    ids key (journal ++ more) = ids key journal ++ ids key more :=
  List.filterMap_append

theorem marks_concat_other {key : AlertKey} {entry : Entry} (h : entry.mark key = none)
    (journal : List Entry) : marks key (journal ++ [entry]) = marks key journal := by
  simp [marks, h]

theorem ids_concat_other {key : AlertKey} {entry : Entry} (h : entry.number key = none)
    (journal : List Entry) : ids key (journal ++ [entry]) = ids key journal := by
  simp [ids, h]

theorem mem_ids_singleton {key : AlertKey} {entry : Entry} {i : Nat} :
    i ∈ ids key [entry] ↔ entry.number key = some i := by
  simp [ids]

@[simp] theorem rows_write_self (w : Work) (key : AlertKey) (row : Bool) (entry : Entry) :
    (w.write key row entry).rows key = some row := if_pos rfl

theorem rows_write_of_ne (w : Work) {key k : AlertKey} (row : Bool) (entry : Entry) (h : k ≠ key) :
    (w.write key row entry).rows k = w.rows k := if_neg h

@[simp] theorem journal_write (w : Work) (key : AlertKey) (row : Bool) (entry : Entry) :
    (w.write key row entry).journal = w.journal ++ [entry] := rfl

/-! ## What the checks say -/

/-- Which alerts may be closed without an event. -/
def MaySilence : AlertKey → Silence → Prop
  | .workerOffline _, why => why = .forgotten
  | .workerUnisolated _, _ | .workerUnfiltered _, _ => True
  | _, _ => False

/-- The statement's event is about its own alert. -/
def Stmt.Ok : Stmt → Prop
  | .raise key event => event.key = some key ∧ event.isResolved = false
  | .clear key event => event.key = some key ∧ event.isResolved = true
  | .silence key why => MaySilence key why

theorem ok_workerSeen (workerId : Lib.Str) (slots : Nat) (isolated egressFiltered : Option Bool) :
    ∀ stmt ∈ workerSeen workerId slots isolated egressFiltered, stmt.Ok := by
  refine List.forall_mem_cons.2 ⟨⟨rfl, rfl⟩, List.forall_mem_append.2 ⟨?_, ?_⟩⟩
  · split
    · exact List.forall_mem_singleton.2 ⟨rfl, rfl⟩
    · exact List.forall_mem_singleton.2 trivial
    · exact List.forall_mem_nil _
  · split
    · exact List.forall_mem_singleton.2 ⟨rfl, rfl⟩
    split
    · exact List.forall_mem_singleton.2 trivial
    · exact List.forall_mem_nil _

theorem ok_checkWorkers (silent : List SilentWorker) : ∀ stmt ∈ checkWorkers silent, stmt.Ok := by
  intro stmt hstmt
  obtain ⟨worker, -, rfl⟩ := List.mem_map.1 hstmt
  exact ⟨rfl, rfl⟩

theorem ok_checkQueue (minutes : Nat) (stuck : List StuckRun) :
    ∀ stmt ∈ checkQueue minutes stuck, stmt.Ok := by
  cases stuck with
  | nil => exact List.forall_mem_singleton.2 ⟨rfl, rfl⟩
  | cons oldest others => exact List.forall_mem_singleton.2 ⟨rfl, rfl⟩

theorem ok_secretStoreFailed (kind label : Lib.Str) :
    ∀ stmt ∈ secretStoreFailed kind label, stmt.Ok :=
  List.forall_mem_singleton.2 ⟨rfl, rfl⟩

theorem ok_secretStoreOk (label : Lib.Str) : ∀ stmt ∈ secretStoreOk label, stmt.Ok :=
  List.forall_mem_singleton.2 ⟨rfl, rfl⟩

theorem ok_inventoryRefreshFailed (inventory : RefreshedInventory) (error : Lib.Str) :
    ∀ stmt ∈ inventoryRefreshFailed inventory error, stmt.Ok :=
  List.forall_mem_singleton.2 ⟨rfl, rfl⟩

theorem ok_inventoryRefreshOk (inventory : RefreshedInventory) :
    ∀ stmt ∈ inventoryRefreshOk inventory, stmt.Ok :=
  List.forall_mem_singleton.2 ⟨rfl, rfl⟩

theorem ok_pruned (gone : List Lib.Str) : ∀ stmt ∈ (Check.pruned gone).block.stmts, stmt.Ok := by
  intro stmt hstmt
  obtain ⟨w, -, hstmt⟩ := List.mem_flatMap.1 hstmt
  simp only [List.mem_cons, List.not_mem_nil, or_false] at hstmt
  rcases hstmt with rfl | rfl | rfl
  · rfl
  · trivial
  · trivial

theorem ok_block (check : Check) : ∀ stmt ∈ check.block.stmts, stmt.Ok := by
  cases check with
  | seen workerId slots isolated egressFiltered =>
    exact ok_workerSeen workerId slots isolated egressFiltered
  | pruned gone => exact ok_pruned gone
  | workers silent => exact ok_checkWorkers silent
  | queue minutes stuck => exact ok_checkQueue minutes stuck
  | probe label errorKind =>
    cases errorKind with
    | none => exact ok_secretStoreOk label
    | some kind =>
      show ∀ stmt ∈ (if outageKinds.contains kind then secretStoreFailed kind label else []),
        stmt.Ok
      split
      · exact ok_secretStoreFailed kind label
      · exact fun _ hstmt => absurd hstmt List.not_mem_nil
  | storeAlert kind label => exact ok_secretStoreFailed kind label
  | endRefresh inventory status error failing =>
    cases inventory with
    | none => exact fun _ hstmt => absurd hstmt List.not_mem_nil
    | some inventory =>
      show ∀ stmt ∈ (if status = .success then if failing then [] else inventoryRefreshOk inventory
        else inventoryRefreshFailed inventory (errorOr error status)), stmt.Ok
      split
      · split
        · exact fun _ hstmt => absurd hstmt List.not_mem_nil
        · exact ok_inventoryRefreshOk inventory
      · exact ok_inventoryRefreshFailed inventory _

/-! ## The invariant -/

/-- What a transaction would add follows the rows as it would leave them. -/
structure WorkOk (s : State) (w : Work) : Prop where
  untouched : ∀ key, w.rows key = none → marks key w.journal = [] ∧ ids key w.journal = []
  follows : ∀ key row, w.rows key = some row →
    follow (s.alerts key) (marks key w.journal) = some row
  ascending : ∀ key, (ids key s.journal ++ ids key w.journal).Pairwise (· < ·)
  bound : ∀ key, ∀ i ∈ ids key w.journal, i < s.nextId
  silences : ∀ key why, Entry.silenced key why ∈ w.journal → MaySilence key why

structure TxOk (s : State) (tx : Tx) : Prop where
  work : WorkOk s tx.work
  saved : ∀ w, tx.saved = some w →
    WorkOk s w ∧ ∀ key, w.rows key ≠ none → tx.work.rows key ≠ none
  stmts : ∀ stmt ∈ tx.stmts, stmt.Ok
  blocks : ∀ block ∈ tx.blocks, ∀ stmt ∈ block.stmts, stmt.Ok

/-- What one has changed the other has not. -/
def Apart (a b : Tx) : Prop := ∀ key, a.work.rows key ≠ none → b.work.rows key = none

structure Inv (s : State) : Prop where
  follows : ∀ key, follow false (marks key s.journal) = some (s.alerts key)
  ascending : ∀ key, (ids key s.journal).Pairwise (· < ·)
  bound : ∀ key, ∀ i ∈ ids key s.journal, i < s.nextId
  silences : ∀ key why, Entry.silenced key why ∈ s.journal → MaySilence key why
  txs : ∀ id tx, s.txs.get? id = some tx → TxOk s tx
  apart : s.txs.Pairs Apart

theorem inv_init : Inv init where
  follows _ := rfl
  ascending _ := List.Pairwise.nil
  bound _ i hi := absurd hi List.not_mem_nil
  silences _ _ h := absurd h List.not_mem_nil
  txs id tx htx := by
    rw [init, Table.get?_empty] at htx
    cases htx
  apart := Table.pairs_empty _

/-- The rows as the transaction sees them. -/
theorem WorkOk.there {s : State} {w : Work} (h : WorkOk s w) (key : AlertKey) :
    follow (s.alerts key) (marks key w.journal) = some (s.there w key) := by
  rw [State.there]
  cases hrow : w.rows key with
  | none =>
    rw [(h.untouched key hrow).1]
    rfl
  | some row => exact h.follows key row hrow

/-- Numbers are given out, and nothing is committed. -/
theorem WorkOk.later {s s' : State} {w : Work} (h : WorkOk s w) (halerts : s'.alerts = s.alerts)
    (hjournal : s'.journal = s.journal) (hid : s.nextId ≤ s'.nextId) : WorkOk s' w where
  untouched := h.untouched
  follows := by
    rw [halerts]
    exact h.follows
  ascending := by
    rw [hjournal]
    exact h.ascending
  bound key i hi := Nat.lt_of_lt_of_le (h.bound key i hi) hid
  silences := h.silences

theorem TxOk.later {s s' : State} {tx : Tx} (h : TxOk s tx) (halerts : s'.alerts = s.alerts)
    (hjournal : s'.journal = s.journal) (hid : s.nextId ≤ s'.nextId) : TxOk s' tx where
  work := h.work.later halerts hjournal hid
  saved w hw := ⟨(h.saved w hw).1.later halerts hjournal hid, (h.saved w hw).2⟩
  stmts := h.stmts
  blocks := h.blocks

theorem TxOk.first {s : State} {tx : Tx} (h : TxOk s tx) {stmt : Stmt} {stmts : List Stmt}
    (hstmts : tx.stmts = stmt :: stmts) : stmt.Ok := by
  refine h.stmts stmt ?_
  rw [hstmts]
  exact List.mem_cons_self ..

theorem Inv.nothing {s : State} (h : Inv s) : WorkOk s ⟨fun _ => none, []⟩ where
  untouched _ _ := ⟨rfl, rfl⟩
  follows _ _ hrow := by cases hrow
  ascending key := by
    show (ids key s.journal ++ []).Pairwise (· < ·)
    rw [List.append_nil]
    exact h.ascending key
  bound _ _ hi := absurd hi List.not_mem_nil
  silences _ _ hmem := absurd hmem List.not_mem_nil

/-- A transaction goes on, with numbers given out up to `n`. -/
theorem Inv.put {s : State} (h : Inv s) {id : TxId} {tx : Tx} {n : Nat} (hn : s.nextId ≤ n)
    (hok : TxOk { s with nextId := n } tx)
    (hapart : ∀ i other, s.txs.get? i = some other → i ≠ id → Apart tx other ∧ Apart other tx) :
    Inv { s.putTx id tx with nextId := n } where
  follows := h.follows
  ascending := h.ascending
  bound key i hi := Nat.lt_of_lt_of_le (h.bound key i hi) hn
  silences := h.silences
  txs i other hother := by
    rcases Table.get?_put_cases hother with ⟨rfl, rfl⟩ | ⟨-, hold⟩
    · exact hok.later rfl rfl (Nat.le_refl n)
    · exact (h.txs i other hold).later rfl rfl hn
  apart := h.apart.put hapart

/-- It has changed no more rows than before. -/
theorem Inv.putFewer {s : State} (h : Inv s) {id : TxId} {tx tx' : Tx}
    (htx : s.txs.get? id = some tx)
    (hok : TxOk s tx') (hfewer : ∀ key, tx'.work.rows key ≠ none → tx.work.rows key ≠ none) :
    Inv (s.putTx id tx') := by
  refine h.put (Nat.le_refl _) hok fun i other hother hne =>
    ⟨fun key hkey => ?_, fun key hkey => ?_⟩
  · exact h.apart id i tx other htx hother hne key (hfewer key hkey)
  · have hnone := h.apart i id other tx hother htx (Ne.symm hne) key hkey
    exact not_not.1 fun hsome => hfewer key hsome hnone

/-- The next statement changes no row. -/
theorem Inv.skip {s : State} (h : Inv s) {id : TxId} {tx : Tx} (htx : s.txs.get? id = some tx)
    {stmt : Stmt} {stmts : List Stmt} (hstmts : tx.stmts = stmt :: stmts) :
    Inv (s.putTx id { tx with stmts := stmts }) := by
  have hok := h.txs id tx htx
  refine h.putFewer htx ⟨hok.work, hok.saved, fun stmt' hmem => ?_, hok.blocks⟩ fun _ hkey => hkey
  exact hok.stmts stmt' (hstmts ▸ List.mem_cons_of_mem stmt hmem)

theorem WorkOk.write {s : State} {w : Work} (h : WorkOk s w) {key : AlertKey} {row : Bool}
    {entry : Entry} {n : Nat} (hrow : follow (s.there w key) (marks key [entry]) = some row)
    (hother : ∀ k, k ≠ key → entry.mark k = none ∧ entry.number k = none) (hn : s.nextId ≤ n)
    (hid : ∀ i ∈ entry.number key, (∀ j ∈ ids key s.journal, j < i) ∧ s.nextId ≤ i ∧ i < n)
    (hsilence : ∀ k why, entry = .silenced k why → MaySilence k why) :
    WorkOk { s with nextId := n } (w.write key row entry) := by
  constructor
  -- a row that is untouched is not the one that was written
  · intro k hk
    have hne : k ≠ key := by
      rintro rfl
      rw [rows_write_self] at hk
      cases hk
    rw [rows_write_of_ne w row entry hne] at hk
    rw [journal_write, marks_concat_other (hother k hne).1, ids_concat_other (hother k hne).2]
    exact h.untouched k hk
  · intro k r hr
    show follow (s.alerts k) (marks k (w.journal ++ [entry])) = some r
    by_cases hk : k = key
    · subst hk
      rw [rows_write_self] at hr
      rw [marks_append, follow_append, h.there, Option.bind_some, hrow, hr]
    · rw [rows_write_of_ne w row entry hk] at hr
      rw [marks_concat_other (hother k hk).1]
      exact h.follows k r hr
  · intro k
    show (ids k s.journal ++ ids k (w.journal ++ [entry])).Pairwise (· < ·)
    by_cases hk : k = key
    · subst hk
      rw [ids_append, ← List.append_assoc, List.pairwise_append]
      -- the new number is above all that are committed and all that were given out
      refine ⟨h.ascending k, ?_, fun j hj i hi => ?_⟩
      · cases hnumber : entry.number k with
        | none => simp [ids, hnumber]
        | some i => simp [ids, hnumber]
      · have hi := hid i (mem_ids_singleton.1 hi)
        rcases List.mem_append.1 hj with hj | hj
        · exact hi.1 j hj
        · exact Nat.lt_of_lt_of_le (h.bound k j hj) hi.2.1
    · rw [ids_concat_other (hother k hk).2]
      exact h.ascending k
  · intro k i hi
    rw [journal_write, ids_append, List.mem_append] at hi
    rcases hi with hi | hi
    · exact Nat.lt_of_lt_of_le (h.bound k i hi) hn
    · rw [mem_ids_singleton] at hi
      by_cases hk : k = key
      · subst hk
        exact (hid i hi).2.2
      · rw [(hother k hk).2] at hi
        cases hi
  · intro k why hmem
    rcases List.mem_append.1 hmem with hmem | hmem
    · exact h.silences k why hmem
    · exact hsilence k why (List.mem_singleton.1 hmem).symm

/-! ## Every step keeps it -/

theorem apart_of_free {s : State} {id : TxId} {key : AlertKey} (h : s.free id key = true) {i : TxId}
    {tx : Tx} (htx : s.txs.get? i = some tx) (hne : i ≠ id) : tx.work.rows key = none := by
  have hall := Table.all_iff.1 h i tx htx
  rw [Bool.or_eq_true, decide_eq_true_iff, Option.isNone_iff_eq_none] at hall
  exact hall.resolve_left hne

theorem Inv.write {s : State} (h : Inv s) {id : TxId} {tx : Tx} (htx : s.txs.get? id = some tx)
    {stmt : Stmt} {stmts : List Stmt} (hstmts : tx.stmts = stmt :: stmts)
    {key : AlertKey} {row : Bool}
    {entry : Entry} {n : Nat} (hfree : s.free id key = true)
    (hrow : follow (s.there tx.work key) (marks key [entry]) = some row)
    (hother : ∀ k, k ≠ key → entry.mark k = none ∧ entry.number k = none) (hn : s.nextId ≤ n)
    (hid : ∀ i ∈ entry.number key, s.nextId ≤ i ∧ i < n)
    (hsilence : ∀ k why, entry = .silenced k why → MaySilence k why) :
    Inv { s.putTx id { tx with work := tx.work.write key row entry, stmts := stmts }
      with nextId := n } := by
  have hok := h.txs id tx htx
  have hrows : ∀ k, tx.work.rows k ≠ none → (tx.work.write key row entry).rows k ≠ none := by
    intro k hk
    by_cases hkey : k = key
    · rw [hkey, rows_write_self]
      exact Option.some_ne_none _
    · rwa [rows_write_of_ne tx.work row entry hkey]
  refine h.put hn ⟨?_, fun w hw => ?_, fun stmt' hmem => ?_, hok.blocks⟩ fun i other hget hne => ?_
  · refine hok.work.write hrow hother hn (fun i hi => ⟨fun j hj => ?_, hid i hi⟩) hsilence
    exact Nat.lt_of_lt_of_le (h.bound key j hj) (hid i hi).1
  · obtain ⟨hsaved, hsub⟩ := hok.saved w hw
    exact ⟨hsaved.later rfl rfl hn, fun k hk => hrows k (hsub k hk)⟩
  · exact hok.stmts stmt' (hstmts ▸ List.mem_cons_of_mem stmt hmem)
  -- nobody else had changed the row, so the two are still apart
  · have hnone := apart_of_free hfree hget hne
    constructor
    · intro k hk
      by_cases hkey : k = key
      · rw [hkey]
        exact hnone
      · have hk : (tx.work.write key row entry).rows k ≠ none := hk
        rw [rows_write_of_ne tx.work row entry hkey] at hk
        exact h.apart id i tx other htx hget hne k hk
    · intro k hk
      have hne' : k ≠ key := by
        rintro rfl
        exact hk hnone
      show (tx.work.write key row entry).rows k = none
      rw [rows_write_of_ne tx.work row entry hne']
      exact h.apart i id other tx hget htx (Ne.symm hne) k hk

/-- An event about its own alert, which opens or closes it. -/
theorem Inv.emit {s : State} (h : Inv s) {id : TxId} {tx : Tx} (htx : s.txs.get? id = some tx)
    {stmt : Stmt} {stmts : List Stmt} (hstmts : tx.stmts = stmt :: stmts)
    {key : AlertKey} {event : Event}
    (hfree : s.free id key = true) (hkey : event.key = some key)
    (hthere : s.there tx.work key = event.isResolved) :
    Inv { s.putTx id { tx with
        work := tx.work.write key (!event.isResolved) (.emitted s.nextId event)
        stmts := stmts } with
      nextId := s.nextId + 1 } := by
  refine h.write htx hstmts hfree ?_ (fun k hk => ?_) (Nat.le_succ _) (fun i hi => ?_)
    fun k why hk => by cases hk
  · have hmarks : marks key [Entry.emitted s.nextId event]
        = [if event.isResolved then Mark.resolved else Mark.raised] := by
      simp [marks, Entry.mark, hkey]
    rw [hmarks, hthere]
    cases event.isResolved with
    | false => rfl
    | true => rfl
  · have hne : ¬ event.key = some k := by
      rw [hkey]
      exact fun heq => hk (Option.some.inj heq).symm
    exact ⟨if_neg hne, if_neg hne⟩
  · have hi : s.nextId = i := by simpa [Entry.number, hkey] using hi
    omega

theorem Inv.exec {s s' : State} (h : Inv s) {id : TxId} {tx : Tx} (htx : s.txs.get? id = some tx)
    (hexec : Alerts.exec s id tx = some s') : Inv s' := by
  have hok := h.txs id tx htx
  rw [Alerts.exec] at hexec
  split at hexec
  · cases hexec
  -- an insert waits only where the row is not there yet
  · next key event stmts hstmts =>
    obtain ⟨hkey, hraised⟩ := hok.first hstmts
    split at hexec
    · cases hexec
    next hwait =>
    split at hexec
    · cases hexec
      exact h.skip htx hstmts
    · next hthere =>
      cases hexec
      have hfree : s.free id key = true := by
        by_contra hfree
        exact hwait (by simp [hfree])
      have hemit := h.emit htx hstmts hfree hkey (by simpa [hraised] using hthere)
      rw [hraised] at hemit
      exact hemit
  · next key event stmts hstmts =>
    obtain ⟨hkey, hresolved⟩ := hok.first hstmts
    split at hexec
    · cases hexec
    next hfree =>
    split at hexec
    · next hthere =>
      cases hexec
      have hemit := h.emit htx hstmts (by simpa using hfree) hkey (by rw [hthere, hresolved])
      rw [hresolved] at hemit
      exact hemit
    · cases hexec
      exact h.skip htx hstmts
  · next key why stmts hstmts =>
    have hmay : MaySilence key why := hok.first hstmts
    split at hexec
    · cases hexec
    next hfree =>
    split at hexec
    · next hthere =>
      cases hexec
      refine h.write htx hstmts (by simpa using hfree) ?_ (fun k hk => ⟨if_neg (Ne.symm hk), rfl⟩)
        (Nat.le_refl _) (fun i hi => by cases hi) fun k why' heq => ?_
      · rw [hthere]
        simp [marks, Entry.mark, follow]
      · cases heq
        exact hmay
    · cases hexec
      exact h.skip htx hstmts

theorem Inv.miss {s s' : State} (h : Inv s) {id : TxId} {tx : Tx} (htx : s.txs.get? id = some tx)
    (hmiss : Alerts.miss s id tx = some s') : Inv s' := by
  rw [Alerts.miss] at hmiss
  split at hmiss
  · next hstmts =>
    split at hmiss
    · cases hmiss
    · cases hmiss
      exact h.skip htx hstmts
  · next hstmts =>
    split at hmiss
    · cases hmiss
    · cases hmiss
      exact h.skip htx hstmts
  · cases hmiss

/-- Another transaction has committed. What it has changed this one has not. -/
theorem WorkOk.commit {s : State} {w done : Work} (h : WorkOk s w) (hdone : WorkOk s done)
    (hapart : ∀ key, w.rows key ≠ none → done.rows key = none) {txs : Table TxId Tx} :
    WorkOk { s with alerts := s.there done, journal := s.journal ++ done.journal, txs := txs }
        w where
  untouched := h.untouched
  follows key row hrow := by
    have hnone := hapart key (by rw [hrow]; exact Option.some_ne_none row)
    show follow (s.there done key) (marks key w.journal) = some row
    rw [State.there, hnone]
    exact h.follows key row hrow
  ascending key := by
    show (ids key (s.journal ++ done.journal) ++ ids key w.journal).Pairwise (· < ·)
    rw [ids_append]
    -- one of the two has nothing of the key: no row that both have changed
    cases hrow : w.rows key with
    | none =>
      rw [(h.untouched key hrow).2, List.append_nil]
      exact hdone.ascending key
    | some row =>
      have hnone := hapart key (by rw [hrow]; exact Option.some_ne_none row)
      rw [(hdone.untouched key hnone).2, List.append_nil]
      exact h.ascending key
  bound := h.bound
  silences := h.silences

theorem Inv.remove {s : State} (h : Inv s) (id : TxId) : Inv { s with txs := s.txs.remove id } where
  follows := h.follows
  ascending := h.ascending
  bound := h.bound
  silences := h.silences
  txs i tx htx := (h.txs i tx (Table.get?_remove_eq_some.1 htx).2).later rfl rfl (Nat.le_refl _)
  apart := h.apart.remove id

theorem Inv.commit {s : State} (h : Inv s) {id : TxId} {tx : Tx} (htx : s.txs.get? id = some tx) :
    Inv { s with
      alerts := s.there tx.work
      journal := s.journal ++ tx.work.journal
      txs := s.txs.remove id } where
  follows key := by
    rw [marks_append, follow_append, h.follows key]
    exact (h.txs id tx htx).work.there key
  ascending key := by
    rw [ids_append]
    exact (h.txs id tx htx).work.ascending key
  bound key i hi := by
    rw [ids_append, List.mem_append] at hi
    rcases hi with hi | hi
    · exact h.bound key i hi
    · exact (h.txs id tx htx).work.bound key i hi
  silences key why hmem := by
    rcases List.mem_append.1 hmem with hmem | hmem
    · exact h.silences key why hmem
    · exact (h.txs id tx htx).work.silences key why hmem
  txs i other hother := by
    obtain ⟨hne, hother⟩ := Table.get?_remove_eq_some.1 hother
    have hok := h.txs i other hother
    have hdone := (h.txs id tx htx).work
    have hapart := h.apart i id other tx hother htx (Ne.symm hne)
    refine ⟨hok.work.commit hdone hapart, fun w hw => ?_, hok.stmts, hok.blocks⟩
    obtain ⟨hsaved, hsub⟩ := hok.saved w hw
    exact ⟨hsaved.commit hdone fun key hkey => hapart key (hsub key hkey), hsub⟩
  apart := h.apart.remove id

theorem inv_step {s s' : State} (h : Inv s) {label : Label}
    (hstep : step s label = some s') : Inv s' := by
  cases label with
  | begin id checks =>
    rw [step] at hstep
    split at hstep
    · cases hstep
    cases hstep
    refine h.put (Nat.le_refl _)
      ⟨h.nothing, fun w hw => ?_, fun _ hmem => ?_, fun block hblock => ?_⟩
      fun i other _ _ => ⟨fun key hkey => absurd rfl hkey, fun _ _ => rfl⟩
    · cases hw
    · exact absurd hmem List.not_mem_nil
    · obtain ⟨check, -, rfl⟩ := List.mem_map.1 hblock
      exact ok_block check
  | enter id =>
    obtain ⟨tx, htx, hstep⟩ := Option.bind_eq_some_iff.1 hstep
    have hok := h.txs id tx htx
    split at hstep
    · next block blocks hstmts hblocks =>
      cases hstep
      have hcons := fun b hb => hok.blocks b (hblocks ▸ hb)
      refine h.putFewer htx ⟨hok.work, fun w hw => ?_, hcons block (List.mem_cons_self ..),
        fun b hb => hcons b (List.mem_cons_of_mem block hb)⟩ fun _ hkey => hkey
      split at hw
      · cases hw
        exact ⟨hok.work, fun _ hkey => hkey⟩
      · cases hw
    · cases hstep
  | exec id =>
    obtain ⟨tx, htx, hstep⟩ := Option.bind_eq_some_iff.1 hstep
    exact h.exec htx hstep
  | miss id =>
    obtain ⟨tx, htx, hstep⟩ := Option.bind_eq_some_iff.1 hstep
    exact h.miss htx hstep
  | fail id =>
    obtain ⟨tx, htx, hstep⟩ := Option.bind_eq_some_iff.1 hstep
    obtain ⟨work, hwork, hstep⟩ := Option.bind_eq_some_iff.1 hstep
    cases hstep
    have hok := h.txs id tx htx
    -- back to the savepoint, which had no row that the transaction has not
    obtain ⟨hsaved, hsub⟩ := hok.saved work hwork
    refine h.putFewer htx ⟨hsaved, fun w hw => ?_, fun _ hmem => ?_, hok.blocks⟩ hsub
    · cases hw
    · exact absurd hmem List.not_mem_nil
  | abort id =>
    obtain ⟨tx, -, hstep⟩ := Option.bind_eq_some_iff.1 hstep
    cases hstep
    exact h.remove id
  | commit id =>
    obtain ⟨tx, htx, hstep⟩ := Option.bind_eq_some_iff.1 hstep
    split at hstep
    · cases hstep
      exact h.commit htx
    · cases hstep

theorem inductive_inv : Lib.System.Inductive system Lib.anyStep Inv where
  init _ hs := hs ▸ inv_init
  step _ _ _ h _ hstep := inv_step h hstep

/-! ## Episodes -/

/-- About a worker. -/
def AlertKey.ofWorker : AlertKey → Bool
  | .workerOffline _ | .workerUnisolated _ | .workerUnfiltered _ => true
  | _ => false

theorem ofWorker_of_maySilence {key : AlertKey} {why : Silence} (h : MaySilence key why) :
    key.ofWorker = true := by
  cases key with
  | workerOffline _ => rfl
  | workerUnisolated _ => rfl
  | workerUnfiltered _ => rfl
  | queueStuck => exact absurd h id
  | secretsUnavailable => exact absurd h id
  | inventoryRefreshFailed _ => exact absurd h id

/-- Without a silence, the events are all there is of an alert. -/
theorem events_eq_marks {key : AlertKey} {journal : List Entry}
    (h : ∀ why, Entry.silenced key why ∉ journal) : events key journal = marks key journal := by
  refine List.filter_eq_self.2 fun m hm => ?_
  obtain ⟨entry, hentry, hmark⟩ := List.mem_filterMap.1 hm
  cases entry with
  | emitted id event =>
    rw [Entry.mark] at hmark
    split at hmark
    · cases hmark
      cases event.isResolved with
      | false => rfl
      | true => rfl
    · cases hmark
  | silenced k why =>
    rw [Entry.mark] at hmark
    split at hmark
    · next hk => exact absurd (hk ▸ hentry) (h why)
    · cases hmark

/-- **Alerts are raised and closed in turn.** Only a worker's alert is closed without an event, so
the events of all others alternate, and those of a worker's that has not been closed so. -/
theorem episodes_alternate {s : State} (h : system.Reachable s) (key : AlertKey) :
    Alternates (marks key s.journal) ∧ (ids key s.journal).Pairwise (· < ·) ∧
      (∀ why, Entry.silenced key why ∈ s.journal → MaySilence key why) ∧
      ((∀ why, Entry.silenced key why ∉ s.journal) → Alternates (events key s.journal)) ∧
      (key.ofWorker = false → Alternates (events key s.journal)) := by
  have hinv := inductive_inv.of_reachable h
  have halternate : Alternates (marks key s.journal) := by
    rw [Alternates, hinv.follows key]
    rfl
  have hevents : (∀ why, Entry.silenced key why ∉ s.journal) →
      Alternates (events key s.journal) := by
    intro hsilence
    rw [events_eq_marks hsilence]
    exact halternate
  refine ⟨halternate, hinv.ascending key, hinv.silences key, hevents, fun hworker => hevents ?_⟩
  intro why hmem
  have htrue := ofWorker_of_maySilence (hinv.silences key why hmem)
  rw [hworker] at htrue
  cases htrue

/-- Two passes over the queue find a run waiting, the second while the first is not over; then it is
claimed, and two passes clear the alert. -/
def stuckTwice : List Label :=
  let stuck : Check := .queue 10 [⟨7, none, Lib.str "No worker is online"⟩]
  [.begin 1 [stuck], .enter 1, .exec 1, .begin 2 [stuck], .enter 2, .commit 1, .exec 2, .commit 2,
    .begin 3 [.queue 10 []], .enter 3, .begin 4 [.queue 10 []], .enter 4, .exec 3,
    .miss 4, .commit 4,
    .commit 3]

theorem episodes_alternate_stuckTwice :
    ∃ s, system.Reachable s ∧ events .queueStuck s.journal = [.raised, .resolved] ∧
      Alternates (events .queueStuck s.journal) := by
  have hreach : system.Reachable ((system.run Lib.anyStep init stuckTwice).get (by decide)) :=
    .of_isSome rfl stuckTwice (by decide)
  exact ⟨_, hreach, by decide, (episodes_alternate hreach .queueStuck).2.2.2.2 rfl⟩

/-- A silent worker is pruned, reports again and falls silent again. It says each time that it is
not isolated, and once in between that it is. -/
def forgottenWorker : List Label :=
  let w1 := Lib.str "w1"
  let silent : Check := .workers [⟨w1, 2, none⟩]
  [.begin 1 [.seen w1 2 (some false) none], .enter 1, .exec 1, .exec 1, .exec 1, .commit 1,
    .begin 2 [.seen w1 2 (some true) none], .enter 2, .exec 2, .exec 2, .commit 2,
    .begin 3 [silent], .enter 3, .exec 3, .commit 3,
    .begin 4 [.pruned [w1]], .enter 4, .exec 4, .exec 4, .exec 4, .commit 4,
    .begin 5 [.seen w1 2 (some false) none], .enter 5, .exec 5, .exec 5, .exec 5, .commit 5,
    .begin 6 [silent], .enter 6, .exec 6, .commit 6]

theorem forgottenWorker_raised_twice :
    ¬ ∀ s, system.Reachable s → ∀ key, Alternates (events key s.journal) := by
  intro h
  have hreach : system.Reachable ((system.run Lib.anyStep init forgottenWorker).get (by decide)) :=
    .of_isSome rfl forgottenWorker (by decide)
  have hoffline := h _ hreach (.workerOffline (Lib.str "w1"))
  exact absurd hoffline (by decide)

end Alerts

end Notifications

end AnsiDeck
