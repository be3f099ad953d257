import AnsiDeck.Accounts.Users
import AnsiDeck.Lib.Serial

/-!
# There is an administrator left

`_is_last_active_admin` is asked in one statement, and the change it allows is committed in another,
without a lock over both: two administrators who demote one another are both counted by the other's
request. What decides is the answer at the commit. Asked again then (`stands`), no change takes the
last administrator away; and a change that would get another answer then does. Requests that don't
overlap get the same answer (`stands_of_oneAtATime`).
-/

namespace AnsiDeck

namespace Users

open Lib (Serial Table)

variable {cfg : Settings} {s t : State}

/-- A change that takes an administrator's role, or their access. -/
def takesAway (target : User) : Request → Bool
  | .update payload =>
    roleChanges payload target && payload.role != some .admin ||
      activeChanges payload target && payload.isActive == some false
  | .delete => true

/-- When such a change commits, its target is not the last active administrator, or no longer. -/
def stands (s : State) : Label → Bool
  | .next tx =>
    (s.txs.get? tx).all fun row =>
      match row.phase with
      | .flushed target =>
        !takesAway target row.request ||
          (s.users.get? row.userId).all fun user => !isLastActiveAdmin s.users user
      | _ => true
  | _ => true

/-! ## One step -/

/-- Only a commit changes the users. -/
theorem users_step {a : Label} (hs : step cfg s a = some t) :
    t.users = s.users ∧ stands s a = true ∨ ∃ tx row target, a = .next tx ∧
      s.txs.get? tx = some row ∧ row.phase = .flushed target ∧
        t.users = applied cfg s row target := by
  cases a with
  | request tx actorId userId request =>
    simp only [step] at hs
    split at hs
    · split at hs
      · obtain rfl := Option.some.inj hs
        exact Or.inl ⟨rfl, rfl⟩
      · exact absurd hs (by simp)
    · exact absurd hs (by simp)
  | rollback tx =>
    obtain ⟨row, hrow, hs⟩ := Option.bind_eq_some_iff.mp hs
    obtain rfl := Option.some.inj hs
    exact Or.inl ⟨rfl, rfl⟩
  | next tx =>
    obtain ⟨row, hrow, hs⟩ := Option.bind_eq_some_iff.mp hs
    unfold nextStatement at hs
    cases hphase : row.phase with
    | flushed target =>
      rw [hphase] at hs
      obtain rfl := Option.some.inj hs
      exact Or.inr ⟨tx, row, target, rfl, hrow, hphase, rfl⟩
    | authenticated =>
      rw [hphase] at hs
      refine Or.inl ⟨?_, by simp [stands, hrow, hphase]⟩
      dsimp only at hs
      split at hs
      · obtain rfl := Option.some.inj hs
        rfl
      · split at hs <;> (obtain rfl := Option.some.inj hs; rfl)
    | loaded target =>
      rw [hphase] at hs
      refine Or.inl ⟨?_, by simp [stands, hrow, hphase]⟩
      dsimp only at hs
      split at hs <;> (obtain rfl := Option.some.inj hs; rfl)
    | counted target =>
      rw [hphase] at hs
      refine Or.inl ⟨?_, by simp [stands, hrow, hphase]⟩
      dsimp only at hs
      split at hs <;> (obtain rfl := Option.some.inj hs; rfl)
    | checked target =>
      rw [hphase] at hs
      refine Or.inl ⟨?_, by simp [stands, hrow, hphase]⟩
      dsimp only at hs
      split at hs
      · exact absurd hs (by simp)
      · split at hs <;> (obtain rfl := Option.some.inj hs; rfl)
    | answered error =>
      rw [hphase] at hs
      exact absurd hs (by simp)

theorem activeAdmin_apply_of_stays {payload : UserUpdate} {target row : User}
    (h : takesAway target (.update payload) = false) (hrow : activeAdmin row = true) :
    activeAdmin ((changesOf cfg payload target).apply row) = true := by
  obtain ⟨hrole, hactive⟩ : row.role = .admin ∧ row.isActive = true := by
    simpa [activeAdmin] using hrow
  obtain ⟨hkeepsRole, hkeepsActive⟩ := Bool.or_eq_false_iff.mp h
  have hrole' : ((changesOf cfg payload target).role).getD row.role = .admin := by
    unfold changesOf
    dsimp only
    split
    · next hchanges =>
      rw [hchanges] at hkeepsRole
      have : payload.role = some .admin := by simpa using hkeepsRole
      rw [this]
      rfl
    · exact hrole
  have hactive' : ((changesOf cfg payload target).isActive).getD row.isActive = true := by
    unfold changesOf
    dsimp only
    split
    · next hchanges =>
      rw [hchanges] at hkeepsActive
      cases hpayload : payload.isActive with
      | none => exact hactive
      | some isActive =>
        rw [hpayload] at hkeepsActive
        simpa using hkeepsActive
    · exact hactive
  simp [activeAdmin, Changes.apply, hrole', hactive']

theorem activeAdmin_apply_of_takesAway {payload : UserUpdate} {target row : User}
    (h : takesAway target (.update payload) = true) :
    activeAdmin ((changesOf cfg payload target).apply row) = false := by
  rcases Bool.or_eq_true_iff.mp h with hrole | hactive
  · obtain ⟨hchanges, hnot⟩ := Bool.and_eq_true_iff.mp hrole
    have hsome : ∃ role, payload.role = some role ∧ role ≠ .admin := by
      cases hpayload : payload.role with
      | none => simp [roleChanges, hpayload] at hchanges
      | some role => exact ⟨role, rfl, by simpa [hpayload] using hnot⟩
    obtain ⟨role, hpayload, hne⟩ := hsome
    simp [activeAdmin, Changes.apply, changesOf, hchanges, hpayload, hne]
  · obtain ⟨hchanges, hfalse⟩ := Bool.and_eq_true_iff.mp hactive
    have hpayload : payload.isActive = some false := by simpa using hfalse
    simp [activeAdmin, Changes.apply, changesOf, hchanges, hpayload]

/-- A user counts for one, or for nothing. -/
def weight (user : User) : Nat := Table.weight (fun _ user => activeAdmin user) () user

theorem weight_of_true {user : User} (h : activeAdmin user = true) : weight user = 1 := by
  simp [weight, Table.weight, h]

theorem weight_of_false {user : User} (h : activeAdmin user = false) : weight user = 0 := by
  simp [weight, Table.weight, h]

section Commit

variable {row : Tx} {target user : User}

theorem count_update {payload : UserUpdate} (hrequest : row.request = .update payload)
    (hget : s.users.get? row.userId = some user) :
    activeAdminCount (applied cfg s row target) + weight user
      = activeAdminCount s.users + weight ((changesOf cfg payload target).apply user) := by
  unfold applied Table.modify
  rw [hrequest]
  dsimp only
  rw [hget]
  exact Table.count_put_of_get? hget _ _

theorem count_takesAway (haway : takesAway target row.request = true)
    (hget : s.users.get? row.userId = some user) :
    activeAdminCount (applied cfg s row target) + weight user = activeAdminCount s.users := by
  cases hrequest : row.request with
  | update payload =>
    rw [hrequest] at haway
    rw [count_update hrequest hget, weight_of_false (activeAdmin_apply_of_takesAway haway)]
    rfl
  | delete =>
    unfold applied
    rw [hrequest]
    exact Table.count_remove_of_get? hget _

theorem count_stays (hstays : takesAway target row.request = false)
    (hget : s.users.get? row.userId = some user) :
    activeAdminCount s.users ≤ activeAdminCount (applied cfg s row target) := by
  cases hrequest : row.request with
  | update payload =>
    rw [hrequest] at hstays
    have hcount := @count_update cfg s row target user payload hrequest hget
    cases hadmin : activeAdmin user with
    | true =>
      have hnew := weight_of_true (@activeAdmin_apply_of_stays cfg _ _ _ hstays hadmin)
      have hold := weight_of_true hadmin
      omega
    | false =>
      have hold := weight_of_false hadmin
      omega
  | delete =>
    rw [hrequest] at hstays
    exact absurd hstays (by simp [takesAway])

theorem count_missing (hget : s.users.get? row.userId = none) :
    activeAdminCount s.users ≤ activeAdminCount (applied cfg s row target) := by
  unfold applied Table.modify
  split
  · rw [hget]
  · rw [Table.remove_of_get?_none hget]

/-- The count at the commit decides. -/
theorem applied_left (hleft : 0 < activeAdminCount s.users) :
    0 < activeAdminCount (applied cfg s row target) ↔
      (!takesAway target row.request ||
        (s.users.get? row.userId).all fun user => !isLastActiveAdmin s.users user) = true := by
  cases hget : s.users.get? row.userId with
  | none =>
    have := @count_missing cfg s row target hget
    simp only [Option.all_none, Bool.or_true, iff_true]
    omega
  | some user =>
    cases haway : takesAway target row.request with
    | false =>
      have := @count_stays cfg s row target user haway hget
      simp only [Bool.not_false, Bool.true_or, iff_true]
      omega
    | true =>
      have hcount := @count_takesAway cfg s row target user haway hget
      cases hadmin : activeAdmin user with
      | false =>
        have := weight_of_false hadmin
        simp [isLastActiveAdmin, hadmin]
        omega
      | true =>
        have := weight_of_true hadmin
        simp [isLastActiveAdmin, hadmin]
        omega

end Commit

/-! ## Runs -/

theorem admin_left_step {a : Label} (hs : step cfg s a = some t)
    (hleft : 0 < activeAdminCount s.users) :
    0 < activeAdminCount t.users ↔ stands s a = true := by
  rcases users_step hs with ⟨hsame, hstands⟩ | ⟨tx, row, target, rfl, hrow, hphase, happlied⟩
  · rw [hsame]
    exact iff_of_true hleft hstands
  · rw [happlied, applied_left hleft]
    simp [stands, hrow, hphase]

/-- **While every change that takes an administrator away would be let through again when it
commits, there is one left; and the change that would not leaves none.** -/
theorem admin_left (hr : (system cfg).ReachableBy (fun s a => stands s a = true) s) :
    0 < activeAdminCount s.users ∧
      ∀ a t, step cfg s a = some t → (0 < activeAdminCount t.users ↔ stands s a = true) := by
  have hinv : (system cfg).Inductive (fun s a => stands s a = true)
      fun s => 0 < activeAdminCount s.users :=
    { init := fun s hinit => hinit.2
      step := fun s a t hleft hstands hs => (admin_left_step hs hleft).mpr hstands }
  have hleft := hinv.of_reachable hr
  exact ⟨hleft, fun a t hs => admin_left_step hs hleft⟩

/-! Two administrators, each demoting the other: both are counted before either commits. -/

def plainSettings : Settings := ⟨id, id, id⟩

def administrator (username : String) : User :=
  { username := username, passwordHash := "", role := .admin }

def twoAdmins : State :=
  { users := (Table.put ∅ 1 (administrator "ada")).put 2 (administrator "bob") }

def demote : Request := .update { role := some .viewer }

/-- The second request loads, counts and flushes before the first commits. -/
def overlapping : List Label :=
  [.request 1 1 2 demote, .request 2 2 1 demote, .next 1, .next 2, .next 1, .next 2, .next 1,
    .next 2, .next 1, .next 2, .next 1, .next 2]

/-- One after the other: the second is refused. -/
def inTurn : List Label :=
  [.request 1 1 2 demote, .request 2 2 1 demote, .next 1, .next 2, .next 1, .next 1, .next 1,
    .next 1, .next 2]

theorem twoAdmins_init : (system plainSettings).init twoAdmins := ⟨rfl, by decide⟩

theorem admin_left_inTurn :
    ∃ s, (system plainSettings).ReachableBy (fun s a => stands s a = true) s ∧
      activeAdminCount s.users = 1 ∧ 0 < activeAdminCount s.users :=
  ⟨((system plainSettings).run (fun s a => stands s a = true) twoAdmins inTurn).get rfl,
    Lib.System.ReachableBy.of_isSome twoAdmins_init inTurn rfl, rfl,
    (admin_left (Lib.System.ReachableBy.of_isSome twoAdmins_init inTurn rfl)).1⟩

theorem no_admin_left :
    ¬ ∀ s, (system plainSettings).Reachable s → 0 < activeAdminCount s.users := by
  intro h
  have hr : (system plainSettings).Reachable _ :=
    Lib.System.ReachableBy.of_isSome twoAdmins_init overlapping rfl
  have hnone := h _ hr
  exact absurd hnone (by decide)

/-! ## One request at a time -/

def Phase.ended : Phase → Bool
  | .answered _ => true
  | _ => false

/-- A request begins when every other is answered. -/
def oneAtATime (s : State) : Label → Bool
  | .request _ _ _ _ => s.txs.all fun _ row => row.phase.ended
  | _ => true

/-- The row that a request has read is still the committed one, and the count let it pass. -/
def Saw (users : Table UserId User) (row : Tx) : Prop :=
  match row.phase with
  | .authenticated => users.get? row.actorId = some row.actor
  | .loaded target => users.get? row.userId = some target
  | .counted target | .checked target | .flushed target =>
    users.get? row.userId = some target ∧
      (asksCount target row.request && isLastActiveAdmin users target) = false
  | .answered _ => True

/-- At most one request is open. -/
abbrev Alone (s : State) : Prop := Serial (fun row => row.phase.ended) (Saw s.users) s.txs

theorem asksCount_of_takesAway {target : User} {request : Request}
    (h : takesAway target request = true) : asksCount target request = true := by
  cases request with
  | delete => rfl
  | update payload =>
    refine Bool.or_eq_true_iff.mpr ?_
    rcases Bool.or_eq_true_iff.mp h with hrole | hactive
    · exact Or.inl (Bool.and_eq_true_iff.mp hrole).1
    · obtain ⟨hchanges, hfalse⟩ := Bool.and_eq_true_iff.mp hactive
      have hpayload : payload.isActive = some false := by simpa using hfalse
      right
      simpa [deactivates, activeChanges, hpayload] using hchanges

theorem alone_putTx {tx : Nat} {row : Tx} {phase : Phase} (h : Alone s)
    (hrow : s.txs.get? tx = some row) (hopen : row.phase.ended = false)
    (hsaw : phase.ended = false → Saw s.users { row with phase := phase }) :
    Alone (putTx s tx row phase) :=
  h.move hrow hopen hsaw

theorem alone_next {tx : Nat} {row : Tx} (h : Alone s) (hrow : s.txs.get? tx = some row)
    (hs : nextStatement cfg s tx row = some t) : Alone t := by
  have hsaw := h.knows tx row hrow
  unfold nextStatement at hs
  cases hphase : row.phase with
  | authenticated =>
    have hopen : row.phase.ended = false := by rw [hphase]; rfl
    have hactor : s.users.get? row.actorId = some row.actor := by
      simpa [Saw, hphase] using hsaw hopen
    rw [hphase] at hs
    dsimp only at hs
    split at hs
    · obtain rfl := Option.some.inj hs
      exact alone_putTx h hrow hopen fun hnot => absurd hnot (by simp [Phase.ended])
    next target htarget =>
    have hread : s.users.get? row.userId = some target := by
      split at htarget
      · next hself => rw [hself, hactor, htarget]
      · exact htarget
    split at hs
    · obtain rfl := Option.some.inj hs
      exact alone_putTx h hrow hopen fun hnot => absurd hnot (by simp [Phase.ended])
    · obtain rfl := Option.some.inj hs
      exact alone_putTx h hrow hopen fun _ => hread
  | loaded target =>
    have hopen : row.phase.ended = false := by rw [hphase]; rfl
    have hread : s.users.get? row.userId = some target := by
      simpa [Saw, hphase] using hsaw hopen
    rw [hphase] at hs
    dsimp only at hs
    split at hs
    · obtain rfl := Option.some.inj hs
      exact alone_putTx h hrow hopen fun hnot => absurd hnot (by simp [Phase.ended])
    next hpasses =>
    obtain rfl := Option.some.inj hs
    exact alone_putTx h hrow hopen fun _ => ⟨hread, by simpa using hpasses⟩
  | counted target =>
    have hopen : row.phase.ended = false := by rw [hphase]; rfl
    have hpassed := hsaw hopen
    unfold Saw at hpassed
    rw [hphase] at hs hpassed
    dsimp only at hs
    split at hs
    · obtain rfl := Option.some.inj hs
      exact alone_putTx h hrow hopen fun hnot => absurd hnot (by simp [Phase.ended])
    · obtain rfl := Option.some.inj hs
      exact alone_putTx h hrow hopen fun _ => hpassed
  | checked target =>
    have hopen : row.phase.ended = false := by rw [hphase]; rfl
    have hpassed := hsaw hopen
    unfold Saw at hpassed
    rw [hphase] at hs hpassed
    dsimp only at hs
    split at hs
    · exact absurd hs (by simp)
    split at hs
    · obtain rfl := Option.some.inj hs
      exact alone_putTx h hrow hopen fun hnot => absurd hnot (by simp [Phase.ended])
    · obtain rfl := Option.some.inj hs
      exact alone_putTx h hrow hopen fun _ => hpassed
  | flushed target =>
    have hopen : row.phase.ended = false := by rw [hphase]; rfl
    rw [hphase] at hs
    obtain rfl := Option.some.inj hs
    -- the users change, and no request is left that saw them as they were
    exact h.move hrow hopen fun hnot => absurd hnot (by simp [Phase.ended])
  | answered error =>
    rw [hphase] at hs
    exact absurd hs (by simp)

theorem alone_step {a : Label} (h : Alone s) (hok : oneAtATime s a = true)
    (hs : step cfg s a = some t) : Alone t := by
  cases a with
  | request tx actorId userId request =>
    simp only [step] at hs
    split at hs
    · next actor hactor =>
      split at hs
      · obtain rfl := Option.some.inj hs
        exact Serial.begin hok fun _ => hactor
      · exact absurd hs (by simp)
    · exact absurd hs (by simp)
  | next tx =>
    obtain ⟨row, hrow, hs⟩ := Option.bind_eq_some_iff.mp hs
    exact alone_next h hrow hs
  | rollback tx =>
    obtain ⟨row, -, hs⟩ := Option.bind_eq_some_iff.mp hs
    obtain rfl := Option.some.inj hs
    exact h.remove tx

theorem stands_of_alone {a : Label} (h : Alone s) : stands s a = true := by
  cases a with
  | request tx actorId userId request => rfl
  | rollback tx => rfl
  | next tx =>
    simp only [stands]
    cases hrow : s.txs.get? tx with
    | none => rfl
    | some row =>
      rw [Option.all_some]
      split
      · next target hphase =>
        have hpassed := h.knows tx row hrow (by rw [hphase]; rfl)
        unfold Saw at hpassed
        rw [hphase] at hpassed
        obtain ⟨hread, hcount⟩ := hpassed
        rw [hread, Option.all_some]
        cases haway : takesAway target row.request with
        | false => rfl
        | true =>
          rw [asksCount_of_takesAway haway, Bool.true_and] at hcount
          rw [hcount]
          rfl
      · rfl

/-- **Requests that don't overlap are let through by what is so when they commit.** -/
theorem stands_of_oneAtATime
    (hr : (system cfg).ReachableBy (fun s a => oneAtATime s a = true) s) :
    (system cfg).ReachableBy (fun s a => stands s a = true) s := by
  have halone : (system cfg).Inductive (fun s a => oneAtATime s a = true) Alone :=
    { init := by
        rintro s ⟨htxs, -⟩
        unfold Alone
        rw [htxs]
        exact Serial.empty
      step := fun s a t h hok hs => alone_step h hok hs }
  exact hr.within halone fun s a h _ => stands_of_alone h

end Users

end AnsiDeck
