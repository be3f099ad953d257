import AnsiDeck.Accounts.Sso
import AnsiDeck.Lib.Serial

/-!
# Bindings

The unique index keeps an identity with one user. Nothing keeps a user with one identity: the
`UPDATE` that binds is by id, and two identities with the same verified address both find the user
unlinked. Where each `UPDATE` finds its user still unlinked (`stillUnlinked`), bindings stay as they
are, and a sign-in that is over leaves the user it returned bound to its identity. Sign-ins that
don't overlap are such (`stillUnlinked_of_oneAtATime`).
-/

namespace AnsiDeck

namespace Sso

open Lib (Serial Table)

variable {cfg : Settings} {s t : State}

/-- When a sign-in's `UPDATE` gets the row, the user is bound to nobody else's identity. -/
def stillUnlinked (s : State) : Label → Bool
  | .next tx =>
    (s.txs.get? tx).all fun row =>
      match row.phase with
      | .linking userId _ =>
        (s.users.get? userId).all fun now =>
          now.ssoSubject.isNone || identity now == some (row.issuer, row.subject)
      | _ => true
  | _ => true

def Tx.pair (row : Tx) : String × String := (row.issuer, row.subject)

/-- Bound to the identity, or to none. -/
def Free (user : User) (pair : String × String) : Prop :=
  user.ssoSubject = none ∨ identity user = some pair

theorem identity_of_unlinked {user : User} (h : user.ssoSubject = none) : identity user = none := by
  unfold identity
  rw [h]
  split
  · next hsome => exact absurd hsome (by simp)
  · rfl

theorem eq_of_identity {user : User} {issuer subject : String}
    (h : identity user = some (issuer, subject)) :
    user.ssoIssuer = some issuer ∧ user.ssoSubject = some subject := by
  unfold identity at h
  split at h
  · next hissuer hsubject =>
    obtain ⟨rfl, rfl⟩ := Prod.mk.inj (Option.some.inj h)
    exact ⟨hissuer, hsubject⟩
  · exact absurd h (by simp)

/-! ## What a statement does -/

/-- A phase in which a sign-in knows and holds nothing. -/
def Phase.idle : Phase → Bool
  | .begun _ | .unknown _ | .failed _ => true
  | _ => false

/-- A statement of a sign-in, and what it found. -/
inductive Moves (s : State) (tx : Nat) (row : Tx) : Phase → Table UserId User → Prop
  | idle {phase} : phase.idle = true → Moves s tx row phase s.users
  | found {id user} : s.users.get? id = some user → identity user = some row.pair →
      Moves s tx row (.returned id false) s.users
  | candidate {id user} : s.users.get? id = some user → user.ssoSubject = none →
      Moves s tx row (.linking id user) s.users
  | update {id user now} : row.phase = .linking id user → s.users.get? id = some now →
      (∀ other held, s.txs.get? other = some held → other ≠ tx →
        held.holds id (link row.issuer row.subject user now) = false) →
      conflict s.users id (link row.issuer row.subject user now) = false →
      Moves s tx row (.flushed id (link row.issuer row.subject user now)) s.users
  | commit {id version} : row.phase = .flushed id version →
      Moves s tx row (.returned id true) (s.users.put id version)

theorem moves_admit {tx : Nat} {row : Tx} {id : UserId} {user : User} {email : String}
    {newlyLinked : Bool}
    (hget : s.users.get? id = some user)
    (h : if newlyLinked then user.ssoSubject = none else identity user = some row.pair) :
    Moves s tx row (admitted cfg id user email newlyLinked) s.users := by
  unfold admitted
  split
  · exact .idle rfl
  · cases newlyLinked with
    | true => exact .candidate hget h
    | false => exact .found hget h

theorem byIdentity_spec {users : Table UserId User} {issuer subject : String} {id : UserId}
    {user : User} (h : byIdentity users issuer subject = some (id, user)) :
    users.get? id = some user ∧ identity user = some (issuer, subject) := by
  have hmem := List.mem_of_head? h
  obtain ⟨hget, hidentity⟩ := Table.mem_rows.mp hmem
  exact ⟨hget, by simpa using hidentity⟩

theorem candidates_spec {users : Table UserId User} {emails : List String} {id : UserId}
    {user : User} (h : candidates cfg users emails = [(id, user)]) :
    users.get? id = some user ∧ user.ssoSubject = none := by
  have hmem : (id, user) ∈ candidates cfg users emails := by simp [h]
  obtain ⟨hget, hmatch⟩ := Table.mem_rows.mp hmem
  exact ⟨hget, by simpa using (Bool.and_eq_true_iff.mp hmatch).2⟩

theorem next_moves {tx : Nat} {row : Tx} (hs : nextStatement cfg s tx row = some t) :
    ∃ phase, t.txs = s.txs.put tx { row with phase := phase } ∧ Moves s tx row phase t.users := by
  unfold nextStatement at hs
  cases hphase : row.phase with
  | begun emails =>
    rw [hphase] at hs
    dsimp only at hs
    split at hs
    · obtain rfl := Option.some.inj hs
      exact ⟨_, rfl, .idle rfl⟩
    · split at hs
      · next hfound =>
        obtain rfl := Option.some.inj hs
        obtain ⟨hget, hidentity⟩ := byIdentity_spec hfound
        exact ⟨_, rfl, moves_admit hget hidentity⟩
      · obtain rfl := Option.some.inj hs
        exact ⟨_, rfl, .idle rfl⟩
  | unknown emails =>
    rw [hphase] at hs
    dsimp only at hs
    split at hs
    · obtain rfl := Option.some.inj hs
      exact ⟨_, rfl, .idle rfl⟩
    · next hone =>
      obtain rfl := Option.some.inj hs
      obtain ⟨hget, hunlinked⟩ := candidates_spec hone
      exact ⟨_, rfl, moves_admit hget hunlinked⟩
    · obtain rfl := Option.some.inj hs
      exact ⟨_, rfl, .idle rfl⟩
  | linking id user =>
    rw [hphase] at hs
    dsimp only at hs
    split at hs
    · exact absurd hs (by simp)
    next now hnow =>
    split at hs
    · exact absurd hs (by simp)
    next hfree =>
    split at hs
    · obtain rfl := Option.some.inj hs
      exact ⟨_, rfl, .idle rfl⟩
    next hconflict =>
    obtain rfl := Option.some.inj hs
    refine ⟨_, rfl, .update hphase hnow ?_ (by simpa using hconflict)⟩
    intro other held hheld hother
    have hall := Table.all_iff.mp (by simpa [free] using hfree)
    simpa [hother] using hall other held hheld
  | flushed id version =>
    rw [hphase] at hs
    obtain rfl := Option.some.inj hs
    exact ⟨_, rfl, .commit hphase⟩
  | returned id newlyLinked =>
    rw [hphase] at hs
    exact absurd hs (by simp)
  | failed error =>
    rw [hphase] at hs
    exact absurd hs (by simp)

/-! ## The invariant -/

/-- Two versions that are not committed yet: of two users, with two identities. -/
def Apart (row row' : Tx) : Prop :=
  ∀ id version id' version', row.phase = .flushed id version → row'.phase = .flushed id' version' →
    id' ≠ id ∧ row'.pair ≠ row.pair

/-- What a sign-in knows stays true. -/
def Knows (users : Table UserId User) (row : Tx) : Prop :=
  match row.phase with
  | .linking id user =>
    ∃ now, users.get? id = some now ∧ (now.ssoSubject = none → now.ssoIssuer = user.ssoIssuer)
  | .flushed id version =>
    identity version = some row.pair ∧ (∃ now, users.get? id = some now ∧ Free now row.pair) ∧
      ∀ id' user, users.get? id' = some user → id' ≠ id → identity user ≠ some row.pair
  | .returned id _ => ∃ now, users.get? id = some now ∧ identity now = some row.pair
  | _ => True

structure Inv (s : State) : Prop where
  unique : Unique s.users
  apart : s.txs.Pairs Apart
  knows : ∀ tx row, s.txs.get? tx = some row → Knows s.users row

/-- Users that a version of one of them was committed to. -/
theorem knows_put {users : Table UserId User} {row held : Tx} {id : UserId} {version : User}
    (hphase : row.phase = .flushed id version) (hrow : Knows users row) (hheld : Knows users held)
    (hapart : Apart row held) : Knows (users.put id version) held := by
  unfold Knows at hrow
  rw [hphase] at hrow
  obtain ⟨hversion, ⟨before, hbefore, hfree⟩, -⟩ := hrow
  unfold Knows at hheld ⊢
  cases hheldPhase : held.phase with
  | begun emails => trivial
  | unknown emails => trivial
  | failed error => trivial
  | linking id' user =>
    rw [hheldPhase] at hheld
    obtain ⟨now, hnow, hissuer⟩ := hheld
    by_cases hsame : id' = id
    · subst hsame
      refine ⟨version, Table.get?_put_self _ _ _, fun hnone => ?_⟩
      rw [identity_of_unlinked hnone] at hversion
      exact absurd hversion (by simp)
    · exact ⟨now, by rwa [Table.get?_put_of_ne _ _ hsame], hissuer⟩
  | flushed id' version' =>
    rw [hheldPhase] at hheld
    obtain ⟨hversion', ⟨now, hnow, hfree'⟩, hothers⟩ := hheld
    obtain ⟨hne, hpair⟩ := hapart id version id' version' hphase hheldPhase
    refine ⟨hversion', ⟨now, by rwa [Table.get?_put_of_ne _ _ hne], hfree'⟩, ?_⟩
    intro other user hget hother
    rcases Table.get?_put_cases hget with ⟨rfl, rfl⟩ | ⟨-, hold⟩
    · intro hsame
      exact hpair (Option.some.inj (hsame.symm.trans hversion))
    · exact hothers other user hold hother
  | returned id' newlyLinked =>
    rw [hheldPhase] at hheld
    obtain ⟨now, hnow, hidentity⟩ := hheld
    by_cases hsame : id' = id
    · subst hsame
      obtain rfl := Option.some.inj (hnow.symm.trans hbefore)
      refine ⟨version, Table.get?_put_self _ _ _, ?_⟩
      rcases hfree with hnone | hpair
      · rw [identity_of_unlinked hnone] at hidentity
        exact absurd hidentity (by simp)
      · rw [hversion, ← hpair, hidentity]
    · exact ⟨now, by rwa [Table.get?_put_of_ne _ _ hsame], hidentity⟩

theorem unique_put {users : Table UserId User} {row : Tx} {id : UserId} {version : User}
    (hunique : Unique users) (hphase : row.phase = .flushed id version) (hrow : Knows users row) :
    Unique (users.put id version) := by
  unfold Knows at hrow
  rw [hphase] at hrow
  obtain ⟨hversion, -, hothers⟩ := hrow
  intro a b ua ub pair ha hb hpa hpb
  rcases Table.get?_put_cases ha with ⟨rfl, rfl⟩ | ⟨hane, holda⟩
  · rcases Table.get?_put_cases hb with ⟨rfl, rfl⟩ | ⟨hbne, holdb⟩
    · rfl
    · obtain rfl := Option.some.inj (hpa.symm.trans hversion)
      exact absurd hpb (hothers b ub holdb hbne)
  · rcases Table.get?_put_cases hb with ⟨rfl, rfl⟩ | ⟨hbne, holdb⟩
    · obtain rfl := Option.some.inj (hpb.symm.trans hversion)
      exact absurd hpa (hothers a ua holda hane)
    · exact hunique a b ua ub pair holda holdb hpa hpb

theorem identity_link {issuer subject : String} {user now : User}
    (hissuer : now.ssoSubject = none → now.ssoIssuer = user.ssoIssuer)
    (hfree : Free now (issuer, subject)) :
    identity (link issuer subject user now) = some (issuer, subject) := by
  unfold link
  split
  · next hloaded =>
    have : now.ssoIssuer = some issuer := by
      rcases hfree with hnone | hpair
      · rw [hissuer hnone, hloaded]
      · exact (eq_of_identity hpair).1
    simp [identity, this]
  · rfl

/-- One statement, within the guard. -/
theorem inv_next {tx : Nat} {row : Tx} {phase : Phase} (h : Inv s)
    (hrow : s.txs.get? tx = some row) (hok : stillUnlinked s (.next tx) = true)
    (htxs : t.txs = s.txs.put tx { row with phase := phase })
    (hmoves : Moves s tx row phase t.users) :
    Inv t := by
  have hknows := h.knows tx row hrow
  -- a phase that is not a new version leaves the versions in flight as they were
  have hquiet : (∀ id version, phase ≠ .flushed id version) → t.txs.Pairs Apart := by
    intro hphase
    rw [htxs]
    refine h.apart.put fun other held _ _ => ⟨?_, ?_⟩
    · intro id version _ _ hflushed
      exact absurd hflushed (hphase id version)
    · intro _ _ id version _ hflushed
      exact absurd hflushed (hphase id version)
  have hothers : t.users = s.users → Knows s.users { row with phase := phase } →
      ∀ tx' row', t.txs.get? tx' = some row' → Knows t.users row' := by
    intro husers hnew tx' row' hget
    rw [husers]
    rw [htxs] at hget
    rcases Table.get?_put_cases hget with ⟨rfl, rfl⟩ | ⟨-, hold⟩
    · exact hnew
    · exact h.knows tx' row' hold
  generalize husers : t.users = users at hmoves
  cases hmoves with
  | idle hidle =>
    refine ⟨husers ▸ h.unique, hquiet ?_, hothers husers ?_⟩
    · rintro id version rfl
      exact absurd hidle (by simp [Phase.idle])
    · unfold Knows
      cases phase <;> trivial
  | found hget hidentity =>
    exact ⟨husers ▸ h.unique, hquiet (by simp), hothers husers ⟨_, hget, hidentity⟩⟩
  | candidate hget hunlinked =>
    exact ⟨husers ▸ h.unique, hquiet (by simp), hothers husers ⟨_, hget, fun _ => rfl⟩⟩
  | @update id user now hphase hnow hfree hconflict =>
    unfold Knows at hknows
    rw [hphase] at hknows
    obtain ⟨now', hnow', hissuer⟩ := hknows
    obtain rfl := Option.some.inj (hnow'.symm.trans hnow)
    have hguard : Free now' row.pair := by
      unfold stillUnlinked at hok
      simp only [hrow, hphase, hnow, Option.all_some, Bool.or_eq_true, Option.isNone_iff_eq_none,
        beq_iff_eq] at hok
      exact hok
    have hversion := identity_link hissuer hguard
    refine ⟨husers ▸ h.unique, ?_, hothers husers ⟨hversion, ⟨now', hnow, hguard⟩, ?_⟩⟩
    · rw [htxs]
      refine h.apart.put fun other held hheld hother => ?_
      have hholds := hfree other held hheld hother
      have hne : ∀ id' version', held.phase = .flushed id' version' →
          id' ≠ id ∧ held.pair ≠ row.pair := by
        intro id' version' hheldPhase
        have hheldKnows := h.knows other held hheld
        unfold Knows at hheldKnows
        rw [hheldPhase] at hheldKnows
        unfold Tx.holds at hholds
        rw [hheldPhase] at hholds
        simp only [hheldKnows.1, hversion, Option.isSome_some, Bool.true_and,
          Bool.or_eq_false_iff, beq_eq_false_iff_ne, ne_eq, Option.some.injEq] at hholds
        exact hholds
      constructor
      · intro id₁ version₁ id' version' hnew hheldPhase
        obtain ⟨rfl, rfl⟩ := Phase.flushed.inj hnew
        exact hne id' version' hheldPhase
      · intro id' version' id₁ version₁ hheldPhase hnew
        obtain ⟨rfl, rfl⟩ := Phase.flushed.inj hnew
        exact ⟨(hne id' version' hheldPhase).1.symm, (hne id' version' hheldPhase).2.symm⟩
    · intro id' user' hget hother hsame
      have hno := Table.any_eq_false_iff.mp hconflict id' user' hget
      simp [hother, hsame, hversion, Tx.pair] at hno
  | @commit id version hphase =>
    refine ⟨husers ▸ unique_put h.unique hphase hknows, hquiet (by simp), ?_⟩
    intro tx' row' hget
    rw [husers]
    rw [htxs] at hget
    rcases Table.get?_put_cases hget with ⟨rfl, rfl⟩ | ⟨hne, hold⟩
    · unfold Knows at hknows
      rw [hphase] at hknows
      exact ⟨version, Table.get?_put_self _ _ _, hknows.1⟩
    · exact knows_put hphase hknows (h.knows tx' row' hold) (h.apart tx tx' row row' hrow hold hne)

theorem inv_step {a : Label} (h : Inv s) (hok : stillUnlinked s a = true)
    (hs : step cfg s a = some t) : Inv t := by
  cases a with
  | signIn tx issuer subject emails =>
    simp only [step] at hs
    split at hs
    · next hnew =>
      obtain rfl := Option.some.inj hs
      refine ⟨h.unique, h.apart.put fun other held _ _ => ⟨?_, ?_⟩, ?_⟩
      · intro id version _ _ hflushed
        exact absurd hflushed (by simp)
      · intro _ _ id version _ hflushed
        exact absurd hflushed (by simp)
      · intro tx' row' hget
        rcases Table.get?_put_cases hget with ⟨rfl, rfl⟩ | ⟨-, hold⟩
        · trivial
        · exact h.knows tx' row' hold
    · exact absurd hs (by simp)
  | next tx =>
    obtain ⟨row, hrow, hs⟩ := Option.bind_eq_some_iff.mp hs
    obtain ⟨phase, htxs, hmoves⟩ := next_moves hs
    exact inv_next h hrow hok htxs hmoves
  | rollback tx =>
    obtain ⟨row, hrow, hs⟩ := Option.bind_eq_some_iff.mp hs
    obtain rfl := Option.some.inj hs
    refine ⟨h.unique, h.apart.remove tx, ?_⟩
    intro tx' row' hget
    exact h.knows tx' row' (Table.get?_remove_eq_some.mp hget).2

/-- No step changes whom a user is bound to. -/
theorem bound_step {a : Label} {id : UserId} {pair : String × String} (h : Inv s)
    (hs : step cfg s a = some t)
    (hbound : ∃ user, s.users.get? id = some user ∧ identity user = some pair) :
    ∃ user, t.users.get? id = some user ∧ identity user = some pair := by
  cases a with
  | signIn tx issuer subject emails =>
    simp only [step] at hs
    split at hs
    · obtain rfl := Option.some.inj hs
      exact hbound
    · exact absurd hs (by simp)
  | rollback tx =>
    obtain ⟨row, hrow, hs⟩ := Option.bind_eq_some_iff.mp hs
    obtain rfl := Option.some.inj hs
    exact hbound
  | next tx =>
    obtain ⟨row, hrow, hs⟩ := Option.bind_eq_some_iff.mp hs
    obtain ⟨phase, -, hmoves⟩ := next_moves hs
    have hknows := h.knows tx row hrow
    generalize t.users = users at hmoves
    cases hmoves with
    | idle => exact hbound
    | found => exact hbound
    | candidate => exact hbound
    | update => exact hbound
    | @commit written version hphase =>
      obtain ⟨user, hget, hidentity⟩ := hbound
      by_cases hsame : id = written
      · subst hsame
        unfold Knows at hknows
        rw [hphase] at hknows
        obtain ⟨hversion, ⟨now, hnow, hfree⟩, -⟩ := hknows
        obtain rfl := Option.some.inj (hnow.symm.trans hget)
        refine ⟨version, Table.get?_put_self _ _ _, ?_⟩
        rcases hfree with hnone | hpair
        · rw [identity_of_unlinked hnone] at hidentity
          exact absurd hidentity (by simp)
        · rw [hversion, ← hpair, hidentity]
      · exact ⟨user, by rwa [Table.get?_put_of_ne _ _ hsame], hidentity⟩

/-- The sign-ins in which every `UPDATE` finds its user still unlinked. -/
abbrev Sequential (cfg : Settings) : State → Prop :=
  (system cfg).ReachableBy fun s a => stillUnlinked s a = true

theorem inv_of_reachable (hr : Sequential cfg s) : Inv s := by
  have hinv : (system cfg).Inductive (fun s a => stillUnlinked s a = true) Inv :=
    { init := by
        rintro s ⟨htxs, hunique⟩
        refine ⟨hunique, ?_, ?_⟩
        · rw [htxs]
          exact Table.pairs_empty _
        · intro tx row hrow
          rw [htxs] at hrow
          exact absurd hrow (by simp)
      step := fun s a t h hok hs => inv_step h hok hs }
  exact hinv.of_reachable hr

/-- What single sign-on promises of a state: an identity has one user, a binding outlives every
sign-in after it, and a sign-in that is over returned the user bound to its identity. -/
def NeverRelinks (cfg : Settings) (ok : State → Label → Prop) (s : State) : Prop :=
  Unique s.users ∧
  (∀ id pair t, (∃ user, s.users.get? id = some user ∧ identity user = some pair) →
    (system cfg).Path ok s t →
      ∃ user, t.users.get? id = some user ∧ identity user = some pair) ∧
  ∀ tx row id newlyLinked, s.txs.get? tx = some row → row.phase = .returned id newlyLinked →
    ∃ user, s.users.get? id = some user ∧ identity user = some (row.issuer, row.subject)

/-- **While each `UPDATE` finds its user still unlinked, nobody is linked again.** -/
theorem never_relinks (hr : Sequential cfg s) :
    NeverRelinks cfg (fun s a => stillUnlinked s a = true) s := by
  have hinv := inv_of_reachable hr
  refine ⟨hinv.unique, ?_, ?_⟩
  · intro id pair t hbound hpath
    exact hpath.stable (I := Inv) (fun s a t h hok hs => inv_step h hok hs)
      (fun s a t h hbound _ hs => bound_step h hs hbound) hinv hbound
  · intro tx row id newlyLinked hrow hphase
    have hknows := hinv.knows tx row hrow
    unfold Knows at hknows
    rw [hphase] at hknows
    exact hknows

/-! Two accounts at the provider with one verified address, and one user. -/

def plainSettings : Settings where
  lower := id
  dbLower := id
  normalize := id

def oneUser : State :=
  { users := Table.put ∅ 1 { username := "ada", passwordHash := "", email := some "ada@x" } }

def signIns : List Label :=
  [.signIn 1 "idp" "first" ["ada@x"], .signIn 2 "idp" "second" ["ada@x"]]

/-- Both find the user before either binds. -/
def overlapping : List Label :=
  signIns ++ [.next 1, .next 2, .next 1, .next 2, .next 1, .next 1, .next 2, .next 2]

/-- The second comes when the first is bound. -/
def inTurn : List Label :=
  signIns ++ [.next 1, .next 1, .next 1, .next 1, .next 2, .next 2]

theorem oneUser_init : (system plainSettings).init oneUser := by
  refine ⟨rfl, ?_⟩
  intro id id' user user' pair hget _ hpair
  rcases Table.get?_put_cases hget with ⟨-, rfl⟩ | ⟨-, hnone⟩
  · exact absurd hpair (by simp [identity])
  · exact absurd hnone (by simp)

theorem never_relinks_inTurn :
    ∃ s, NeverRelinks plainSettings (fun s a => stillUnlinked s a = true) s ∧
      (s.users.get? 1).bind identity = some ("idp", "first") :=
  ⟨_, never_relinks (Lib.System.ReachableBy.of_isSome oneUser_init inTurn rfl), rfl⟩

theorem relinks :
    ¬ ∀ s, (system plainSettings).Reachable s → NeverRelinks plainSettings Lib.anyStep s := by
  intro h
  have hr : (system plainSettings).Reachable _ :=
    Lib.System.ReachableBy.of_isSome oneUser_init overlapping rfl
  obtain ⟨user, hget, hidentity⟩ := (h _ hr).2.2 1 ⟨"idp", "first", .returned 1 true⟩ 1 true rfl rfl
  have hsecond : user.ssoSubject = some "second" := by
    obtain rfl := Option.some.inj hget
    rfl
  rw [(eq_of_identity hidentity).2] at hsecond
  exact absurd hsecond (by decide)

/-! ## One sign-in at a time -/

def Phase.ended : Phase → Bool
  | .returned _ _ | .failed _ => true
  | _ => false

/-- A sign-in begins when every other has ended. -/
def oneAtATime (s : State) : Label → Bool
  | .signIn _ _ _ _ => s.txs.all fun _ row => row.phase.ended
  | _ => true

/-- The user it found by address is as it was loaded. -/
def Saw (users : Table UserId User) (row : Tx) : Prop :=
  ∀ id user, row.phase = .linking id user →
    ∃ now, users.get? id = some now ∧ now.ssoSubject = none

/-- At most one sign-in is open. -/
abbrev Alone (s : State) : Prop := Serial (fun row => row.phase.ended) (Saw s.users) s.txs

theorem Moves.saw {tx : Nat} {row : Tx} {phase : Phase} {users : Table UserId User}
    (h : Moves s tx row phase users) (hopen : phase.ended = false) :
    Saw users { row with phase := phase } := by
  rintro id user rfl
  cases h with
  | idle hidle => exact absurd hidle (by simp [Phase.idle])
  | candidate hget hunlinked => exact ⟨_, hget, hunlinked⟩

theorem alone_step {a : Label} (h : Alone s) (hok : oneAtATime s a = true)
    (hs : step cfg s a = some t) : Alone t := by
  cases a with
  | signIn tx issuer subject emails =>
    simp only [step] at hs
    split at hs
    · obtain rfl := Option.some.inj hs
      refine Serial.begin hok fun _ id user hphase => ?_
      exact absurd hphase (by simp)
    · exact absurd hs (by simp)
  | next tx =>
    obtain ⟨row, hrow, hs⟩ := Option.bind_eq_some_iff.mp hs
    obtain ⟨phase, htxs, hmoves⟩ := next_moves hs
    have hopen : row.phase.ended = false := by
      cases hphase : row.phase with
      | returned id newlyLinked => simp [nextStatement, hphase] at hs
      | failed error => simp [nextStatement, hphase] at hs
      | _ => rfl
    unfold Alone
    rw [htxs]
    exact h.move hrow hopen hmoves.saw
  | rollback tx =>
    obtain ⟨row, -, hs⟩ := Option.bind_eq_some_iff.mp hs
    obtain rfl := Option.some.inj hs
    exact h.remove tx

theorem stillUnlinked_of_alone {a : Label} (h : Alone s) : stillUnlinked s a = true := by
  cases a with
  | signIn tx issuer subject emails => rfl
  | rollback tx => rfl
  | next tx =>
    simp only [stillUnlinked]
    cases hrow : s.txs.get? tx with
    | none => rfl
    | some row =>
      rw [Option.all_some]
      split
      · next id user hphase =>
        obtain ⟨now, hnow, hunlinked⟩ := h.knows tx row hrow (by rw [hphase]; rfl) id user hphase
        rw [hnow, Option.all_some, hunlinked]
        rfl
      · rfl

/-- **Sign-ins that don't overlap find their users still unlinked.** -/
theorem stillUnlinked_of_oneAtATime
    (hr : (system cfg).ReachableBy (fun s a => oneAtATime s a = true) s) : Sequential cfg s := by
  have halone : (system cfg).Inductive (fun s a => oneAtATime s a = true) Alone :=
    { init := by
        rintro s ⟨htxs, -⟩
        unfold Alone
        rw [htxs]
        exact Serial.empty
      step := fun s a t h hok hs => alone_step h hok hs }
  exact hr.within halone fun s a h _ => stillUnlinked_of_alone h

end Sso

end AnsiDeck
