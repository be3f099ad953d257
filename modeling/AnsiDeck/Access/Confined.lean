import AnsiDeck.Access.Vouched

/-!
# Nobody gives themselves power over a project

A group of people none of whom administers a project (nor everything), together with every API key
there is, changes nothing of who may do what in it: not by their own requests, not for one another,
in no order. What a request may do is settled when its principal and its roles are read, so the
invariant says of every request in flight what it was let through with.
-/

namespace AnsiDeck

namespace Access

open Lib (Dict Str Table)
open Lib.System (Path)
open Permission

variable {cfg : Settings} {le : String → String → Bool} {p : ProjectId}

/-- An active user who is an administrator, of everything or of the project. -/
def Administers (db : Database) (id : UserId) (p : ProjectId) : Prop :=
  ∃ user, db.users.get? id = some user ∧ user.isActive = true ∧
    (user.role = .admin ∨ db.members.get? (p, id) = some "admin")

/-- Whoever signs in is of the group. Any API key may be used. -/
def FromGroup (G : UserId → Prop) (_ : State) : Label → Prop
  | .request _ (.cookie session) _ _ => G session.userId
  | _ => True

instance {G : UserId → Prop} [DecidablePred G] (s : State) (a : Label) :
    Decidable (FromGroup G s a) := by
  unfold FromGroup
  split <;> infer_instance

/-! ## What stays of a project -/

/-- Only when and from where it was last used differs. -/
def SameButUsed (key key' : ApiKey) : Prop :=
  ∃ lastUsedAt lastUsedIp, key' = { key with lastUsedAt := lastUsedAt, lastUsedIp := lastUsedIp }

/-- What may become of a key: it is used, and pruned once it is revoked or expired. -/
inductive KeyLater (now : Time) : Option ApiKey → Option ApiKey → Prop
  | absent : KeyLater now none none
  | used {key key' : ApiKey} : SameButUsed key key' → KeyLater now (some key) (some key')
  | pruned {key : ApiKey} : keyStatus key now ≠ .active → KeyLater now (some key) none

/-- Every user's standing, the projects, and the project's members and keys, some time later. -/
structure Untouched (p : ProjectId) (db db' : Database) : Prop where
  now : db.now ≤ db'.now
  users : ∀ id, (db'.users.get? id).map standing = (db.users.get? id).map standing
  projects : ∀ id, db'.projects.get? id = db.projects.get? id
  members : ∀ id, db'.members.get? (p, id) = db.members.get? (p, id)
  keys : ∀ id, KeyLater db'.now (keyOf db p id) (keyOf db' p id)

theorem SameButUsed.refl (key : ApiKey) : SameButUsed key key := ⟨_, _, rfl⟩

theorem SameButUsed.trans {key key' key'' : ApiKey} (h : SameButUsed key key')
    (h' : SameButUsed key' key'') : SameButUsed key key'' := by
  obtain ⟨_, _, rfl⟩ := h
  obtain ⟨_, _, rfl⟩ := h'
  exact ⟨_, _, rfl⟩

theorem keyStatus_later {key key' : ApiKey} {now now' : Time} (h : SameButUsed key key')
    (hnow : now ≤ now') (hactive : keyStatus key' now ≠ .active) :
    keyStatus key now' ≠ .active := by
  obtain ⟨_, _, rfl⟩ := h
  unfold keyStatus at hactive ⊢
  dsimp only at hactive
  split
  · exact fun h => by cases h
  · next hnot =>
    rw [if_neg hnot] at hactive
    split at hactive
    · next hexpired =>
      rw [if_pos (hexpired.trans hnow)]
      exact fun h => by cases h
    · exact absurd rfl hactive

theorem KeyLater.refl (now : Time) (key : Option ApiKey) : KeyLater now key key := by
  cases key with
  | none => exact .absent
  | some key => exact .used (.refl key)

theorem KeyLater.trans {now now' : Time} {a b c : Option ApiKey} (hnow : now ≤ now')
    (h : KeyLater now a b) (h' : KeyLater now' b c) : KeyLater now' a c := by
  cases h with
  | absent => exact h'
  | used hsame =>
    cases h' with
    | used hsame' => exact .used (hsame.trans hsame')
    | pruned hactive => exact .pruned (keyStatus_later hsame (Nat.le_refl _) hactive)
  | pruned hactive =>
    cases h' with
    | absent => exact .pruned (keyStatus_later (.refl _) hnow hactive)

theorem Untouched.refl (db : Database) : Untouched p db db :=
  ⟨Nat.le_refl _, fun _ => rfl, fun _ => rfl, fun _ => rfl, fun _ => .refl ..⟩

theorem Untouched.trans {db db' db'' : Database} (h : Untouched p db db')
    (h' : Untouched p db' db'') : Untouched p db db'' where
  now := h.now.trans h'.now
  users id := (h'.users id).trans (h.users id)
  projects id := (h'.projects id).trans (h.projects id)
  members id := (h'.members id).trans (h.members id)
  keys id := .trans h'.now (h.keys id) (h'.keys id)

theorem Kept.untouched {db db' : Database} (h : Kept p db db') : Untouched p db db' where
  now := h.now.le
  users := h.users
  projects := h.projects
  members := h.members
  keys id := by
    rw [h.keys id]
    exact .refl ..

/-- A key that is used is the same key. -/
theorem untouched_put {db : Database} {id : ApiKeyId} {key key' : ApiKey}
    (hget : db.keys.get? id = some key) (h : SameButUsed key key') :
    Untouched p db { db with keys := db.keys.put id key' } := by
  refine { Untouched.refl db with keys := fun i => ?_ }
  by_cases hi : i = id
  · subst hi
    have hproject : key'.projectId = key.projectId := by
      obtain ⟨_, _, rfl⟩ := h
      rfl
    unfold keyOf
    rw [hget, Table.get?_put_self]
    by_cases hp : key.projectId = p
    · rw [Option.filter_some_pos (by simpa using hp),
        Option.filter_some_pos (by simpa [hproject] using hp)]
      exact .used h
    · rw [Option.filter_some_neg (by simpa using hp),
        Option.filter_some_neg (by simpa [hproject] using hp)]
      exact .absent
  · unfold keyOf
    rw [Table.get?_put_of_ne _ _ hi]
    exact .refl ..

theorem sameButUsed_touched (db : Database) (ip : Str) (key : ApiKey) :
    SameButUsed key (touched db ip key) := by
  unfold touched
  split
  · exact ⟨_, _, rfl⟩
  · exact .refl key

theorem untouched_authenticateApiKey (cfg : Settings) (p : ProjectId) (db : Database)
    (token ip : Str) :
    Untouched p db (authenticateApiKey cfg db token ip).2 := by
  unfold authenticateApiKey
  split
  · exact .refl db
  · next hcheck => exact untouched_put (works_of_checkKey hcheck).get? (sameButUsed_touched db ip _)

theorem untouched_getCurrentUser (cfg : Settings) (p : ProjectId) (db : Database)
    (credential : Credential) (ip : Str) :
    Untouched p db (getCurrentUser cfg db credential ip).2 := by
  cases credential with
  | nothing => exact .refl db
  | cookie session =>
    unfold getCurrentUser
    dsimp only
    split <;> exact .refl db
  | bearer token =>
    have hkey := untouched_authenticateApiKey cfg p db token ip
    unfold getCurrentUser
    dsimp only
    split <;> rename_i heq <;> rw [heq] at hkey <;> exact hkey

theorem not_active_of_prunable {key : ApiKey} {now : Time} {retentionDays : Nat}
    (h : prunable now retentionDays key = true) : keyStatus key now ≠ .active := by
  unfold prunable at h
  unfold keyStatus
  cases hrevoked : key.revokedAt with
  | some at_ => simp
  | none =>
    rw [hrevoked, Option.getD_none, decide_eq_true_eq] at h
    have hexpired : key.expiresAt ≤ now := (Nat.le_add_right ..).trans h.le
    simp [hexpired]

theorem untouched_pruneKeys (db : Database) (retentionDays : Nat) :
    Untouched p db (pruneKeys db retentionDays) := by
  unfold pruneKeys
  split
  · exact .refl db
  · refine { Untouched.refl db with keys := fun id => ?_ }
    unfold keyOf
    rw [Table.get?_deleteWhere, Option.filter_filter]
    cases hget : db.keys.get? id with
    | none => exact .absent
    | some key =>
      by_cases hp : key.projectId = p
      · rw [Option.filter_some_pos (by simpa using hp)]
        by_cases hprune : prunable db.now retentionDays key = true
        · rw [Option.filter_some_neg (by simp [hprune])]
          exact .pruned (not_active_of_prunable hprune)
        · rw [Option.filter_some_pos (by simp [hprune, hp])]
          exact .refl ..
      · rw [Option.filter_some_neg (by simpa using hp), Option.filter_some_neg (by simp [hp])]
        exact .absent

/-! ## Runs -/

/-- What a request in flight was let through with: no power over the project as it was at first. -/
def Harmless (p : ProjectId) (db : Database) (row : Tx) : Prop :=
  match row.phase with
  | .authenticated user => user.apiKeyId.isSome = true ∨
      isGlobalAdmin user = false ∧ user.projectRoles = none ∧
        ∃ id, user.id = some id ∧ db.members.get? (p, id) ≠ some "admin"
  | .guarded user => row.call.required ∉ globalOnly ∧ isGlobalAdmin user = false ∧
      ∃ roles, user.projectRoles = some roles ∧ roles.get? p ≠ some "admin"
  | .answered _ => True

structure Inv (p : ProjectId) (db : Database) (s : State) : Prop where
  untouched : Untouched p db s.db
  txs : ∀ tx row, s.txs.get? tx = some row → Harmless p db row

/-- Whoever administers the project now did so at first. -/
theorem Untouched.administers {db db' : Database} (h : Untouched p db db') {id : UserId}
    (hpow : ¬ Administers db id p) {user : User} (hget : db'.users.get? id = some user)
    (hactive : user.isActive = true) :
    user.role ≠ .admin ∧ db.members.get? (p, id) ≠ some "admin" := by
  have hstanding := h.users id
  rw [hget, Option.map_some, eq_comm, Option.map_eq_some_iff] at hstanding
  obtain ⟨before, hbefore, heq⟩ := hstanding
  simp only [standing, Prod.mk.injEq] at heq
  obtain ⟨-, hrole, hwas⟩ := heq
  rw [hactive] at hwas
  refine ⟨fun hadmin => hpow ⟨before, hbefore, hwas, .inl (hrole.trans hadmin)⟩, fun hmember => ?_⟩
  exact hpow ⟨before, hbefore, hwas, .inr hmember⟩

/-- A request that was authenticated, of somebody without power or of a key. -/
theorem harmless_getCurrentUser {G : UserId → Prop} {s : State} {db : Database}
    {credential : Credential} {ip : Str} (tx : Nat) (call : Call) {user : Principal}
    (hpow : ∀ id, G id → ¬ Administers db id p) (hinv : Inv p db s)
    (hfrom : FromGroup G s (.request tx credential ip call))
    (h : (getCurrentUser cfg s.db credential ip).1 = .ok user) :
    Harmless p db ⟨credential.session, call, .authenticated user⟩ := by
  cases credential with
  | nothing => cases h
  | bearer token =>
    refine .inl ?_
    unfold getCurrentUser authenticateApiKey at h
    dsimp only at h
    cases hcheck : checkKey cfg s.db token ip with
    | error reason =>
      rw [hcheck] at h
      cases h
    | ok found =>
      rw [hcheck] at h
      obtain rfl := Except.ok.inj h
      rfl
  | cookie session =>
    refine .inr ?_
    unfold getCurrentUser authenticateToken at h
    dsimp only at h
    split at h
    · cases h
    · next hsome =>
      obtain rfl := Except.ok.inj h
      split at hsome
      · obtain ⟨hprincipal, hgood⟩ := Option.filter_eq_some_iff.1 hsome
        obtain ⟨account, haccount, rfl⟩ := Option.map_eq_some_iff.1 hprincipal
        obtain ⟨row, hrow, rfl⟩ := Option.map_eq_some_iff.1 haccount
        simp only [Bool.and_eq_true] at hgood
        obtain ⟨hrole, hmember⟩ :=
          hinv.untouched.administers (hpow _ hfrom) hrow hgood.1
        refine ⟨?_, rfl, session.userId, rfl, hmember⟩
        simpa [isGlobalAdmin] using hrole
      · cases hsome

/-- What the guard lets through reads the roles there are. -/
theorem harmless_guard {db db' : Database} {session : Option Session} {call : Call}
    {user guarded : Principal} (hunt : Untouched p db db')
    (hharm : Harmless p db ⟨session, call, .authenticated user⟩)
    (h : guard cfg db' user session call.required = .ok guarded) :
    Harmless p db ⟨session, call, .guarded guarded⟩ := by
  unfold guard at h
  split at h
  · cases h
  · next hkey =>
    split at h
    · cases h
    · split at h
      · cases h
      · next hholds =>
        obtain rfl := Except.ok.inj h
        obtain hkey' | ⟨hadmin, hroles, id, hid, hmember⟩ := hharm
        · exact absurd hkey' hkey
        refine ⟨fun hglobal => ?_, hadmin, _, rfl, fun hrole => ?_⟩
        · rw [not_holdsSomewhere_of_globalOnly hglobal hadmin] at hholds
          exact hholds rfl
        · unfold userProjectRoles at hrole
          rw [hroles, hid] at hrole
          rw [← hunt.members id] at hmember
          exact hmember (get?_memberRoles hrole)

/-- A request goes on, with the database a later one. -/
theorem Inv.putTx {db db' : Database} {s : State} (h : Inv p db s) (hdb : Untouched p s.db db')
    {tx : Nat} {row : Tx} {phase : Phase} (hharm : Harmless p db { row with phase := phase }) :
    Inv p db (putTx { s with db := db' } tx row phase) where
  untouched := h.untouched.trans hdb
  txs tx' row' hget := by
    rcases Table.get?_put_cases hget with ⟨-, rfl⟩ | ⟨-, hget⟩
    · exact hharm
    · exact h.txs tx' row' hget

/-- Nothing but the database changes. -/
theorem Inv.later {db db' : Database} {s : State} (h : Inv p db s) (hdb : Untouched p s.db db') :
    Inv p db { s with db := db' } where
  untouched := h.untouched.trans hdb
  txs := h.txs

theorem inv_step {G : UserId → Prop} {db : Database} {s t : State} {a : Label}
    (hpow : ∀ id, G id → ¬ Administers db id p) (hinv : Inv p db s) (hfrom : FromGroup G s a)
    (h : step cfg le s a = some t) : Inv p db t := by
  cases a with
  | request tx credential ip call =>
    have hdb := untouched_getCurrentUser cfg p s.db credential ip
    have hharm : ∀ user, (getCurrentUser cfg s.db credential ip).1 = .ok user → _ := fun user =>
      harmless_getCurrentUser tx call hpow hinv hfrom
    simp only [step] at h
    split at h
    · cases h
    · split at h <;> rename_i heq <;> rw [heq] at hdb hharm <;> obtain rfl := Option.some.inj h
      · exact hinv.putTx hdb trivial
      · exact hinv.putTx hdb (hharm _ rfl)
  | guard tx =>
    simp only [step] at h
    split at h
    · next hget =>
      split at h <;> rename_i hguard <;> obtain rfl := Option.some.inj h
      · exact hinv.putTx (.refl _) trivial
      · exact hinv.putTx (.refl _) (harmless_guard hinv.untouched (hinv.txs _ _ hget) hguard)
    · cases h
  | handle tx =>
    simp only [step] at h
    split at h
    · next hget =>
      obtain ⟨hrequired, hadmin, roles, hroles, hrole⟩ := hinv.txs _ _ hget
      split at h
      · cases h
      · next hunused =>
        split at h <;> rename_i hhandle <;> obtain rfl := Option.some.inj h
        · exact hinv.putTx (.refl _) trivial
        · refine hinv.putTx (kept_effect ⟨hadmin, ?_⟩ hrequired ?_
            (effect_handle hhandle)).untouched trivial
          · rwa [userProjectRoles, hroles]
          · simpa using hunused
    · cases h
  | rollback tx =>
    obtain rfl := Option.some.inj h
    exact ⟨hinv.untouched, fun tx' row' hget =>
      hinv.txs tx' row' (Table.get?_remove_eq_some.1 hget).2⟩
  | account userId user passkeys =>
    simp only [step] at h
    split at h
    · cases h
    · next row hrow =>
      split at h
      · next hsame =>
        obtain rfl := Option.some.inj h
        refine hinv.later { Untouched.refl s.db with users := fun id => ?_ }
        rw [Table.get?_put]
        split
        · next hid =>
          rw [hid, hrow]
          simpa [sameStanding, standing, and_assoc] using hsame
        · rfl
      · cases h
  | item kind id item =>
    obtain rfl := Option.some.inj h
    exact hinv.later ⟨Nat.le_refl _, fun _ => rfl, fun _ => rfl, fun _ => rfl, fun _ => .refl ..⟩
  | tick =>
    obtain rfl := Option.some.inj h
    exact hinv.later ⟨Nat.le_succ _, fun _ => rfl, fun _ => rfl, fun _ => rfl, fun _ => .refl ..⟩
  | prune retentionDays =>
    obtain rfl := Option.some.inj h
    exact hinv.later (untouched_pruneKeys s.db retentionDays)

/-- **No group of people without power over a project, with any API keys, changes who has it.**
Every user's role and whether they are active stay, and so do the projects and the project's
members; its keys are only used, and pruned when they are revoked or expired. -/
theorem no_escalation {G : UserId → Prop} {s t : State} (hinit : (system cfg le).init s)
    (hpow : ∀ id, G id → ¬ Administers s.db id p)
    (hrun : Path (system cfg le) (FromGroup G) s t) : Untouched p s.db t.db := by
  have hinv : Inv p s.db s :=
    ⟨.refl s.db, fun tx row hget => by rw [hinit.1] at hget; simp at hget⟩
  suffices Inv p s.db t from this.untouched
  generalize hdb : s.db = db at hpow hinv ⊢
  clear hinit hdb
  induction hrun with
  | refl => exact hinv
  | tail _ hfrom hstep ih => exact inv_step hpow ih hfrom hstep

/-! ## A run -/

/-- Ada administers project 1, and is an operator of project 2, that Grace administers. -/
def twoProjects : State where
  db :=
    { now := 10
      users := ((∅ : Table UserId User).put 1 { username := "ada", passwordHash := "" }).put 2
        { username := "grace", passwordHash := "" }
      projects := ((∅ : Table ProjectId Project).put 1 { name := "a", createdAt := 0 }).put 2
        { name := "b", createdAt := 0 }
      members := (((∅ : Members).put (1, 1) "admin").put (2, 1) "operator").put (2, 2) "admin" }

/-- Ada adds Grace to her own project, and tries to make herself an administrator of the other. -/
def adas : List Label :=
  [.request 0 (.cookie { userId := 1, sessionVersion := 0, issuedAt := 5 }) []
      (.addMemberByUsername 1 "grace" .viewer), .guard 0, .handle 0,
    .request 1 (.cookie { userId := 1, sessionVersion := 0, issuedAt := 5 }) []
      (.setMember 2 1 .admin), .guard 1, .handle 1]

theorem twoProjects_run :
    ((system plainSettings (fun _ _ => true)).run (FromGroup (· = 1)) twoProjects adas).isSome
      = true := by decide

theorem no_escalation_twoProjects :
    Untouched 2 twoProjects.db
      (((system plainSettings (fun _ _ => true)).run (FromGroup (· = 1)) twoProjects adas).get
        twoProjects_run).db := by
  refine @no_escalation plainSettings (fun _ _ => true) 2 (· = 1) twoProjects _
    ⟨rfl, Table.pairs_empty _⟩ ?_
    (.of_run (Option.some_get twoProjects_run).symm)
  rintro id rfl ⟨user, hget, -, hadmin⟩
  obtain rfl : user = { username := "ada", passwordHash := "" } :=
    Option.some.inj (hget.symm.trans (by decide))
  exact absurd hadmin (by decide)

end Access

end AnsiDeck
