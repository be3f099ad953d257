import AnsiDeck.Access.Powerless

/-!
# An API key has somebody who vouches for it

A key only works while it is neither revoked nor expired and its creator may still manage the
project's keys, and it gives nothing that its creator doesn't have there. Once it is revoked or
expired, or its creator is deleted, its token never works again: no request sets a date back or
gives the key another creator, and a pruned key's prefix comes back with another token.
-/

namespace AnsiDeck

namespace Access

open Lib (Dict Str Table str)
open Lib.System (Path)
open Permission

variable {cfg : Settings} {le : String → String → Bool}

/-! ## What a key needs -/

/-- What the check of a token found. -/
structure Works (cfg : Settings) (db : Database) (token ip : Str) (id : ApiKeyId) (key : ApiKey) :
    Prop where
  get? : db.keys.get? id = some key
  shownPrefix : parsePrefix token = some key.shownPrefix
  hash : cfg.hashToken token = key.tokenHash
  active : keyStatus key db.now = .active
  creator : creatorProblem db key = none
  address : addressAllowed key ip = true

theorem works_of_checkKey {db : Database} {token ip : Str} {id : ApiKeyId} {key : ApiKey}
    (h : checkKey cfg db token ip = .ok (id, key)) : Works cfg db token ip id key := by
  unfold checkKey at h
  split at h
  · cases h
  · next hparse =>
    split at h
    · cases h
    · next hfound =>
      obtain ⟨hget, hshown⟩ := Table.mem_rows.1 (List.mem_of_head? hfound)
      split at h
      · cases h
      · next hhash =>
        split at h
        · cases h
        · next hactive =>
          split at h
          · cases h
          · next hcreator =>
            split at h
            · next haddress =>
              obtain ⟨rfl, rfl⟩ := Prod.mk.inj (Except.ok.inj h)
              rw [beq_iff_eq] at hshown
              exact ⟨hget, hshown ▸ hparse, not_not.1 hhash, not_not.1 hactive, hcreator, haddress⟩
            · cases h

theorem keyStatus_active {key : ApiKey} {now : Time} :
    keyStatus key now = .active ↔ key.revokedAt = none ∧ now < key.expiresAt := by
  unfold keyStatus
  cases key.revokedAt with
  | some at_ => simp
  | none => simp

/-- The creator is an active user who manages the project's keys. -/
theorem creator_of_vouched {db : Database} {key : ApiKey} (h : creatorProblem db key = none) :
    ∃ id creator, key.createdById = some id ∧ db.principal? id = some creator ∧
      creator.account.user.isActive = true ∧
      apiKeysManage ∈ projectPermissions db.members creator key.projectId := by
  unfold creatorProblem at h
  split at h
  · cases h
  · next hsome =>
    obtain ⟨id, hid, hprincipal⟩ := Option.bind_eq_some_iff.1 hsome
    split at h
    · cases h
    · next hactive =>
      split at h
      · cases h
      · next hmanages =>
          exact ⟨id, _, hid, hprincipal, by simpa using hactive, by simpa using hmanages⟩

/-- What a preset gives is what every administrator of the project has. -/
theorem keyRole_le {preset : String} {permission : Permission}
    (h : permission ∈ projectRolePermissions (keyRole preset)) :
    permission ∈ projectRolePermissions "admin" := by
  have hnone : Role.ofValue? (keyRole preset) = none := by
    unfold Role.ofValue? keyRole
    rw [List.find?_eq_none]
    intro r _ hvalue
    have hchars := congrArg (fun s => s.toList.head?) (beq_iff_eq.1 hvalue)
    rw [String.toList_append] at hchars
    cases r <;> exact absurd hchars (by simp [Role.value])
  unfold projectRolePermissions at h
  rw [hnone] at h
  split at h
  · next permissions hkey =>
    unfold keyRolePermissions at hkey
    split at hkey
    · obtain rfl := Option.some.inj hkey
      revert h
      cases permission <;> decide
    · split at hkey
      · obtain rfl := Option.some.inj hkey
        revert h
        cases permission <;> decide
      · cases hkey
  · exact absurd h (by simp)

theorem keyRole_ne_empty (preset : String) : keyRole preset ≠ "" := by
  intro h
  have hchars := congrArg String.toList h
  rw [keyRole, String.toList_append] at hchars
  exact absurd hchars (by simp)

/-- A key's principal has something in the key's project only. -/
theorem projectPermissions_principalFor {members : Members} {id : ApiKeyId} {key : ApiKey}
    {q : ProjectId} {permission : Permission}
    (h : permission ∈ projectPermissions members (principalFor id key) q) :
    q = key.projectId ∧ permission ∈ projectRolePermissions (keyRole key.preset) := by
  unfold projectPermissions at h
  rw [show isGlobalAdmin (principalFor id key) = false from rfl, if_neg Bool.false_ne_true] at h
  have hroles : (userProjectRoles members (principalFor id key)).get? q
      = if q = key.projectId then some (keyRole key.preset) else none := by
    unfold userProjectRoles principalFor
    rw [Option.getD_some, Dict.get?_set]
    rfl
  rw [hroles] at h
  by_cases hq : q = key.projectId
  · rw [if_pos hq] at h
    dsimp only at h
    rw [if_neg (keyRole_ne_empty key.preset)] at h
    exact ⟨hq, h⟩
  · rw [if_neg hq] at h
    exact absurd h (by simp)

/-- Whoever manages a project's keys has there what any preset gives. -/
theorem keyRole_le_creator {members : Members} {creator : Principal} {q : ProjectId}
    {preset : String} {permission : Permission}
    (hmanages : apiKeysManage ∈ projectPermissions members creator q)
    (h : permission ∈ projectRolePermissions (keyRole preset)) :
    permission ∈ projectPermissions members creator q := by
  cases hadmin : isGlobalAdmin creator with
  | true =>
    unfold projectPermissions
    rw [hadmin, if_pos rfl]
    exact mem_all permission
  | false =>
    have hrole := role_of_managing (by decide) hadmin hmanages
    unfold projectPermissions
    rw [hadmin, if_neg Bool.false_ne_true, hrole]
    exact keyRole_le h

/-- Who vouches for a request that a key makes. -/
structure Vouched (db : Database) (user : Principal) (id : ApiKeyId) (key : ApiKey) : Prop where
  principal : user.apiKeyId = some id
  creator : ∃ creatorId creator, key.createdById = some creatorId ∧
    db.principal? creatorId = some creator ∧ creator.account.user.isActive = true ∧
    ∀ members q permission, permission ∈ projectPermissions members user q →
      q = key.projectId ∧ permission ∈ projectPermissions db.members creator q

theorem vouched_principalFor {db : Database} {id : ApiKeyId} {key : ApiKey}
    (h : creatorProblem db key = none) : Vouched db (principalFor id key) id key := by
  obtain ⟨creatorId, creator, hid, hprincipal, hactive, hmanages⟩ := creator_of_vouched h
  refine ⟨rfl, creatorId, creator, hid, hprincipal, hactive, fun members q permission hmem => ?_⟩
  obtain ⟨rfl, hrole⟩ := projectPermissions_principalFor hmem
  exact ⟨rfl, keyRole_le_creator hmanages hrole⟩

/-- What a request with a token becomes. -/
theorem bearer_cases {s t : State} {tx : Nat} {token ip : Str} {call : Call}
    (h : step cfg le s (.request tx (.bearer token) ip call) = some t) :
    (∃ reason, checkKey cfg s.db token ip = .error reason ∧
        t.txs.get? tx = some ⟨none, call, .answered (.error ⟨401, "Invalid API key"⟩)⟩) ∨
      ∃ id key, checkKey cfg s.db token ip = .ok (id, key) ∧
        t.txs.get? tx = some ⟨none, call, .authenticated (principalFor id key)⟩ := by
  cases hcheck : checkKey cfg s.db token ip with
  | error reason =>
    simp only [step, getCurrentUser, authenticateApiKey, hcheck] at h
    split at h
    · cases h
    · obtain rfl := Option.some.inj h
      exact .inl ⟨reason, rfl, Table.get?_put_self ..⟩
  | ok found =>
    simp only [step, getCurrentUser, authenticateApiKey, hcheck] at h
    split at h
    · cases h
    · obtain rfl := Option.some.inj h
      exact .inr ⟨found.1, found.2, rfl, Table.get?_put_self ..⟩

/-- **A key works as long as its creator vouches for it, and gives nothing its creator hasn't.** The
request of a token that is let in is of a key that is neither revoked nor expired and may be used
from where it is; whatever it may do in any project, the key's creator, an active user, may do there
at that moment, and the project is the key's. -/
theorem key_vouched {s t : State} {tx : Nat} {token ip : Str} {call : Call} {row : Tx}
    {user : Principal} (hstep : step cfg le s (.request tx (.bearer token) ip call) = some t)
    (hrow : t.txs.get? tx = some row) (hphase : row.phase = .authenticated user) :
    ∃ id key, Works cfg s.db token ip id key ∧ Vouched s.db user id key := by
  obtain ⟨reason, -, hget⟩ | ⟨id, key, hcheck, hget⟩ := bearer_cases hstep
  · rw [hget] at hrow
    obtain rfl := Option.some.inj hrow
    cases hphase
  · rw [hget] at hrow
    obtain rfl := Option.some.inj hrow
    cases hphase
    have hworks := works_of_checkKey hcheck
    exact ⟨id, key, hworks, vouched_principalFor hworks.creator⟩

def plainSettings : Settings where
  users := ⟨id, id, id⟩
  verifyPassword := (· == ·)
  strip := id
  unicode := .ascii
  repr := fun _ => ""
  hashToken := fun token => String.ofList (token.map Char.ofNat)
  yamlError := fun _ => none

/-- Ada administers the project, and has made a key for it. -/
def keyed : State where
  db :=
    { now := 10
      users := (∅ : Table UserId User).put 1 { username := "ada", passwordHash := "" }
      projects := (∅ : Table ProjectId Project).put 1 { name := "a", createdAt := 0 }
      members := (∅ : Members).put (1, 1) "admin"
      keys := (∅ : Table ApiKeyId ApiKey).put 1
        { projectId := 1, name := "ci", preset := "trigger", shownPrefix := str "0123abcd"
          tokenHash := "ansd_0123abcd_s", createdBy := "ada", createdById := some 1
          createdAt := 0, expiresAt := 1000 } }

/-- The request of the pipeline that has the token. -/
def pipeline : Label :=
  .request 0 (.bearer (str "ansd_0123abcd_s")) (str "192.0.2.1") (.listPlaybooks none)

theorem keyed_step : (step plainSettings (fun _ _ => true) keyed pipeline).isSome = true := by
  decide

theorem key_vouched_keyed :
    ∃ user, ∃ id key, Works plainSettings keyed.db (str "ansd_0123abcd_s")
    (str "192.0.2.1") id key ∧
      Vouched keyed.db user id key := by
  obtain ⟨reason, hcheck, -⟩ | ⟨id, key, -, hget⟩ :=
    bearer_cases (Option.some_get keyed_step).symm
  · have hworks : (checkKey plainSettings keyed.db (str "ansd_0123abcd_s")
        (str "192.0.2.1")).isOk = true := by decide
    rw [hcheck] at hworks
    cases hworks
  · exact ⟨_, key_vouched (Option.some_get keyed_step).symm hget rfl⟩

end Access

end AnsiDeck
