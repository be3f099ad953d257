import AnsiDeck.Access.System

/-!
# What a handler can write

One case for each kind of write, with what the handler checked before it: the permission that the
principal has in the project, and which rows there were. Whatever holds of every write holds of
every request (`effect_handle`), and nothing later looks into a handler for it.
-/

namespace AnsiDeck

namespace Access

open Lib (Dict Str Table)
open Permission

variable {cfg : Settings} {le : String → String → Bool}

/-- What becomes of a key's row: its revocation and its end stay, and nobody else becomes its
creator. -/
structure ApiKey.Evolves (key key' : ApiKey) : Prop where
  projectId : key'.projectId = key.projectId
  shownPrefix : key'.shownPrefix = key.shownPrefix
  tokenHash : key'.tokenHash = key.tokenHash
  expiresAt : key'.expiresAt = key.expiresAt
  revokedAt : key.revokedAt.isSome = true → key'.revokedAt = key.revokedAt
  createdById : key'.createdById = key.createdById ∨ key'.createdById = none

/-- A key that a handler makes. -/
structure ApiKey.Made (cfg : Settings) (db : Database) (fresh : NewToken)
    (key : ApiKey) : Prop where
  shownPrefix : key.shownPrefix = fresh.shownPrefix
  tokenHash : key.tokenHash = cfg.hashToken fresh.token
  unique : ∀ id other, db.keys.get? id = some other → other.shownPrefix ≠ key.shownPrefix

/-- The principal may do it in the project. -/
def Allowed (db : Database) (actor : Principal) (permission : Permission) (q : ProjectId) : Prop :=
  permission ∈ projectPermissions db.members actor q

inductive Effect (cfg : Settings) (db : Database) (actor : Principal)
    (call : Call) : Database → Prop
  | nothing : Effect cfg db actor call db
  | member {q : ProjectId} {target : UserId} {role : String}
      (hallowed : Allowed db actor membersManage q) :
      Effect cfg db actor call { db with members := db.members.put (q, target) role }
  | memberGone {q : ProjectId} {target : UserId} (hallowed : Allowed db actor membersManage q) :
      Effect cfg db actor call { db with members := db.members.remove (q, target) }
  | playbookMade {id : Nat} {playbook : Playbook}
      (hcall : call.unused db = true → db.playbooks.get? id = none)
      (hallowed : Allowed db actor contentWrite playbook.projectId) :
      Effect cfg db actor call { db with playbooks := db.playbooks.put id playbook }
  | playbook {id : Nat} {old playbook : Playbook} (hget : db.playbooks.get? id = some old)
      (hproject : playbook.projectId = old.projectId)
      (hallowed : Allowed db actor contentWrite old.projectId) :
      Effect cfg db actor call { db with playbooks := db.playbooks.put id playbook }
  | playbookGone {id : Nat} {old : Playbook} (hget : db.playbooks.get? id = some old)
      (hallowed : Allowed db actor contentWrite old.projectId) :
      Effect cfg db actor call { db with playbooks := db.playbooks.remove id }
  | key {id : ApiKeyId} {old key : ApiKey} (hget : db.keys.get? id = some old)
      (hevolves : old.Evolves key) (hallowed : Allowed db actor apiKeysManage old.projectId) :
      Effect cfg db actor call { db with keys := db.keys.put id key }
  | keyMade {fresh : NewToken} {key : ApiKey} (hcall : call.newToken = some fresh)
      (hmade : key.Made cfg db fresh) (hallowed : Allowed db actor apiKeysManage key.projectId) :
      Effect cfg db actor call { db with keys := db.keys.put fresh.id key }
  | keyRotated {id : ApiKeyId} {old new key : ApiKey} {fresh : NewToken}
      (hcall : call.newToken = some fresh) (hget : db.keys.get? id = some old)
      (hevolves : old.Evolves new)
      (hmade : key.Made cfg { db with keys := db.keys.put id new } fresh)
      (hproject : key.projectId = old.projectId)
      (hallowed : Allowed db actor apiKeysManage old.projectId) :
      Effect cfg db actor call { db with keys := (db.keys.put id new).put fresh.id key }
  /-- Nothing but projects, members of new users, users and what goes with them; only a global
  administrator gets there. -/
  | global {db' : Database} (hcall : call.required ∈ globalOnly)
      (hkeys : ∀ id key', db'.keys.get? id = some key' →
        ∃ key, db.keys.get? id = some key ∧ key.Evolves key')
      (hnow : db'.now = db.now) :
      Effect cfg db actor call db'

theorem ApiKey.Evolves.refl (key : ApiKey) : key.Evolves key :=
  ⟨rfl, rfl, rfl, rfl, fun _ => rfl, .inl rfl⟩

theorem ApiKey.Evolves.trans {key key' key'' : ApiKey} (h : key.Evolves key')
    (h' : key'.Evolves key'') : key.Evolves key'' where
  projectId := h'.projectId.trans h.projectId
  shownPrefix := h'.shownPrefix.trans h.shownPrefix
  tokenHash := h'.tokenHash.trans h.tokenHash
  expiresAt := h'.expiresAt.trans h.expiresAt
  revokedAt hrevoked := (h'.revokedAt (h.revokedAt hrevoked ▸ hrevoked)).trans
    (h.revokedAt hrevoked)
  createdById := h'.createdById.elim (fun hsame => hsame ▸ h.createdById) .inr

variable {db db' : Database} {user : Principal} {q : ProjectId} {call : Call}

theorem getScoped_ok {α : Type} {row : Option α} {projectId : α → ProjectId}
    {permission : Permission} {notFound : String} {obj : α}
    (h : getScoped db user row projectId permission notFound = .ok obj) :
    row = some obj ∧ Allowed db user permission (projectId obj) := by
  unfold getScoped at h
  split at h
  · cases h
  · dsimp only at h
    split at h
    · cases h
    · split at h
      · cases h
      · next hcontains =>
        obtain rfl := Except.ok.inj h
        exact ⟨rfl, List.contains_iff_mem.1 (by simpa using hcontains)⟩

theorem allowed_of_require {permission : Permission} {project : Project}
    (h : requireProjectPermission db user q permission = .ok project) :
    Allowed db user permission q := (getScoped_ok h).2

/-! ## Members -/

theorem effect_upsertMember {target : UserId} {row : User} {role : String} {out : MemberOut}
    (h : upsertMember db user q target row role = .ok (out, db')) :
    Effect cfg db user call db' := by
  obtain ⟨_, hrequire, h⟩ := Lib.Except.bind_eq_ok.1 h
  obtain ⟨_, -, h⟩ := Lib.Except.bind_eq_ok.1 h
  split at h
  · obtain ⟨-, rfl⟩ := Prod.mk.inj (Lib.Except.pure_eq_ok.1 h)
    exact .nothing
  · obtain ⟨-, rfl⟩ := Prod.mk.inj (Lib.Except.pure_eq_ok.1 h)
    exact .member (allowed_of_require hrequire)

theorem effect_addMember {username : String} {role : Role} {out : MemberOut}
    (h : addMemberByUsername db user q username role = .ok (out, db')) :
    Effect cfg db user call db' := by
  obtain ⟨_, -, h⟩ := Lib.Except.bind_eq_ok.1 h
  split at h
  · cases h
  · exact effect_upsertMember h

theorem effect_setMember {target : UserId} {role : Role} {out : MemberOut}
    (h : setMember db user q target role = .ok (out, db')) : Effect cfg db user call db' := by
  obtain ⟨_, -, h⟩ := Lib.Except.bind_eq_ok.1 h
  split at h
  · cases h
  · split at h
    · cases h
    · exact effect_upsertMember h

theorem effect_removeMember {target : UserId} (h : removeMember db user q target = .ok db') :
    Effect cfg db user call db' := by
  obtain ⟨_, hrequire, h⟩ := Lib.Except.bind_eq_ok.1 h
  obtain ⟨_, -, h⟩ := Lib.Except.bind_eq_ok.1 h
  split at h
  · cases h
  · cases h
    exact .memberGone (allowed_of_require hrequire)

/-! ## Playbooks -/

/-- A project that can be written to is one the principal may write to. -/
theorem allowed_of_resolve {permission : Permission} {projectId : Option ProjectId}
    (h : resolveWriteProject db user permission projectId = .ok q) :
    Allowed db user permission q := by
  cases projectId with
  | some projectId =>
    obtain ⟨_, hrequire, h⟩ := Lib.Except.bind_eq_ok.1 h
    obtain rfl := Lib.Except.pure_eq_ok.1 h
    exact allowed_of_require hrequire
  | none =>
    unfold resolveWriteProject at h
    dsimp only at h
    split at h
    · next hone =>
      rw [Except.ok.inj h] at hone
      unfold Allowed projectPermissions
      split
      · exact mem_all permission
      · next hadmin =>
        rw [if_neg hadmin] at hone
        have hmem : q ∈ projectsWhere db.members user permission := by
          rw [hone]
          exact List.mem_singleton_self q
        obtain ⟨⟨q', role⟩, hentry, rfl⟩ := List.mem_map.1 hmem
        obtain ⟨hentry, hcontains⟩ := List.mem_filter.1 hentry
        rw [Dict.get?_eq_some.2 hentry]
        dsimp only at hcontains ⊢
        split
        · next hempty =>
          rw [hempty] at hcontains
          exact absurd hcontains (by simp [projectRolePermissions, keyRolePermissions, keyRole,
            Role.ofValue?, Role.value])
        · simpa using hcontains
    · cases h
    · cases h

theorem effect_createPlaybook {id : Nat} {projectId : Option ProjectId} {name content : String}
    {out : PlaybookOut}
    (h : createPlaybook cfg db user id projectId name content = .ok (out, db')) :
    Effect cfg db user (.createPlaybook id projectId name content) db' := by
  obtain ⟨_, hresolve, h⟩ := Lib.Except.bind_eq_ok.1 h
  obtain ⟨_, -, h⟩ := Lib.Except.bind_eq_ok.1 h
  split at h
  · cases h
  · obtain ⟨-, rfl⟩ := Prod.mk.inj (Lib.Except.pure_eq_ok.1 h)
    exact .playbookMade Option.isNone_iff_eq_none.1 (allowed_of_resolve hresolve)

theorem effect_updatePlaybook {id : Nat} {name content : Option String} {out : PlaybookOut}
    (h : updatePlaybook cfg db user id name content = .ok (out, db')) :
    Effect cfg db user call db' := by
  obtain ⟨_, hscoped, h⟩ := Lib.Except.bind_eq_ok.1 h
  obtain ⟨hget, hallowed⟩ := getScoped_ok hscoped
  split at h
  · cases h
  · obtain ⟨_, -, h⟩ := Lib.Except.bind_eq_ok.1 h
    obtain ⟨-, rfl⟩ := Prod.mk.inj (Lib.Except.pure_eq_ok.1 h)
    exact .playbook hget rfl hallowed

theorem effect_deletePlaybook {id : Nat} (h : deletePlaybook cfg db user id = .ok db') :
    Effect cfg db user call db' := by
  obtain ⟨_, hscoped, h⟩ := Lib.Except.bind_eq_ok.1 h
  obtain ⟨hget, hallowed⟩ := getScoped_ok hscoped
  split at h
  · split at h
    · cases h
    · obtain rfl := Lib.Except.pure_eq_ok.1 h
      exact .playbookGone hget hallowed
  · obtain rfl := Lib.Except.pure_eq_ok.1 h
    exact .playbookGone hget hallowed

/-! ## Keys -/

theorem evolves_applyLimits {limits : ApiKeyLimits} {key key' : ApiKey}
    (h : applyLimits cfg db q limits key = .ok key') : key.Evolves key' := by
  obtain ⟨_, -, h⟩ := Lib.Except.bind_eq_ok.1 h
  obtain ⟨_, -, h⟩ := Lib.Except.bind_eq_ok.1 h
  obtain ⟨_, -, h⟩ := Lib.Except.bind_eq_ok.1 h
  obtain rfl := Lib.Except.pure_eq_ok.1 h
  exact ⟨rfl, rfl, rfl, rfl, fun _ => rfl, .inl rfl⟩

theorem insertKey_ok {id : ApiKeyId} {key : ApiKey} (h : insertKey db id key = .ok db') :
    db' = { db with keys := db.keys.put id key } ∧
      ∀ id other, db.keys.get? id = some other → other.shownPrefix ≠ key.shownPrefix := by
  unfold insertKey at h
  split at h
  · cases h
  · next hconflict =>
    refine ⟨(Except.ok.inj h).symm, fun i other hget heq => hconflict ?_⟩
    unfold keyConflict
    rw [Bool.or_eq_true, Table.any_iff]
    exact .inr ⟨i, other, hget, by rw [heq, beq_self_eq_true, Bool.true_or]⟩

theorem scopedKey_ok {id : ApiKeyId} {key : ApiKey} (h : scopedKey db q id = .ok key) :
    db.keys.get? id = some key ∧ key.projectId = q := by
  unfold scopedKey at h
  split at h
  · cases h
  · next hget =>
    split at h
    · cases h
    · next hq =>
      obtain rfl := Except.ok.inj h
      exact ⟨hget, not_not.1 hq⟩

theorem evolves_revoked {key : ApiKey} (h : ¬ key.revokedAt.isSome = true) :
    key.Evolves (revoked db user key) :=
  ⟨rfl, rfl, rfl, rfl, fun hrevoked => absurd hrevoked h, .inl rfl⟩

theorem effect_createApiKey {session : Option Session} {payload : ApiKeyCreate} {fresh : NewToken}
    {out : ApiKeyOut} (hcall : call.newToken = some fresh)
    (h : createApiKey cfg db user q session payload fresh = .ok (out, db')) :
    Effect cfg db user call db' := by
  obtain ⟨_, hrequire, h⟩ := Lib.Except.bind_eq_ok.1 h
  obtain ⟨_, -, h⟩ := Lib.Except.bind_eq_ok.1 h
  dsimp only at h
  split at h
  · cases h
  · split at h
    · cases h
    · obtain ⟨key, hlimits, h⟩ := Lib.Except.bind_eq_ok.1 h
      obtain ⟨inserted, hinsert, h⟩ := Lib.Except.bind_eq_ok.1 h
      obtain ⟨-, rfl⟩ := Prod.mk.inj (Lib.Except.pure_eq_ok.1 h)
      obtain ⟨rfl, hunique⟩ := insertKey_ok hinsert
      have hevolves := evolves_applyLimits hlimits
      refine .keyMade hcall ⟨hevolves.shownPrefix, hevolves.tokenHash, hunique⟩ ?_
      rw [hevolves.projectId]
      exact allowed_of_require hrequire

theorem effect_rotateApiKey {keyId : ApiKeyId} {session : Option Session}
    {currentPassword : Option String} {fresh : NewToken} {out : ApiKeyOut}
    (hcall : call.newToken = some fresh)
    (h : rotateApiKey cfg db user q keyId session currentPassword fresh = .ok (out, db')) :
    Effect cfg db user call db' := by
  obtain ⟨_, hrequire, h⟩ := Lib.Except.bind_eq_ok.1 h
  obtain ⟨_, -, h⟩ := Lib.Except.bind_eq_ok.1 h
  obtain ⟨old, hold, h⟩ := Lib.Except.bind_eq_ok.1 h
  obtain ⟨hget, rfl⟩ := scopedKey_ok hold
  split at h
  · cases h
  · next hactive =>
    obtain ⟨inserted, hinsert, h⟩ := Lib.Except.bind_eq_ok.1 h
    obtain ⟨-, rfl⟩ := Prod.mk.inj (Lib.Except.pure_eq_ok.1 h)
    obtain ⟨rfl, hunique⟩ := insertKey_ok hinsert
    exact .keyRotated hcall hget (evolves_revoked hactive) ⟨rfl, rfl, hunique⟩ rfl
      (allowed_of_require hrequire)

theorem effect_updateApiKeyLimits {keyId : ApiKeyId} {limits : ApiKeyLimits} {out : ApiKeyOut}
    (h : updateApiKeyLimits cfg db user q keyId limits = .ok (out, db')) :
    Effect cfg db user call db' := by
  obtain ⟨_, hrequire, h⟩ := Lib.Except.bind_eq_ok.1 h
  obtain ⟨old, hold, h⟩ := Lib.Except.bind_eq_ok.1 h
  obtain ⟨hget, rfl⟩ := scopedKey_ok hold
  split at h
  · cases h
  · obtain ⟨key, hlimits, h⟩ := Lib.Except.bind_eq_ok.1 h
    obtain ⟨-, rfl⟩ := Prod.mk.inj (Lib.Except.pure_eq_ok.1 h)
    exact .key hget (evolves_applyLimits hlimits) (allowed_of_require hrequire)

theorem effect_revokeApiKey {keyId : ApiKeyId} (h : revokeApiKey db user q keyId = .ok db') :
    Effect cfg db user call db' := by
  obtain ⟨_, hrequire, h⟩ := Lib.Except.bind_eq_ok.1 h
  obtain ⟨old, hold, hrevoke⟩ := Lib.Except.bind_eq_ok.1 h
  obtain ⟨hget, rfl⟩ := scopedKey_ok hold
  split at hrevoke
  · obtain rfl := Lib.Except.pure_eq_ok.1 hrevoke
    exact .nothing
  · next hactive =>
    obtain rfl := Lib.Except.pure_eq_ok.1 hrevoke
    exact .key hget (evolves_revoked hactive) (allowed_of_require hrequire)

/-! ## What only a global administrator does -/

/-- The keys are as they were. -/
theorem Effect.globalSame (hcall : call.required ∈ globalOnly) (hkeys : db'.keys = db.keys)
    (hnow : db'.now = db.now) : Effect cfg db user call db' :=
  .global hcall (fun id key' hget => ⟨key', by rwa [hkeys] at hget, .refl key'⟩) hnow

theorem effect_createProject {id : ProjectId} {name : String} {description : Option String}
    {out : ProjectOut} (hcall : call.required ∈ globalOnly)
    (h : createProject cfg db id name description = .ok (out, db')) :
    Effect cfg db user call db' := by
  unfold createProject at h
  split at h
  · cases h
  · obtain ⟨-, rfl⟩ := Prod.mk.inj (Except.ok.inj h)
    exact .globalSame hcall rfl rfl

theorem effect_updateProject {name description : Option String} {out : ProjectOut}
    (hcall : call.required ∈ globalOnly)
    (h : updateProject cfg db q name description = .ok (out, db')) :
    Effect cfg db user call db' := by
  obtain ⟨_, -, h⟩ := Lib.Except.bind_eq_ok.1 h
  dsimp only at h
  split at h
  · cases h
  · obtain ⟨-, rfl⟩ := Prod.mk.inj (Lib.Except.pure_eq_ok.1 h)
    exact .globalSame hcall rfl rfl

theorem effect_deleteProject (hcall : call.required ∈ globalOnly)
    (h : deleteProject db q = .ok db') : Effect cfg db user call db' := by
  obtain ⟨_, -, h⟩ := Lib.Except.bind_eq_ok.1 h
  dsimp only at h
  split at h
  · cases h
  · obtain rfl := Lib.Except.pure_eq_ok.1 h
    refine .global hcall (fun id key' hget => ?_) rfl
    exact ⟨key', (Table.get?_deleteWhere_eq_some.1 hget).1, .refl key'⟩

theorem effect_createUser {id : UserId} {payload : UserCreate} {out : UserOut}
    (hcall : call.required ∈ globalOnly) (h : createUser cfg db id payload = .ok (out, db')) :
    Effect cfg db user call db' := by
  unfold createUser at h
  split at h
  · cases h
  · split at h
    · cases h
    · obtain ⟨_, -, h⟩ := Lib.Except.bind_eq_ok.1 h
      split at h
      · cases h
      · obtain ⟨-, rfl⟩ := Prod.mk.inj (Lib.Except.pure_eq_ok.1 h)
        exact .globalSame hcall rfl rfl

theorem effect_updateUser {id : UserId} {payload : Users.UserUpdate} {out : UserOut}
    (hcall : call.required ∈ globalOnly) (h : updateUser cfg db user id payload = .ok (out, db')) :
    Effect cfg db user call db' := by
  obtain ⟨_, -, h⟩ := Lib.Except.bind_eq_ok.1 h
  split at h
  · cases h
  · split at h
    · cases h
    · split at h
      · cases h
      · split at h
        · cases h
        · dsimp only at h
          split at h
          · cases h
          · obtain ⟨-, rfl⟩ := Prod.mk.inj (Lib.Except.pure_eq_ok.1 h)
            exact .globalSame hcall rfl rfl

theorem effect_unlinkSso {id : UserId} (hcall : call.required ∈ globalOnly)
    (h : unlinkSso db user id = .ok db') : Effect cfg db user call db' := by
  obtain ⟨_, -, h⟩ := Lib.Except.bind_eq_ok.1 h
  split at h <;> obtain rfl := Lib.Except.pure_eq_ok.1 h <;> exact .globalSame hcall rfl rfl

theorem effect_resetTwoFactor {id : UserId} (hcall : call.required ∈ globalOnly)
    (h : resetTwoFactor db user id = .ok db') : Effect cfg db user call db' := by
  obtain ⟨_, -, h⟩ := Lib.Except.bind_eq_ok.1 h
  split at h
  · cases h
  · split at h <;> obtain rfl := Lib.Except.pure_eq_ok.1 h <;> exact .globalSame hcall rfl rfl

/-- The keys that a deleted user made have no creator any more. -/
theorem effect_deleteUser {id : UserId} (hcall : call.required ∈ globalOnly)
    (h : deleteUser db user id = .ok db') : Effect cfg db user call db' := by
  obtain ⟨_, -, h⟩ := Lib.Except.bind_eq_ok.1 h
  split at h
  · cases h
  · split at h
    · cases h
    · obtain rfl := Lib.Except.pure_eq_ok.1 h
      refine .global hcall (fun i key' hget => ?_) rfl
      rw [Table.get?_mapRows, Option.map_eq_some_iff] at hget
      obtain ⟨key, hget, rfl⟩ := hget
      refine ⟨key, hget, ?_⟩
      split
      · exact ⟨rfl, rfl, rfl, rfl, fun _ => rfl, .inr rfl⟩
      · exact .refl key

/-! ## Every handler -/

theorem reads_ok {α : Type} {answer : α → Answer} {result : Answered α} {out : Answer}
    (h : reads db answer result = .ok (out, db')) : db' = db := by
  unfold reads at h
  cases result with
  | error e => cases h
  | ok a =>
    obtain ⟨-, rfl⟩ := Prod.mk.inj (Except.ok.inj h)
    rfl

theorem writes_ok {α : Type} {answer : α → Answer} {result : Answered (α × Database)} {out : Answer}
    (h : writes answer result = .ok (out, db')) : ∃ row, result = .ok (row, db') := by
  unfold writes at h
  cases result with
  | error e => cases h
  | ok written =>
    obtain ⟨-, rfl⟩ := Prod.mk.inj (Except.ok.inj h)
    exact ⟨written.1, rfl⟩

theorem does_ok {result : Answered Database} {out : Answer} (h : does result = .ok (out, db')) :
    result = .ok db' := by
  unfold does at h
  cases result with
  | error e => cases h
  | ok written =>
    obtain ⟨-, rfl⟩ := Prod.mk.inj (Except.ok.inj h)
    rfl

theorem effect_handle {session : Option Session} {answer : Answer}
    (h : handle cfg le db user session call = .ok (answer, db')) : Effect cfg db user call db' := by
  cases call with
  | listMembers | listPlaybooks | getPlaybook | listApiKeys => exact (reads_ok h).symm ▸ .nothing
  | listProjects | listUsers => exact (Prod.mk.inj (Except.ok.inj h)).2 ▸ .nothing
  | addMemberByUsername => exact effect_addMember (writes_ok h).choose_spec
  | setMember => exact effect_setMember (writes_ok h).choose_spec
  | removeMember => exact effect_removeMember (does_ok h)
  | createPlaybook => exact effect_createPlaybook (writes_ok h).choose_spec
  | updatePlaybook => exact effect_updatePlaybook (writes_ok h).choose_spec
  | deletePlaybook => exact effect_deletePlaybook (does_ok h)
  | createApiKey => exact effect_createApiKey rfl (writes_ok h).choose_spec
  | rotateApiKey => exact effect_rotateApiKey rfl (writes_ok h).choose_spec
  | updateApiKeyLimits => exact effect_updateApiKeyLimits (writes_ok h).choose_spec
  | revokeApiKey => exact effect_revokeApiKey (does_ok h)
  | createProject =>
    exact effect_createProject (by simp [Call.required, globalOnly]) (writes_ok h).choose_spec
  | updateProject =>
    exact effect_updateProject (by simp [Call.required, globalOnly]) (writes_ok h).choose_spec
  | deleteProject => exact effect_deleteProject (by simp [Call.required, globalOnly]) (does_ok h)
  | createUser =>
    exact effect_createUser (by simp [Call.required, globalOnly]) (writes_ok h).choose_spec
  | updateUser =>
    exact effect_updateUser (by simp [Call.required, globalOnly]) (writes_ok h).choose_spec
  | unlinkSso => exact effect_unlinkSso (by simp [Call.required, globalOnly]) (does_ok h)
  | resetTwoFactor => exact effect_resetTwoFactor (by simp [Call.required, globalOnly]) (does_ok h)
  | deleteUser => exact effect_deleteUser (by simp [Call.required, globalOnly]) (does_ok h)

/-! ## Playbooks -/

/-- A playbook is changed or deleted by somebody who may write content in its project, where it
stays. -/
theorem playbook_effect {id : Nat} {old : Playbook} (hrequired : call.required ∉ globalOnly)
    (hunused : call.unused db = true) (h : Effect cfg db user call db')
    (hold : db.playbooks.get? id = some old) :
    db'.playbooks.get? id = some old ∨
      Allowed db user contentWrite old.projectId ∧
        ∀ new, db'.playbooks.get? id = some new → new.projectId = old.projectId := by
  cases h with
  | nothing | member | memberGone | key | keyMade | keyRotated => exact .inl hold
  | playbookMade hcall _ =>
    refine .inl ((Table.get?_put_of_ne _ _ ?_).trans hold)
    rintro rfl
    rw [hcall hunused] at hold
    cases hold
  | @playbook id' old' playbook hget hproject hallowed =>
    by_cases hid : id = id'
    · subst hid
      obtain rfl := Option.some.inj (hget.symm.trans hold)
      refine .inr ⟨hallowed, fun new hnew => ?_⟩
      rw [Table.get?_put_self] at hnew
      exact Option.some.inj hnew ▸ hproject
    · exact .inl ((Table.get?_put_of_ne _ _ hid).trans hold)
  | @playbookGone id' old' hget hallowed =>
    by_cases hid : id = id'
    · subst hid
      obtain rfl := Option.some.inj (hget.symm.trans hold)
      refine .inr ⟨hallowed, fun new hnew => ?_⟩
      rw [Table.get?_remove, if_pos rfl] at hnew
      cases hnew
    · exact .inl (Table.get?_remove_eq_some.2 ⟨hid, hold⟩)
  | global hcall => exact absurd hcall hrequired

end Access

end AnsiDeck
