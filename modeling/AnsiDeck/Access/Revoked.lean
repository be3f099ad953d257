import AnsiDeck.Access.Vouched

/-!
# A key that is spent is spent for good

No request gives a revoked key back, sets its end later, or gives it a creator again, and no two
keys ever have the same prefix. So once the key that a token's prefix finds is revoked, has expired
or has lost its creator, that token is refused in every later state, also when the key is pruned and
its prefix is another key's.
-/

namespace AnsiDeck

namespace Access

open Lib (Dict Str Table str)
open Lib.System (Path)

variable {cfg : Settings} {le : String → String → Bool} {token : Str}

/-- The token of the key that a step makes. -/
def issues (s : State) : Label → Option NewToken
  | .handle tx => (s.txs.get? tx).bind fun row => row.call.newToken
  | _ => none

/-- No key that is made has the token's hash. -/
def NotIssued (cfg : Settings) (token : Str) (s : State) (a : Label) : Prop :=
  ∀ fresh ∈ issues s a, cfg.hashToken fresh.token ≠ cfg.hashToken token

instance (s : State) (a : Label) : Decidable (NotIssued cfg token s a) := by
  unfold NotIssued
  infer_instance

/-- No two keys have the same prefix. -/
def UniquePrefixes (db : Database) : Prop := db.keys.Pairs fun a b => a.shownPrefix ≠ b.shownPrefix

/-- A key that doesn't work any more, whatever its creator does. -/
def Spent (key : ApiKey) (now : Time) : Prop :=
  key.revokedAt.isSome = true ∨ key.expiresAt ≤ now ∨ key.createdById = none

/-- Whatever key the token would be of is spent. -/
def Dead (cfg : Settings) (token : Str) (db : Database) : Prop :=
  ∀ id key, db.keys.get? id = some key → parsePrefix token = some key.shownPrefix →
    cfg.hashToken token = key.tokenHash → Spent key db.now

theorem ApiKey.Evolves.spent {key key' : ApiKey} {now now' : Time} (h : key.Evolves key')
    (hnow : now ≤ now') (hspent : Spent key now) : Spent key' now' := by
  rcases hspent with hrevoked | hexpired | horphan
  · exact .inl (h.revokedAt hrevoked ▸ hrevoked)
  · exact .inr (.inl (h.expiresAt ▸ hexpired.trans hnow))
  · rcases h.createdById with hsame | hnone
    · exact .inr (.inr (hsame.trans horphan))
    · exact .inr (.inr hnone)

/-! ## What becomes of the keys in one step -/

/-- Each key was there before, or is one that was made with the token of the request. -/
structure KeysLater (cfg : Settings) (issued : Option NewToken) (db db' : Database) : Prop where
  now : db.now ≤ db'.now
  keys : ∀ id key', db'.keys.get? id = some key' →
    (∃ key, db.keys.get? id = some key ∧ key.Evolves key') ∨
      ∃ fresh, issued = some fresh ∧ key'.tokenHash = cfg.hashToken fresh.token
  unique : UniquePrefixes db → UniquePrefixes db'

section KeysLater

variable {issued : Option NewToken} {db db' db'' : Database}

theorem unique_of_evolves (h : ∀ id key', db'.keys.get? id = some key' →
    ∃ key, db.keys.get? id = some key ∧ key.Evolves key') (hunique : UniquePrefixes db) :
    UniquePrefixes db' := by
  intro i j a b ha hb hne
  obtain ⟨a₀, ha₀, hea⟩ := h i a ha
  obtain ⟨b₀, hb₀, heb⟩ := h j b hb
  rw [hea.shownPrefix, heb.shownPrefix]
  exact hunique i j a₀ b₀ ha₀ hb₀ hne

/-- Nothing is made. -/
theorem KeysLater.evolve (hnow : db.now ≤ db'.now) (h : ∀ id key', db'.keys.get? id = some key' →
    ∃ key, db.keys.get? id = some key ∧ key.Evolves key') : KeysLater cfg issued db db' :=
  ⟨hnow, fun id key' hget => .inl (h id key' hget), unique_of_evolves h⟩

theorem KeysLater.same (hnow : db.now ≤ db'.now) (hkeys : db'.keys = db.keys) :
    KeysLater cfg issued db db' :=
  .evolve hnow fun id key' hget => ⟨key', by rwa [hkeys] at hget, .refl key'⟩

theorem KeysLater.refl : KeysLater cfg issued db db := .same (Nat.le_refl _) rfl

theorem KeysLater.put {id : ApiKeyId} {old key : ApiKey} (hget : db.keys.get? id = some old)
    (hevolves : old.Evolves key) :
    KeysLater cfg issued db { db with keys := db.keys.put id key } := by
  refine .evolve (Nat.le_refl _) fun i key' hget' => ?_
  rcases Table.get?_put_cases hget' with ⟨rfl, rfl⟩ | ⟨-, hget'⟩
  · exact ⟨old, hget, hevolves⟩
  · exact ⟨key', hget', .refl key'⟩

theorem KeysLater.made {fresh : NewToken} {key : ApiKey} (hmade : key.Made cfg db fresh) :
    KeysLater cfg (some fresh) db { db with keys := db.keys.put fresh.id key } := by
  refine ⟨Nat.le_refl _, fun id key' hget => ?_, fun hunique => ?_⟩
  · rcases Table.get?_put_cases hget with ⟨-, rfl⟩ | ⟨-, hget⟩
    · exact .inr ⟨fresh, rfl, hmade.tokenHash⟩
    · exact .inl ⟨key', hget, .refl key'⟩
  · exact Table.Pairs.put hunique fun id other hget _ =>
      ⟨(hmade.unique id other hget).symm, hmade.unique id other hget⟩

theorem KeysLater.trans (h : KeysLater cfg none db db') (h' : KeysLater cfg issued db' db'') :
    KeysLater cfg issued db db'' where
  now := h.now.trans h'.now
  keys id key'' hget := by
    obtain ⟨key', hget', hevolves'⟩ | hmade := h'.keys id key'' hget
    · obtain ⟨key, hget, hevolves⟩ | ⟨_, hnone, -⟩ := h.keys id key' hget'
      · exact .inl ⟨key, hget, hevolves.trans hevolves'⟩
      · cases hnone
    · exact .inr hmade
  unique hunique := h'.unique (h.unique hunique)

theorem keysLater_effect {user : Principal} {call : Call} (h : Effect cfg db user call db') :
    KeysLater cfg call.newToken db db' := by
  cases h with
  | nothing => exact .refl
  | member | memberGone | playbookMade | playbook | playbookGone => exact .same (Nat.le_refl _) rfl
  | key hget hevolves => exact .put hget hevolves
  | keyMade hcall hmade => exact hcall ▸ .made hmade
  | keyRotated hcall hget hevolves hmade => exact hcall ▸ .trans (.put hget hevolves) (.made hmade)
  | global _ hkeys hnow => exact .evolve hnow.ge hkeys

theorem evolves_touched (db : Database) (ip : Str) (key : ApiKey) :
    key.Evolves (touched db ip key) := by
  unfold touched
  split
  · exact ⟨rfl, rfl, rfl, rfl, fun _ => rfl, .inl rfl⟩
  · exact .refl key

theorem keysLater_authenticateApiKey (cfg : Settings) (db : Database) (token ip : Str) :
    KeysLater cfg none db (authenticateApiKey cfg db token ip).2 := by
  unfold authenticateApiKey
  split
  · exact .refl
  · next hcheck => exact .put (works_of_checkKey hcheck).get? (evolves_touched db ip _)

theorem keysLater_getCurrentUser (cfg : Settings) (db : Database) (credential : Credential)
    (ip : Str) :
    KeysLater cfg none db (getCurrentUser cfg db credential ip).2 := by
  cases credential with
  | nothing => exact .refl
  | cookie session =>
    unfold getCurrentUser
    dsimp only
    split <;> exact .refl
  | bearer token =>
    have hkey := keysLater_authenticateApiKey cfg db token ip
    unfold getCurrentUser
    dsimp only
    split <;> rename_i heq <;> rw [heq] at hkey <;> exact hkey

theorem keysLater_pruneKeys (db : Database) (retentionDays : Nat) :
    KeysLater cfg none db (pruneKeys db retentionDays) := by
  unfold pruneKeys
  split
  · exact .refl
  · refine .evolve (Nat.le_refl _) fun id key' hget => ?_
    exact ⟨key', (Table.get?_deleteWhere_eq_some.1 hget).1, .refl key'⟩

end KeysLater

theorem keysLater_step {s t : State} {a : Label} (h : step cfg le s a = some t) :
    KeysLater cfg (issues s a) s.db t.db := by
  cases a with
  | request tx credential ip call =>
    have hdb := keysLater_getCurrentUser cfg s.db credential ip
    simp only [step] at h
    split at h
    · cases h
    · split at h <;> rename_i heq <;> rw [heq] at hdb <;> obtain rfl := Option.some.inj h <;>
        exact hdb
  | guard tx =>
    simp only [step] at h
    split at h
    · split at h <;> obtain rfl := Option.some.inj h <;> exact .refl
    · cases h
  | handle tx =>
    simp only [step] at h
    split at h
    · next session call user hget =>
      have hissues : issues s (.handle tx) = call.newToken := by
        rw [issues, hget]
        rfl
      split at h
      · cases h
      · split at h <;> rename_i hhandle <;> obtain rfl := Option.some.inj h
        · exact .refl
        · exact hissues ▸ keysLater_effect (effect_handle hhandle)
    · cases h
  | rollback tx =>
    obtain rfl := Option.some.inj h
    exact .refl
  | account userId user passkeys =>
    simp only [step] at h
    split at h
    · cases h
    · split at h
      · obtain rfl := Option.some.inj h
        exact .same (Nat.le_refl _) rfl
      · cases h
  | item kind id item =>
    obtain rfl := Option.some.inj h
    exact .same (Nat.le_refl _) rfl
  | tick =>
    obtain rfl := Option.some.inj h
    exact .same (Nat.le_succ _) rfl
  | prune retentionDays =>
    obtain rfl := Option.some.inj h
    exact keysLater_pruneKeys s.db retentionDays

/-! ## Runs -/

theorem uniquePrefixes_of_reachable {s : State} (h : (system cfg le).Reachable s) :
    UniquePrefixes s.db :=
  Lib.System.Inductive.of_reachable (S := system cfg le) (I := fun s => UniquePrefixes s.db)
    ⟨fun _ hinit => hinit.2, fun _ _ _ hunique _ hstep => (keysLater_step hstep).unique hunique⟩ h

theorem dead_step {s t : State} {a : Label} (hdead : Dead cfg token s.db)
    (hissued : NotIssued cfg token s a) (h : step cfg le s a = some t) : Dead cfg token t.db := by
  have hlater := keysLater_step h
  intro id key' hget hshown hhash
  obtain ⟨key, hget, hevolves⟩ | ⟨fresh, hfresh, hmade⟩ := hlater.keys id key' hget
  · rw [hevolves.shownPrefix] at hshown
    rw [hevolves.tokenHash] at hhash
    exact hevolves.spent hlater.now (hdead id key hget hshown hhash)
  · cases a with
    | handle tx => exact absurd (hmade.symm.trans hhash.symm) (hissued fresh hfresh)
    | _ => cases hfresh

/-- The key that the prefix finds is the only one with it. -/
theorem dead_of_spent {db : Database} (hunique : UniquePrefixes db) {id : ApiKeyId} {key : ApiKey}
    (hget : db.keys.get? id = some key) (hshown : parsePrefix token = some key.shownPrefix)
    (hspent : Spent key db.now) : Dead cfg token db := by
  intro id' key' hget' hshown' _
  by_cases hid : id' = id
  · subst hid
    rw [hget] at hget'
    exact Option.some.inj hget' ▸ hspent
  · rw [hshown] at hshown'
    exact absurd (Option.some.inj hshown') (hunique id id' key key' hget hget' hid)

/-- A dead token is of no key that works. -/
theorem not_works_of_dead {db : Database} (hdead : Dead cfg token db) {ip : Str} {id : ApiKeyId}
    {key : ApiKey} (h : Works cfg db token ip id key) : False := by
  obtain ⟨hrevoked, hexpires⟩ := keyStatus_active.1 h.active
  obtain ⟨creatorId, _, hcreator, -⟩ := creator_of_vouched h.creator
  rcases hdead id key h.get? h.shownPrefix h.hash with hspent | hspent | hspent
  · rw [hrevoked] at hspent
    cases hspent
  · exact absurd hexpires (Nat.not_lt.2 hspent)
  · rw [hcreator] at hspent
    cases hspent

/-- **A key that is revoked, has expired or has lost its creator never works again**: in no run that
makes no other key with the token's hash is a request with its token let in any more. -/
theorem spent_for_good {s t w : State} (hreach : (system cfg le).Reachable s) {id : ApiKeyId}
    {key : ApiKey} (hget : s.db.keys.get? id = some key)
    (hshown : parsePrefix token = some key.shownPrefix) (hspent : Spent key s.db.now)
    (hrun : Path (system cfg le) (NotIssued cfg token) s t) {tx : Nat} {ip : Str} {call : Call}
    (hstep : step cfg le t (.request tx (.bearer token) ip call) = some w) :
    ∃ error, w.txs.get? tx = some ⟨none, call, .answered (.error error)⟩ := by
  have hdead : Dead cfg token t.db := by
    refine Path.stable (I := fun _ => True) (P := fun s => Dead cfg token s.db)
      (fun _ _ _ _ _ _ => trivial) (fun _ _ _ _ hdead hissued h => dead_step hdead hissued h) hrun
      trivial ?_
    exact dead_of_spent (uniquePrefixes_of_reachable hreach) hget hshown hspent
  obtain ⟨_, -, hanswer⟩ | ⟨id, key, hcheck, -⟩ := bearer_cases hstep
  · exact ⟨_, hanswer⟩
  · exact (not_works_of_dead hdead (works_of_checkKey hcheck)).elim

/-- Ada revokes the key that the pipeline uses. -/
def revokes : List Label :=
  [.request 1 (.cookie { userId := 1, sessionVersion := 0, issuedAt := 5 }) []
    (.revokeApiKey 1 1), .guard 1, .handle 1]

theorem keyed_revoked : ((system plainSettings (fun _ _ => true)).run Lib.anyStep keyed
    revokes).isSome = true := by decide

/-- The key, once it is revoked. -/
def revokedState : State := ((system plainSettings (fun _ _ => true)).run Lib.anyStep keyed
  revokes).get keyed_revoked

theorem revokedState_step :
    (step plainSettings (fun _ _ => true) revokedState pipeline).isSome = true := by decide

theorem revokedState_key : (revokedState.db.keys.get? 1).isSome = true := by decide

theorem spent_for_good_revoked :
    ∃ error,
      ((step plainSettings (fun _ _ => true) revokedState pipeline).get revokedState_step).txs.get?
      0
        = some ⟨none, .listPlaybooks none, .answered (.error error)⟩ := by
  have hinit : (system plainSettings (fun _ _ => true)).init keyed := by
    refine ⟨rfl, Table.Pairs.put (Table.pairs_empty _) fun id other hget => ?_⟩
    rw [Table.get?_empty] at hget
    cases hget
  have hreach : (system plainSettings (fun _ _ => true)).Reachable revokedState :=
    .of_run hinit (Option.some_get keyed_revoked).symm
  have hstep : step plainSettings (fun _ _ => true) revokedState
      (.request 0 (.bearer (str "ansd_0123abcd_s")) (str "192.0.2.1") (.listPlaybooks none))
        = some _ := (Option.some_get revokedState_step).symm
  exact spent_for_good hreach (Option.some_get revokedState_key).symm (by decide)
    (.inl (by decide)) (.refl _) hstep

end Access

end AnsiDeck
