import AnsiDeck.Accounts.Replay

/-!
# What was accepted once

What a sound log says, event by event, and what becomes of a passkey's sign count over a run: ids
are never used again, and between two states that both have the passkey its count only grows.
-/

namespace AnsiDeck

namespace Auth

variable {cfg : AuthSettings} {s t : State} {a a' : Account} {log : List Event}

/-! ## Sign counts -/

def Account.ids (a : Account) : List PasskeyId := a.passkeys.map WebAuthnCredential.id

/-- No passkey more, and none with a smaller count. -/
structure Later (a a' : Account) : Prop where
  ids : (Account.ids a').Sublist (Account.ids a)
  counts : ∀ p' ∈ a'.passkeys, ∃ p ∈ a.passkeys, p.id = p'.id ∧ p.signCount ≤ p'.signCount

theorem Later.of_passkeys (h : a'.passkeys = a.passkeys) : Later a a' := by
  refine ⟨?_, fun p' hp' => ⟨p', h ▸ hp', rfl, Nat.le_refl _⟩⟩
  unfold Account.ids
  rw [h]

theorem Later.refl (a : Account) : Later a a := .of_passkeys rfl

theorem Later.trans {a'' : Account} (h : Later a a') (h' : Later a' a'') : Later a a'' := by
  refine ⟨h'.ids.trans h.ids, fun p'' hp'' => ?_⟩
  obtain ⟨p', hp', hid', hle'⟩ := h'.counts p'' hp''
  obtain ⟨p, hp, hid, hle⟩ := h.counts p' hp'
  exact ⟨p, hp, hid.trans hid', hle.trans hle'⟩

theorem Later.of_filter {q : WebAuthnCredential → Bool} (h : a'.passkeys = a.passkeys.filter q) :
    Later a a' := by
  refine ⟨?_, fun p' hp' => ⟨p', ?_, rfl, Nat.le_refl _⟩⟩
  · unfold Account.ids
    rw [h]
    exact List.filter_sublist.map _
  · rw [h] at hp'
    exact (List.mem_filter.mp hp').1

theorem ids_used {id : PasskeyId} {count : Nat} {now : Time} :
    Account.ids (Passkeys.used (Passkeys.dropChallenge a) id count now) = Account.ids a := by
  unfold Account.ids Passkeys.used
  rw [List.map_map]
  refine List.map_congr_left fun q _ => ?_
  simp only [Function.comp_apply]
  split <;> rfl

/-- The passkey that signed counts on; the others stay. -/
theorem later_used {p : WebAuthnCredential} {count : Nat} {now : Time}
    (hnodup : (Account.ids a).Nodup) (hp : p ∈ a.passkeys) (hcounts : Counts p.signCount count) :
    Later a (Passkeys.used (Passkeys.dropChallenge a) p.id count now) := by
  have hpasskeys : (Passkeys.used (Passkeys.dropChallenge a) p.id count now).passkeys
      = a.passkeys.map fun q =>
          if q.id = p.id then { q with signCount := count, lastUsedAt := some now } else q := rfl
  refine ⟨?_, fun p' hp' => ?_⟩
  · rw [ids_used]
  · rw [hpasskeys] at hp'
    obtain ⟨q, hq, rfl⟩ := List.mem_map.mp hp'
    split
    · next hid =>
      have hsame : q = p := List.inj_on_of_nodup_map hnodup hq hp hid
      subst hsame
      refine ⟨q, hq, rfl, ?_⟩
      rcases hcounts with hlt | ⟨hzero, -⟩
      · exact Nat.le_of_lt hlt
      · exact hzero ▸ Nat.zero_le _
    · exact ⟨q, hq, rfl, Nat.le_refl _⟩

theorem later_checkSecondFactor {attempt : Attempt} {now : Time} (hnodup : (Account.ids a).Nodup) :
    Later a (checkSecondFactor cfg a attempt now).1 := by
  unfold checkSecondFactor
  cases attempt with
  | passkey credential purpose =>
    dsimp only
    rcases hcheck : Passkeys.verifyAssertion cfg a credential purpose now with ⟨a', e | proof⟩
    · rcases verifyAssertion_refused hcheck with rfl | rfl
      · exact .refl _
      · exact .of_passkeys rfl
    · obtain ⟨challenge, p, count, -, hp, hcounts, -, rfl⟩ := verifyAssertion_ok hcheck
      exact later_used hnodup hp hcounts
  | codes code recoveryCode =>
    dsimp only
    cases hcheck : Totp.useSecondFactor cfg a code recoveryCode now with
    | none => exact .refl a
    | some used =>
      obtain ⟨proof, a'⟩ := used
      have hcases : a'.passkeys = a.passkeys := by
        unfold Totp.useSecondFactor Totp.useTotp Totp.useRecoveryCode at hcheck
        grind
      exact .of_passkeys hcases

theorem later_removing {attempt : Attempt} {now : Time} {remove : Account → Account}
    (hnodup : (Account.ids a).Nodup) (hremove : ∀ a, Later a (remove a)) :
    Later a (removing (checkSecondFactor cfg a attempt now) remove).account := by
  have hcheck := @later_checkSecondFactor cfg a attempt now hnodup
  unfold removing
  split
  · next heq =>
    rw [heq] at hcheck
    exact hcheck.trans (hremove _)
  · next heq =>
    rw [heq] at hcheck
    exact hcheck

theorem later_proving {attempt : Attempt} {now : Time} (hnodup : (Account.ids a).Nodup) :
    Later a (proving cfg a attempt now).account := by
  have hcheck := @later_checkSecondFactor cfg a attempt now hnodup
  unfold proving
  split <;> next heq => (rw [heq] at hcheck; exact hcheck)

theorem later_mfaUser {handler : Account → Reply} (h : Later a (handler a).account) :
    Later a (withMfaUser a handler).account := by
  unfold withMfaUser
  split
  · exact .refl a
  · exact h

/-- The handlers that leave the passkeys alone. -/
theorem passkeys_options {challenge : String} {purpose : Purpose} {now : Time} :
    (options cfg a challenge purpose now).account.passkeys = a.passkeys := by
  unfold options Passkeys.authenticationOptions
  grind [refuse, Passkeys.storeChallenge]

theorem passkeys_registrationOptions {challenge handle : String} {now : Time} :
    (passkeyRegistrationOptions cfg a challenge handle now).account.passkeys = a.passkeys := by
  unfold passkeyRegistrationOptions Passkeys.registrationOptions
  grind [refuse, Passkeys.storeChallenge]

theorem passkeys_totpSetup {secret : String} :
    (totpSetup a secret).account.passkeys = a.passkeys := by
  unfold totpSetup
  grind [refuse]

theorem passkeys_totpEnable {code : String} {hashes : List Digest} {now : Time} :
    (totpEnable cfg a code hashes now).account.passkeys = a.passkeys := by
  unfold totpEnable
  grind [refuse, bumpSession, Totp.enable]

theorem passkeys_regenerate {hashes : List Digest} :
    (regenerateRecoveryCodes a hashes).account.passkeys = a.passkeys := by
  unfold regenerateRecoveryCodes
  grind [refuse]

theorem later_totpDisable {roles : List Role} {proof : SecondFactorProof} {now : Time}
    (hnodup : (Account.ids a).Nodup) : Later a (totpDisable cfg a roles proof now).account := by
  unfold totpDisable
  split
  · exact .refl a
  split
  · exact .refl a
  · exact later_removing hnodup fun _ => .of_passkeys rfl

theorem later_withoutPasskey (a : Account) (id : PasskeyId) : Later a (withoutPasskey a id) := by
  refine .of_filter (q := fun p => p.id != id) ?_
  unfold withoutPasskey
  dsimp only
  split <;> rfl

theorem later_removePasskey {roles : List Role} {id : PasskeyId} {proof : SecondFactorProof}
    {now : Time} (hnodup : (Account.ids a).Nodup) :
    Later a (removePasskey cfg a roles id proof now).account := by
  unfold removePasskey
  split
  · exact .refl a
  split
  · exact .refl a
  · exact later_removing hnodup fun a => later_withoutPasskey a id

theorem later_resetTwoFactor : Later a (resetTwoFactor a).account := by
  unfold resetTwoFactor Totp.clearAll
  split
  · exact .refl a
  · next cleared hcleared =>
    split at hcleared
    · exact absurd hcleared (by simp)
    · obtain rfl := Option.some.inj hcleared
      exact ⟨List.nil_sublist _, fun p' hp' => absurd hp' (by simp [bumpSession, Totp.clear])⟩

/-- A registration adds one passkey, under the next id, or none. -/
theorem passkeys_addPasskey {id : PasskeyId} {name : String} {credential : PasskeyResponse}
    {registered : String → Bool} {hashes : List Digest} {now : Time} :
    let r := (addPasskey cfg a id name credential registered hashes now).account
    r.passkeys = a.passkeys ∨ ∃ p, p.id = id ∧ r.passkeys = a.passkeys ++ [p] := by
  unfold addPasskey
  split
  · exact Or.inl rfl
  rcases @verifyRegistration_cases cfg a credential now with
    ⟨e, hcheck⟩ | ⟨e, hcheck⟩ | ⟨challenge, new, hcheck, -⟩
  · rw [hcheck]
    exact Or.inl rfl
  · rw [hcheck]
    exact Or.inl rfl
  rw [hcheck]
  dsimp only
  split
  · exact Or.inl rfl
  · refine Or.inr ⟨⟨id, new.credentialId, new.publicKey, new.signCount, name, none⟩, rfl, ?_⟩
    unfold withPasskey
    dsimp only
    split <;> rfl

/-- What a run does to the passkeys: none comes back, and no count goes back. -/
structure Evolves (s t : State) : Prop where
  seq : s.seq ≤ t.seq
  counts : ∀ p' ∈ t.account.passkeys, p'.id < s.seq →
    ∃ p ∈ s.account.passkeys, p.id = p'.id ∧ p.signCount ≤ p'.signCount

/-- Ids are given once. -/
structure Numbered (s : State) : Prop where
  nodup : (Account.ids s.account).Nodup
  below : ∀ p ∈ s.account.passkeys, p.id < s.seq

theorem Later.evolves (h : Later s.account t.account) (hseq : t.seq = s.seq + 1) : Evolves s t :=
  ⟨hseq ▸ Nat.le_succ _, fun p' hp' _ => h.counts p' hp'⟩

theorem Later.numbered (h : Later s.account t.account) (hseq : t.seq = s.seq + 1)
    (hs : Numbered s) : Numbered t := by
  refine ⟨hs.nodup.sublist h.ids, fun p' hp' => ?_⟩
  obtain ⟨p, hp, hid, -⟩ := h.counts p' hp'
  rw [← hid, hseq]
  exact Nat.lt_succ_of_lt (hs.below p hp)

theorem evolves_added {p : WebAuthnCredential} (hid : p.id = s.seq)
    (hpasskeys : t.account.passkeys = s.account.passkeys ++ [p]) (hseq : t.seq = s.seq + 1)
    (hs : Numbered s) : Evolves s t ∧ Numbered t := by
  refine ⟨⟨hseq ▸ Nat.le_succ _, fun p' hp' hlt => ?_⟩, ?_, fun p' hp' => ?_⟩
  · rw [hpasskeys] at hp'
    rcases List.mem_append.mp hp' with hold | hnew
    · exact ⟨p', hold, rfl, Nat.le_refl _⟩
    · rw [List.mem_singleton.mp hnew, hid] at hlt
      exact absurd hlt (Nat.lt_irrefl _)
  · unfold Account.ids
    rw [hpasskeys, List.map_append, List.nodup_append]
    refine ⟨hs.nodup, List.nodup_singleton _, ?_⟩
    intro i hi j hj
    obtain ⟨q, hq, rfl⟩ := List.mem_map.mp hi
    rw [List.map_singleton, List.mem_singleton] at hj
    rw [hj, hid]
    exact Nat.ne_of_lt (hs.below q hq)
  · rw [hpasskeys] at hp'
    rw [hseq]
    rcases List.mem_append.mp hp' with hold | hnew
    · exact Nat.lt_succ_of_lt (hs.below p' hold)
    · rw [List.mem_singleton.mp hnew, hid]
      exact Nat.lt_succ_self _

theorem evolves_step {e : Label} (hs : Numbered s) (hstep : step cfg s e = some t) :
    Evolves s t ∧ Numbered t := by
  obtain rfl := Option.some.inj hstep
  have hlater : Later s.account (reply cfg s e).account →
      Evolves s (State.mk (reply cfg s e).account (s.seq + 1)
        ((reply cfg s e).events.reverse ++ s.log)) ∧
      Numbered (State.mk (reply cfg s e).account (s.seq + 1)
        ((reply cfg s e).events.reverse ++ s.log)) :=
    fun h => ⟨Later.evolves h rfl, Later.numbered h rfl hs⟩
  cases e with
  | loginMfa code recoveryCode now => exact hlater (later_mfaUser (later_proving hs.nodup))
  | loginPasskeyOptions challenge now =>
    exact hlater (later_mfaUser (.of_passkeys passkeys_options))
  | loginPasskey credential now => exact hlater (later_mfaUser (later_proving hs.nodup))
  | totpSetup secret => exact hlater (.of_passkeys passkeys_totpSetup)
  | totpEnable code hashes now => exact hlater (.of_passkeys passkeys_totpEnable)
  | totpDisable roles proof now => exact hlater (later_totpDisable hs.nodup)
  | regenerateRecoveryCodes hashes => exact hlater (.of_passkeys passkeys_regenerate)
  | passkeyRegistrationOptions challenge handle now =>
    exact hlater (.of_passkeys passkeys_registrationOptions)
  | addPasskey name credential registered hashes now =>
    rcases @passkeys_addPasskey cfg s.account s.seq name credential
        (fun id => registered || s.account.passkeys.any fun p => p.credentialId == id) hashes now
        with
      hsame | ⟨p, hid, hadded⟩
    · exact hlater (.of_passkeys hsame)
    · exact evolves_added hid hadded rfl hs
  | passkeyStepUpOptions challenge now => exact hlater (.of_passkeys passkeys_options)
  | removePasskey roles id proof now => exact hlater (later_removePasskey hs.nodup)
  | resetTwoFactor => exact hlater later_resetTwoFactor
  | setActive isActive => exact hlater (.of_passkeys rfl)

theorem Evolves.trans {w : State} (h : Evolves s t) (h' : Evolves t w) : Evolves s w := by
  refine ⟨h.seq.trans h'.seq, fun p'' hp'' hlt => ?_⟩
  obtain ⟨p', hp', hid', hle'⟩ := h'.counts p'' hp'' (Nat.lt_of_lt_of_le hlt h.seq)
  obtain ⟨p, hp, hid, hle⟩ := h.counts p' hp' (hid' ▸ hlt)
  exact ⟨p, hp, hid.trans hid', hle.trans hle'⟩

/-! ## What a sound log says -/

/-- It enabled TOTP. -/
def Event.enrolls : Event → Bool
  | .enrolled _ => true
  | _ => false

/-- It took a challenge. -/
def Event.answers : Event → Bool
  | .accepted (.passkey ..) | .registered _ => true
  | _ => false

theorem Sound.fits {newer older : List Event} {e : Event} (h : Sound (newer ++ e :: older)) :
    Fits older e := by
  induction newer with
  | nil => exact h.1
  | cons _ newer ih => exact ih h.2

/-- Back to the enrolment, every counter is below. -/
theorem Above.of_mid {c c' : Counter} {mid older : List Event} {e : Event}
    (h : Above c (mid ++ e :: older)) (hcounter : e.counter = some c')
    (hmid : ∀ e ∈ mid, e.enrolls = false) : c' < c := by
  induction mid with
  | nil =>
    cases e with
    | enrolled k => exact Option.some.inj hcounter ▸ h
    | accepted proof =>
      cases proof with
      | totp k => exact Option.some.inj hcounter ▸ h.1
      | recoveryCode hash => exact absurd hcounter (by simp [Event.counter])
      | passkey => exact absurd hcounter (by simp [Event.counter])
    | issuedCodes hashes => exact absurd hcounter (by simp [Event.counter])
    | issuedChallenge purpose challenge => exact absurd hcounter (by simp [Event.counter])
    | registered challenge => exact absurd hcounter (by simp [Event.counter])
  | cons first mid ih =>
    have hrest : ∀ e ∈ mid, e.enrolls = false := fun e he => hmid e (List.mem_cons_of_mem _ he)
    cases first with
    | enrolled k => exact absurd (hmid _ List.mem_cons_self) (by simp [Event.enrolls])
    | accepted proof =>
      cases proof with
      | totp k => exact ih h.2 hrest
      | recoveryCode hash => exact ih h hrest
      | passkey => exact ih h hrest
    | issuedCodes hashes => exact ih h hrest
    | issuedChallenge purpose challenge => exact ih h hrest
    | registered challenge => exact ih h hrest

theorem Live.issued {hash : Digest} (h : Live hash log) :
    ∃ mid hashes rest, log = mid ++ .issuedCodes hashes :: rest ∧ hash ∈ hashes ∧
      .accepted (.recoveryCode hash) ∉ mid := by
  induction log with
  | nil => exact absurd h id
  | cons e log ih =>
    have hlater : Live hash log → e ≠ .accepted (.recoveryCode hash) →
        ∃ mid hashes rest, e :: log = mid ++ .issuedCodes hashes :: rest ∧ hash ∈ hashes ∧
          .accepted (.recoveryCode hash) ∉ mid := by
      intro hlive hne
      obtain ⟨mid, hashes, rest, rfl, hmem, hmid⟩ := ih hlive
      exact ⟨e :: mid, hashes, rest, rfl, hmem,
        List.not_mem_cons_of_ne_of_not_mem (Ne.symm hne) hmid⟩
    cases e with
    | enrolled k => exact hlater h (by simp)
    | accepted proof =>
      cases proof with
      | totp k => exact hlater h (by simp)
      | recoveryCode used => exact hlater h.2 (by simpa using h.1)
      | passkey => exact hlater h (by simp)
    | issuedCodes hashes => exact ⟨[], hashes, log, rfl, h, by simp⟩
    | issuedChallenge purpose challenge => exact hlater h (by simp)
    | registered challenge => exact hlater h (by simp)

theorem Open.issued {purpose : Purpose} {challenge : String} (h : Open purpose challenge log) :
    ∃ mid rest, log = mid ++ .issuedChallenge purpose challenge :: rest ∧
      ∀ e ∈ mid, e.answers = false := by
  induction log with
  | nil => exact absurd h id
  | cons e log ih =>
    have hlater : Open purpose challenge log → e.answers = false →
        ∃ mid rest, e :: log = mid ++ .issuedChallenge purpose challenge :: rest ∧
          ∀ e ∈ mid, e.answers = false := by
      intro hopen hanswers
      obtain ⟨mid, rest, rfl, hmid⟩ := ih hopen
      exact ⟨e :: mid, rest, rfl, List.forall_mem_cons.mpr ⟨hanswers, hmid⟩⟩
    cases e with
    | enrolled k => exact hlater h rfl
    | accepted proof =>
      cases proof with
      | totp k => exact hlater h rfl
      | recoveryCode hash => exact hlater h rfl
      | passkey => exact absurd h id
    | issuedCodes hashes => exact hlater h rfl
    | issuedChallenge p c =>
      obtain ⟨rfl, rfl⟩ := h
      exact ⟨[], log, rfl, by simp⟩
    | registered challenge' => exact absurd h id

/-- What a log has nothing of, the newest event first. -/
structure NoReplay (log : List Event) : Prop where
  /-- A code's time step is above every one accepted before it since TOTP was enabled. -/
  counters : ∀ newer c mid e c' older,
    log = newer ++ .accepted (.totp c) :: (mid ++ e :: older) → e.counter = some c' →
      (∀ e ∈ mid, e.enrolls = false) → c' < c
  /-- A recovery code was issued, and not accepted since. -/
  codes : ∀ newer hash older, log = newer ++ .accepted (.recoveryCode hash) :: older →
    ∃ mid hashes rest, older = mid ++ .issuedCodes hashes :: rest ∧ hash ∈ hashes ∧
      .accepted (.recoveryCode hash) ∉ mid
  /-- An assertion answers a challenge that was issued for its purpose and that nobody answered
  since, and its count goes up, unless the authenticator does not count. -/
  assertions : ∀ newer purpose challenge id before after older,
    log = newer ++ .accepted (.passkey purpose challenge id before after) :: older →
      (before < after ∨ (before = 0 ∧ after = 0)) ∧
      ∃ mid rest, older = mid ++ .issuedChallenge purpose challenge :: rest ∧
        ∀ e ∈ mid, e.answers = false
  /-- So does a registration. -/
  registrations : ∀ newer challenge older, log = newer ++ .registered challenge :: older →
    ∃ mid rest, older = mid ++ .issuedChallenge .register challenge :: rest ∧
      ∀ e ∈ mid, e.answers = false

theorem Sound.noReplay (h : Sound log) : NoReplay log := by
  constructor
  · rintro newer c mid e c' older rfl hcounter hmid
    have habove : Above c (mid ++ e :: older) := h.fits
    exact habove.of_mid hcounter hmid
  · rintro newer hash older rfl
    have hlive : Live hash older := h.fits
    exact hlive.issued
  · rintro newer purpose challenge id before after older rfl
    have hfits : Open purpose challenge older ∧ Counts before after := h.fits
    exact ⟨hfits.2, hfits.1.issued⟩
  · rintro newer challenge older rfl
    have hopen : Open .register challenge older := h.fits
    exact hopen.issued

/-! ## Every run -/

structure Inv (s : State) : Prop where
  good : Good s.account s.log
  numbered : Numbered s

theorem inv_init (h : (system cfg).init s) : Inv s := by
  obtain ⟨hfresh, hpasskeys, hlog⟩ := h
  simp only [fresh, Bool.and_eq_true, Option.isNone_iff_eq_none] at hfresh
  obtain ⟨⟨⟨⟨hsecret, -⟩, -⟩, hcodes⟩, hpending⟩ := hfresh
  refine ⟨⟨fun hon => ?_, fun hash hhash => ?_, fun p hp => ?_, fun hsome => ?_, hlog ▸ trivial⟩,
    ⟨?_, fun p hp => ?_⟩⟩
  · exact absurd hon (by simp [Account.totpEnabled, hsecret])
  · exact absurd hhash (by simp [hcodes])
  · exact absurd hp (by simp [hpending])
  · exact absurd hsome (by simp [hcodes])
  · simp [Account.ids, hpasskeys]
  · exact absurd hp (by simp [hpasskeys])

theorem inv_step {e : Label} (h : Inv s) (hs : step cfg s e = some t) : Inv t := by
  have hnumbered := (evolves_step h.numbered hs).2
  obtain rfl := Option.some.inj hs
  exact ⟨reply_keeps h.good e, hnumbered⟩

theorem evolves_path (h : Inv s) (hp : (system cfg).Path Lib.anyStep s t) : Evolves s t := by
  refine hp.rel (I := Inv) (R := Evolves) (fun s e t hs _ hstep => inv_step hs hstep)
    (fun s => ⟨Nat.le_refl _, fun p hp _ => ⟨p, hp, rfl, Nat.le_refl _⟩⟩) ?_ h
  intro s t e w ht hst _ hstep
  exact hst.trans (evolves_step ht.numbered hstep).1

/-- **Second factors are not replayed, sign counts do not go back, and recovery codes go with the
last factor.** -/
theorem no_replay (hr : (system cfg).Reachable s) :
    NoReplay s.log ∧
    (∀ t, (system cfg).Path Lib.anyStep s t → ∀ p ∈ s.account.passkeys, ∀ p' ∈ t.account.passkeys,
      p'.id = p.id → p.signCount ≤ p'.signCount) ∧
    (s.account.user.recoveryCodeHashes.isSome = true → s.account.twoFactorEnabled = true) := by
  have hinv : (system cfg).Inductive Lib.anyStep Inv :=
    ⟨fun s => inv_init, fun s e t h _ hs => inv_step h hs⟩
  have h := hinv.of_reachable hr
  refine ⟨h.good.sound.noReplay, ?_, h.good.factor⟩
  intro t hpath p hp p' hp' hid
  obtain ⟨q, hq, hqid, hle⟩ :=
    (evolves_path h hpath).counts p' hp' (hid ▸ h.numbered.below p hp)
  have hsame : q = p := List.inj_on_of_nodup_map h.numbered.nodup hq hp (hqid.trans hid)
  exact hsame ▸ hle

/-! TOTP enabled with the code of one time step, a login with the next one's, and that again. -/

/-- The codes of the time steps 1, 2 and of all others. -/
def plainSettings : AuthSettings where
  generateOtp _ counter := if counter = 1 then "111111" else if counter = 2
    then "222222" else "000000"
  hash := id
  lower := id
  passkeyRp := none
  verifyAuthentication _ _ _ _ := none
  verifyRegistration _ _ _ := none

def ada : State := { account := { user := { username := "ada", passwordHash := "" } } }

def logins : List Label :=
  [.totpSetup "secret", .totpEnable "111111" ["code"] 30, .loginMfa (some "222222") none 60,
    .loginMfa (some "222222") none 60]

theorem ada_init : (system plainSettings).init ada := ⟨rfl, rfl, rfl⟩

theorem no_replay_ada :
    ∃ s : State, NoReplay s.log ∧
      s.log = [.accepted (.totp 2), .issuedCodes ["code"], .enrolled 1] :=
  ⟨_, (no_replay (Lib.System.ReachableBy.of_isSome ada_init logins rfl)).1, rfl⟩

end Auth

end AnsiDeck
