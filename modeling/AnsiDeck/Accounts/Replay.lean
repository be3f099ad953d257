import AnsiDeck.Accounts.Auth
import AnsiDeck.Lib.System

/-!
# Second factors are not replayed

One user's requests, one after the other: each holds the user's row from its check to its commit.
The log keeps, the newest first, what was accepted and issued.

Three things in the account say what may still be accepted, and the log says why: the last counter
is above every one accepted since TOTP was enabled (`Above`), a stored hash is of a code that was
issued last and not used since (`Live`), the pending challenge is the last one issued and nobody
answered it (`Open`). A request only adds what fits the log before it.
-/

namespace AnsiDeck

namespace Auth

structure State where
  account : Account
  /-- The next passkey's id. -/
  seq : PasskeyId := 1
  log : List Event := []

inductive Label
  | loginMfa (code recoveryCode : Option String) (now : Time)
  | loginPasskeyOptions (challenge : String) (now : Time)
  | loginPasskey (credential : PasskeyResponse) (now : Time)
  | totpSetup (secret : String)
  | totpEnable (code : String) (hashes : List Digest) (now : Time)
  | totpDisable (roles : List Role) (proof : SecondFactorProof) (now : Time)
  | regenerateRecoveryCodes (hashes : List Digest)
  | passkeyRegistrationOptions (challenge handle : String) (now : Time)
  | addPasskey (name : String) (credential : PasskeyResponse) (registered : Bool)
      (hashes : List Digest) (now : Time)
  | passkeyStepUpOptions (challenge : String) (now : Time)
  | removePasskey (roles : List Role) (id : PasskeyId) (proof : SecondFactorProof) (now : Time)
  | resetTwoFactor
  /-- An administrator disables or enables the user. -/
  | setActive (isActive : Bool)
  deriving DecidableEq

variable (cfg : AuthSettings)

/-- `registered` adds other users' credentials to the user's own. -/
def reply (s : State) : Label → Reply
  | .loginMfa code recoveryCode now => loginMfa cfg s.account code recoveryCode now
  | .loginPasskeyOptions challenge now => loginPasskeyOptions cfg s.account challenge now
  | .loginPasskey credential now => loginPasskey cfg s.account credential now
  | .totpSetup secret => totpSetup s.account secret
  | .totpEnable code hashes now => totpEnable cfg s.account code hashes now
  | .totpDisable roles proof now => totpDisable cfg s.account roles proof now
  | .regenerateRecoveryCodes hashes => regenerateRecoveryCodes s.account hashes
  | .passkeyRegistrationOptions challenge handle now =>
    passkeyRegistrationOptions cfg s.account challenge handle now
  | .addPasskey name credential registered hashes now =>
    addPasskey cfg s.account s.seq name credential
      (fun id => registered || s.account.passkeys.any fun p => p.credentialId == id) hashes now
  | .passkeyStepUpOptions challenge now => passkeyStepUpOptions cfg s.account challenge now
  | .removePasskey roles id proof now => removePasskey cfg s.account roles id proof now
  | .resetTwoFactor => resetTwoFactor s.account
  | .setActive isActive =>
    { account := { s.account with user := { s.account.user with isActive := isActive } } }

def step (s : State) (a : Label) : Option State :=
  let r := reply cfg s a
  some { account := r.account, seq := s.seq + 1, log := r.events.reverse ++ s.log }

/-- A user without a second factor, as `create_user` makes one. -/
def fresh (user : User) : Bool :=
  user.totpSecret.isNone && user.totpPendingSecret.isNone && user.totpLastCounter.isNone &&
    user.recoveryCodeHashes.isNone && user.webauthnPending.isNone

def system : Lib.System State Label where
  init s := fresh s.account.user ∧ s.account.passkeys = [] ∧ s.log = []
  step := step cfg

/-! ## What the log says -/

/-- The time step an event accepted. -/
def Event.counter : Event → Option Counter
  | .enrolled counter | .accepted (.totp counter) => some counter
  | _ => none

/-- Every counter accepted since TOTP was enabled, with that one's own, is below `counter`. -/
def Above (counter : Counter) : List Event → Prop
  | [] => True
  | .enrolled c :: _ => c < counter
  | .accepted (.totp c) :: log => c < counter ∧ Above counter log
  | _ :: log => Above counter log

/-- The hash is of a code issued last, and not used since. -/
def Live (hash : Digest) : List Event → Prop
  | [] => False
  | .issuedCodes hashes :: _ => hash ∈ hashes
  | .accepted (.recoveryCode h) :: log => h ≠ hash ∧ Live hash log
  | _ :: log => Live hash log

/-- The challenge is the last one issued, for this purpose, and nobody answered it. -/
def Open (purpose : Purpose) (challenge : String) : List Event → Prop
  | [] => False
  | .issuedChallenge p c :: _ => p = purpose ∧ c = challenge
  | .accepted (.passkey ..) :: _ => False
  | .registered _ :: _ => False
  | _ :: log => Open purpose challenge log

/-- A sign count that may follow another. -/
def Counts (before after : Nat) : Prop := before < after ∨ (before = 0 ∧ after = 0)

/-- What may come after a log. -/
def Fits (log : List Event) : Event → Prop
  | .accepted (.totp counter) => Above counter log
  | .accepted (.recoveryCode hash) => Live hash log
  | .accepted (.passkey purpose challenge _ before after) =>
    Open purpose challenge log ∧ Counts before after
  | .registered challenge => Open .register challenge log
  | _ => True

/-- Each event fits what was logged before it. -/
def Sound : List Event → Prop
  | [] => True
  | e :: log => Fits log e ∧ Sound log

/-! ## What an account may still accept -/

variable {cfg} {a a' : Account} {log : List Event}

/-- The account and the log agree. -/
structure Good (a : Account) (log : List Event) : Prop where
  totp : a.totpEnabled = true → ∃ c, a.user.totpLastCounter = some c ∧ Above (c + 1) log
  codes : ∀ hash ∈ a.user.recoveryCodeHashes.getD [], Live hash log
  pending : ∀ p, a.user.webauthnPending = some p → Open p.purpose p.challenge log
  /-- Recovery codes stand in for a second factor, and for nothing else. -/
  factor : a.user.recoveryCodeHashes.isSome = true → a.twoFactorEnabled = true
  sound : Sound log

theorem Above.mono {c c' : Counter} (h : Above c log) (hle : c ≤ c') : Above c' log := by
  induction log with
  | nil => trivial
  | cons e log ih =>
    cases e with
    | enrolled k => exact Nat.lt_of_lt_of_le h hle
    | accepted proof =>
      cases proof with
      | totp k => exact ⟨Nat.lt_of_lt_of_le h.1 hle, ih h.2⟩
      | recoveryCode hash => exact ih h
      | passkey => exact ih h
    | issuedCodes hashes => exact ih h
    | issuedChallenge purpose challenge => exact ih h
    | registered challenge => exact ih h

/-- A counter that matches is above the last one. -/
theorem matchCounter_above {secret code : String} {last : Option Counter} {now : Time}
    {counter : Counter} (h : Totp.matchCounter cfg secret code last now = some counter) :
    ∀ c, last = some c → c < counter := by
  unfold Totp.matchCounter at h
  split at h
  · exact absurd h (by simp)
  · intro c hlast
    have hfound := List.find?_some h
    subst hlast
    simp only [Option.any_some, Bool.and_eq_true, Bool.not_eq_true',
      decide_eq_false_iff_not] at hfound
    exact Nat.lt_of_not_le hfound.1

theorem useTotp_good {code : String} {now : Time} {proof : Proof} (h : Good a log)
    (hused : Totp.useTotp cfg a code now = some (proof, a')) :
    Good a' (.accepted proof :: log) := by
  unfold Totp.useTotp at hused
  split at hused
  · exact absurd hused (by simp)
  next secret hsecret =>
  split at hused
  · exact absurd hused (by simp)
  next counter hcounter =>
  obtain ⟨rfl, rfl⟩ := Prod.mk.inj (Option.some.inj hused)
  obtain ⟨last, hlast, habove⟩ := h.totp (by simp [Account.totpEnabled, hsecret])
  have hbelow := habove.mono (matchCounter_above hcounter last hlast)
  refine ⟨fun _ => ⟨counter, rfl, Nat.lt_succ_self _, hbelow.mono (Nat.le_succ _)⟩, h.codes,
    h.pending, h.factor, hbelow, h.sound⟩

theorem useRecoveryCode_good {code : String} {proof : Proof} (h : Good a log)
    (hused : Totp.useRecoveryCode cfg a code = some (proof, a')) :
    Good a' (.accepted proof :: log) := by
  unfold Totp.useRecoveryCode at hused
  dsimp only at hused
  split at hused
  · exact absurd hused (by simp)
  split at hused
  · exact absurd hused (by simp)
  next hmatch =>
  obtain ⟨rfl, rfl⟩ := Prod.mk.inj (Option.some.inj hused)
  obtain ⟨hfactor, hmem⟩ : a.twoFactorEnabled = true ∧ _ := by simpa using hmatch
  refine ⟨h.totp, ?_, h.pending, fun _ => hfactor, h.codes _ hmem, h.sound⟩
  intro hash hhash
  obtain ⟨hold, hne⟩ : hash ∈ a.user.recoveryCodeHashes.getD [] ∧ _ := by simpa using hhash
  exact ⟨Ne.symm hne, h.codes hash hold⟩

/-- The challenge a ceremony takes is the open one. -/
theorem takeChallenge_open {purpose : Purpose} {now : Time} {challenge : String} (h : Good a log)
    (htake : Passkeys.takeChallenge a purpose now = .ok challenge) :
    Open purpose challenge log := by
  unfold Passkeys.takeChallenge at htake
  split at htake
  · next pending hpending =>
    split at htake
    · exact absurd htake (by simp)
    · next hgood =>
      obtain rfl := Except.ok.inj htake
      obtain ⟨hpurpose, -⟩ : pending.purpose = purpose ∧ _ := by simpa using hgood
      exact hpurpose ▸ h.pending pending hpending
  · exact absurd htake (by simp)

theorem dropChallenge_good (h : Good a log) : Good (Passkeys.dropChallenge a) log :=
  ⟨h.totp, h.codes, fun p hp => absurd hp (by simp [Passkeys.dropChallenge]), h.factor, h.sound⟩

/-- A refused assertion takes the challenge, or leaves the account as it was. -/
theorem verifyAssertion_refused {credential : PasskeyResponse} {purpose : Purpose} {now : Time}
    {e : Passkeys.PasskeyError}
    (hfails : Passkeys.verifyAssertion cfg a credential purpose now = (a', .error e)) :
    a' = a ∨ a' = Passkeys.dropChallenge a := by
  unfold Passkeys.verifyAssertion at hfails
  grind

theorem verifyAssertion_error {credential : PasskeyResponse} {purpose : Purpose} {now : Time}
    {e : Passkeys.PasskeyError} (h : Good a log)
    (hfails : Passkeys.verifyAssertion cfg a credential purpose now = (a', .error e)) :
    Good a' log := by
  rcases verifyAssertion_refused hfails with rfl | rfl
  · exact h
  · exact dropChallenge_good h

/-- What an accepted assertion was: an answer to the pending challenge by one of the passkeys. -/
theorem verifyAssertion_ok {credential : PasskeyResponse} {purpose : Purpose} {now : Time}
    {proof : Proof}
    (hok : Passkeys.verifyAssertion cfg a credential purpose now = (a', .ok proof)) :
    ∃ challenge p count, Passkeys.takeChallenge a purpose now = .ok challenge ∧ p ∈ a.passkeys ∧
      Counts p.signCount count ∧ proof = .passkey purpose challenge p.id p.signCount count ∧
        a' = Passkeys.used (Passkeys.dropChallenge a) p.id count now := by
  unfold Passkeys.verifyAssertion at hok
  split at hok
  · exact absurd hok (by simp)
  split at hok
  · exact absurd hok (by simp)
  next challenge htake =>
  split at hok
  · exact absurd hok (by simp)
  next p hfind =>
  split at hok
  · exact absurd hok (by simp)
  next count hcount =>
  split at hok
  · exact absurd hok (by simp)
  next hcounts =>
  obtain ⟨rfl, hproof⟩ := Prod.mk.inj hok
  refine ⟨challenge, p, count, htake, List.mem_of_find?_eq_some hfind, ?_,
    (Except.ok.inj hproof).symm, rfl⟩
  simp only [Bool.and_eq_true, Bool.or_eq_true, decide_eq_true_eq, ne_eq, not_and] at hcounts
  unfold Counts
  by_contra hnot
  rw [not_or] at hnot
  have hle : count ≤ p.signCount := Nat.le_of_not_lt hnot.1
  exact hcounts (by omega) hle

theorem passkeys_used {id : PasskeyId} {count : Nat} {now : Time} :
    (Passkeys.used a id count now).passkeys.isEmpty = a.passkeys.isEmpty := by
  simp [Passkeys.used]

theorem verifyAssertion_good {credential : PasskeyResponse} {purpose : Purpose} {now : Time}
    {proof : Proof} (h : Good a log)
    (hok : Passkeys.verifyAssertion cfg a credential purpose now = (a', .ok proof)) :
    Good a' (.accepted proof :: log) := by
  obtain ⟨challenge, p, count, htake, -, hcounts, rfl, rfl⟩ := verifyAssertion_ok hok
  refine ⟨h.totp, h.codes, fun p hp => absurd hp (by simp [Passkeys.used, Passkeys.dropChallenge]),
    ?_, ⟨takeChallenge_open h htake, hcounts⟩, h.sound⟩
  intro hcodes
  have := h.factor hcodes
  unfold Account.twoFactorEnabled at this ⊢
  rw [passkeys_used]
  exact this

/-- **The check of a second factor: the log grows by a proof that fits it, or not at all.** -/
theorem checkSecondFactor_good {attempt : Attempt} {now : Time} (h : Good a log) :
    match checkSecondFactor cfg a attempt now with
    | (a', .ok proof) => Good a' (.accepted proof :: log)
    | (a', .error _) => Good a' log := by
  unfold checkSecondFactor
  cases attempt with
  | passkey credential purpose =>
    dsimp only
    rcases hcheck : Passkeys.verifyAssertion cfg a credential purpose now with ⟨a', e | proof⟩
    · exact verifyAssertion_error h hcheck
    · exact verifyAssertion_good h hcheck
  | codes code recoveryCode =>
    dsimp only
    cases hcheck : Totp.useSecondFactor cfg a code recoveryCode now with
    | none => exact h
    | some used =>
      obtain ⟨proof, a'⟩ := used
      unfold Totp.useSecondFactor at hcheck
      split at hcheck
      · exact useTotp_good h hcheck
      · exact useRecoveryCode_good h hcheck
      · exact absurd hcheck (by simp)

/-! ## The handlers -/

/-- What a reply leaves, and the log with its events. -/
def Keeps (log : List Event) (r : Reply) : Prop := Good r.account (r.events.reverse ++ log)

theorem keeps_refuse (h : Good a log) (status : Nat) (detail : String) :
    Keeps log (refuse a status detail) := h

theorem keeps_mfaUser {handler : Account → Reply} (h : Good a log)
    (hhandler : Keeps log (handler a)) : Keeps log (withMfaUser a handler) := by
  unfold withMfaUser
  split
  · exact keeps_refuse h _ _
  · exact hhandler

theorem keeps_proving {attempt : Attempt} {now : Time} (h : Good a log) :
    Keeps log (proving cfg a attempt now) := by
  have hcheck := @checkSecondFactor_good cfg a log attempt now h
  unfold proving
  rcases hout : checkSecondFactor cfg a attempt now with ⟨a', e | proof⟩
  · rw [hout] at hcheck
    exact hcheck
  · rw [hout] at hcheck
    exact hcheck

theorem storeChallenge_good {challenge : String} {purpose : Purpose} {now : Time} (h : Good a log) :
    Good (Passkeys.storeChallenge a challenge purpose now)
      (.issuedChallenge purpose challenge :: log) := by
  refine ⟨h.totp, h.codes, ?_, h.factor, trivial, h.sound⟩
  intro p hp
  obtain rfl := Option.some.inj hp
  exact ⟨rfl, rfl⟩

theorem keeps_options {challenge : String} {purpose : Purpose} {now : Time} (h : Good a log) :
    Keeps log (options cfg a challenge purpose now) := by
  unfold options Passkeys.authenticationOptions
  split
  · next a' hok =>
    split at hok
    · exact absurd hok (by simp)
    split at hok
    · exact absurd hok (by simp)
    obtain rfl := Except.ok.inj hok
    exact storeChallenge_good h
  · exact keeps_refuse h _ _

theorem keeps_registrationOptions {challenge handle : String} {now : Time} (h : Good a log) :
    Keeps log (passkeyRegistrationOptions cfg a challenge handle now) := by
  unfold passkeyRegistrationOptions Passkeys.registrationOptions
  split
  · next a' hok =>
    split at hok
    · exact absurd hok (by simp)
    split at hok
    · exact absurd hok (by simp)
    obtain rfl := Except.ok.inj hok
    exact storeChallenge_good ⟨h.totp, h.codes, h.pending, h.factor, h.sound⟩
  · exact keeps_refuse h _ _

theorem keeps_totpSetup {secret : String} (h : Good a log) : Keeps log (totpSetup a secret) := by
  unfold totpSetup
  split
  · exact keeps_refuse h _ _
  · exact ⟨h.totp, h.codes, h.pending, h.factor, h.sound⟩

/-- Codes are live as soon as they are issued. -/
theorem live_issued {hashes : List Digest} {hash : Digest} (h : hash ∈ hashes) :
    Live hash (.issuedCodes hashes :: log) := h

theorem keeps_totpEnable {code : String} {hashes : List Digest} {now : Time} (h : Good a log) :
    Keeps log (totpEnable cfg a code hashes now) := by
  unfold totpEnable
  split
  · exact keeps_refuse h _ _
  split
  · exact keeps_refuse h _ _
  next secret hsecret =>
  split
  · exact keeps_refuse h _ _
  next counter hcounter =>
  unfold Keeps firstCodes
  have hon : (bumpSession (Totp.enable a counter hashes)).twoFactorEnabled = true := by
    simp [Account.twoFactorEnabled, Account.totpEnabled, bumpSession, Totp.enable, hsecret]
  by_cases hfirst : a.twoFactorEnabled = true
  · rw [if_pos hfirst]
    refine ⟨fun _ => ⟨counter, rfl, Nat.lt_succ_self _⟩, ?_, h.pending, fun _ => hon,
      trivial, h.sound⟩
    intro hash hhash
    exact h.codes hash (by simpa [bumpSession, Totp.enable, hfirst] using hhash)
  · rw [if_neg hfirst]
    refine ⟨fun _ => ⟨counter, rfl, Nat.lt_succ_self _⟩, ?_, h.pending, fun _ => hon, trivial,
      trivial, h.sound⟩
    intro hash hhash
    have hmem : hash ∈ hashes := by
      simpa [bumpSession, Totp.enable, hfirst] using hhash
    exact live_issued hmem

theorem keeps_regenerate {hashes : List Digest} (h : Good a log) :
    Keeps log (regenerateRecoveryCodes a hashes) := by
  unfold regenerateRecoveryCodes
  split
  · exact keeps_refuse h _ _
  · next hon =>
    have hfactor : a.twoFactorEnabled = true := by simpa using hon
    exact ⟨h.totp, fun hash hhash => live_issued hhash, h.pending, fun _ => hfactor,
      trivial, h.sound⟩

theorem verifyRegistration_cases {credential : PasskeyResponse} {now : Time} :
    (∃ e, Passkeys.verifyRegistration cfg a credential now = (a, .error e)) ∨
    (∃ e, Passkeys.verifyRegistration cfg a credential now = (Passkeys.dropChallenge a, .error e)) ∨
    ∃ challenge new, Passkeys.verifyRegistration cfg a credential now
        = (Passkeys.dropChallenge a, .ok (challenge, new)) ∧
      Passkeys.takeChallenge a .register now = .ok challenge := by
  unfold Passkeys.verifyRegistration
  split
  · exact Or.inl ⟨_, rfl⟩
  split
  · exact Or.inr (Or.inl ⟨_, rfl⟩)
  next challenge htake =>
  split
  · exact Or.inr (Or.inl ⟨_, rfl⟩)
  · next new hnew => exact Or.inr (Or.inr ⟨challenge, new, rfl, htake⟩)

theorem keeps_addPasskey {id : PasskeyId} {name : String} {credential : PasskeyResponse}
    {registered : String → Bool} {hashes : List Digest} {now : Time} (h : Good a log) :
    Keeps log (addPasskey cfg a id name credential registered hashes now) := by
  unfold addPasskey
  split
  · exact keeps_refuse h _ _
  have hdrop := dropChallenge_good h
  rcases @verifyRegistration_cases cfg a credential now with
    ⟨e, hcheck⟩ | ⟨e, hcheck⟩ | ⟨challenge, new, hcheck, htake⟩
  · rw [hcheck]
    exact keeps_refuse h _ _
  · rw [hcheck]
    exact keeps_refuse hdrop _ _
  rw [hcheck]
  have hopen := takeChallenge_open h htake
  have hpending : ∀ p, (Passkeys.dropChallenge a).user.webauthnPending = some p →
      Open p.purpose p.challenge (.registered challenge :: log) :=
    fun p hp => absurd hp (by simp [Passkeys.dropChallenge])
  dsimp only
  split
  · exact ⟨h.totp, h.codes, hpending, h.factor, hopen, h.sound⟩
  unfold Keeps firstCodes withPasskey
  have hsame : (Passkeys.dropChallenge a).twoFactorEnabled = a.twoFactorEnabled := rfl
  by_cases hfirst : a.twoFactorEnabled = true
  · rw [hsame, hfirst]
    exact ⟨h.totp, h.codes, hpending, fun _ => by simp [Account.twoFactorEnabled], hopen, h.sound⟩
  · rw [hsame, if_neg hfirst, if_neg hfirst]
    exact ⟨h.totp, fun hash hhash => live_issued hhash, hpending,
      fun _ => by simp [Account.twoFactorEnabled, bumpSession], trivial, hopen, h.sound⟩

theorem keeps_removing {attempt : Attempt} {now : Time} {remove : Account → Account}
    (h : Good a log)
    (hremove : ∀ a log, Good a log → Good (remove a) log) :
    Keeps log (removing (checkSecondFactor cfg a attempt now) remove) := by
  have hcheck := @checkSecondFactor_good cfg a log attempt now h
  unfold removing
  rcases hout : checkSecondFactor cfg a attempt now with ⟨a', e | proof⟩
  · rw [hout] at hcheck
    exact hcheck
  · rw [hout] at hcheck
    exact hremove _ _ hcheck

theorem clear_good (h : Good a log) : Good (Totp.clear a) log := by
  refine ⟨fun hon => absurd hon (by simp [Totp.clear, Account.totpEnabled]), ?_, h.pending, ?_,
    h.sound⟩
  · intro hash hhash
    unfold Totp.clear at hhash
    dsimp only at hhash
    split at hhash
    · exact absurd hhash (by simp)
    · exact h.codes hash hhash
  · intro hcodes
    unfold Totp.clear at hcodes
    dsimp only at hcodes
    split at hcodes
    · exact absurd hcodes (by simp)
    · next hpasskeys => simpa [Account.twoFactorEnabled, Totp.clear] using Or.inr hpasskeys

theorem withoutPasskey_good {id : PasskeyId} (h : Good a log) : Good (withoutPasskey a id) log := by
  unfold withoutPasskey
  dsimp only
  split
  · next hon => exact ⟨h.totp, h.codes, h.pending, fun _ => hon, h.sound⟩
  · refine ⟨h.totp, ?_, h.pending, fun hcodes => absurd hcodes (by simp), h.sound⟩
    intro hash hhash
    exact absurd hhash (by simp)

theorem keeps_totpDisable {roles : List Role} {proof : SecondFactorProof} {now : Time}
    (h : Good a log) : Keeps log (totpDisable cfg a roles proof now) := by
  unfold totpDisable
  split
  · exact h
  split
  · exact h
  · exact keeps_removing h fun _ _ => clear_good

theorem keeps_removePasskey {roles : List Role} {id : PasskeyId} {proof : SecondFactorProof}
    {now : Time} (h : Good a log) : Keeps log (removePasskey cfg a roles id proof now) := by
  unfold removePasskey
  split
  · exact keeps_refuse h _ _
  split
  · exact h
  · exact keeps_removing h fun _ _ => withoutPasskey_good

theorem keeps_resetTwoFactor (h : Good a log) : Keeps log (resetTwoFactor a) := by
  unfold resetTwoFactor Totp.clearAll
  split
  · exact h
  · next cleared hcleared =>
    split at hcleared
    · exact absurd hcleared (by simp)
    · obtain rfl := Option.some.inj hcleared
      refine ⟨fun hon => ?_, fun hash hhash => ?_, fun p hp => ?_, fun hcodes => ?_, h.sound⟩
      · exact absurd hon (by simp [Account.totpEnabled, bumpSession, Totp.clear])
      · exact absurd hhash (by simp [bumpSession, Totp.clear])
      · exact absurd hp (by simp [bumpSession, Totp.clear])
      · exact absurd hcodes (by simp [bumpSession, Totp.clear])

/-- **A request keeps the account and the log in step.** -/
theorem reply_keeps {s : State} (h : Good s.account s.log) (e : Label) :
    Keeps s.log (reply cfg s e) := by
  cases e with
  | loginMfa code recoveryCode now => exact keeps_mfaUser h (keeps_proving h)
  | loginPasskeyOptions challenge now => exact keeps_mfaUser h (keeps_options h)
  | loginPasskey credential now => exact keeps_mfaUser h (keeps_proving h)
  | totpSetup secret => exact keeps_totpSetup h
  | totpEnable code hashes now => exact keeps_totpEnable h
  | totpDisable roles proof now => exact keeps_totpDisable h
  | regenerateRecoveryCodes hashes => exact keeps_regenerate h
  | passkeyRegistrationOptions challenge handle now => exact keeps_registrationOptions h
  | addPasskey name credential registered hashes now => exact keeps_addPasskey h
  | passkeyStepUpOptions challenge now => exact keeps_options h
  | removePasskey roles id proof now => exact keeps_removePasskey h
  | resetTwoFactor => exact keeps_resetTwoFactor h
  | setActive isActive => exact ⟨h.totp, h.codes, h.pending, h.factor, h.sound⟩

end Auth

end AnsiDeck
