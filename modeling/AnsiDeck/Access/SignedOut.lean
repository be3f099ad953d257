import AnsiDeck.Access.Sessions
import AnsiDeck.Accounts.LastFactor

/-!
# A session is earned, and ends

As long as nobody ends the user's sessions while a request is at work (`undisturbed`), a session
that is good is one of somebody who knows the password the user has now, and has a second factor if
the user has one, unless the identity provider vouched for them. Once the password or the role is
changed, a second factor turned on, all of them reset by an administrator or the user deactivated,
no session that there was is ever good again. A user who removes their last second factor stays
signed in everywhere.

A request that is overtaken writes the version that it loaded and one, which may be one that was
given before, and its cookie has whatever version the row has by then. So `undisturbed` can't be
left out: there is a run below in which an administrator's new password does not sign out who
changed the old one.
-/

namespace AnsiDeck

namespace Sessions

open Lib (Table)
open Auth (Attempt)

variable {cfg : Settings} {s t u : State} {a a' : Account} {cookie : Cookie} {request : Request}

/-- The row has the version that a request goes by when it commits, and when it gives a cookie after
that. -/
def undisturbed (s : State) : Label → Bool
  | .next tx =>
    (s.txs.get? tx).all fun row =>
      match row.phase with
      | .allowed seen _ => seen.user.sessionVersion == s.version
      | .committed sessionVersion => sessionVersion == s.version
      | _ => true
  | _ => true

/-- What `get_current_user` takes are the good sessions. -/
theorem authenticateToken_isSome {db : Access.Database} (hnow : db.now = s.now)
    (huser : (db.principal? cookie.session.userId).map Access.Principal.account = some s.account) :
    (Access.authenticateToken db cookie.session).isSome = good s cookie := by
  obtain ⟨user, hfound, haccount⟩ := Option.map_eq_some_iff.mp huser
  unfold Access.authenticateToken good State.version
  rw [hnow, hfound, ← haccount]
  cases cookie.session.live s.now with
  | false => rfl
  | true =>
    simp only [if_true, Bool.true_and, Option.filter_some]
    split <;> simp_all

/-! ## What becomes of an account -/

/-- What holds as long as the version stays. -/
structure Stays (a a' : Account) : Prop where
  password : a'.user.passwordHash = a.user.passwordHash
  role : a'.user.role = a.user.role
  active : a.user.isActive = true → a'.user.isActive = true
  totp : a'.totpEnabled = true → a.totpEnabled = true
  factor : a'.twoFactorEnabled = true → a.twoFactorEnabled = true

/-- Versions only grow, and every change that is to end the sessions brings a new one. -/
structure Moves (a a' : Account) : Prop where
  version : a.user.sessionVersion ≤ a'.user.sessionVersion
  stays : a'.user.sessionVersion = a.user.sessionVersion → Stays a a'

theorem Stays.refl (a : Account) : Stays a a := ⟨rfl, rfl, id, id, id⟩

theorem Moves.of_stays (hversion : a'.user.sessionVersion = a.user.sessionVersion)
    (h : Stays a a') : Moves a a' :=
  ⟨hversion.ge, fun _ => h⟩

theorem Moves.refl (a : Account) : Moves a a := .of_stays rfl (.refl a)

/-- A new version: whatever else is changed. -/
theorem Moves.of_bump (h : a'.user.sessionVersion = a.user.sessionVersion + 1) : Moves a a' := by
  refine ⟨h ▸ Nat.le_succ _, fun hsame => ?_⟩
  rw [h] at hsame
  exact absurd hsame (Nat.succ_ne_self _)

theorem calm_iff : calm a a' = true ↔
    a'.user.sessionVersion = a.user.sessionVersion ∧ a'.user.isActive = a.user.isActive ∧
      a'.user.passwordHash = a.user.passwordHash ∧ a'.user.role = a.user.role ∧
      (a'.totpEnabled = true → a.totpEnabled = true) ∧
      (a'.twoFactorEnabled = true → a.twoFactorEnabled = true) := by
  unfold calm
  cases a'.totpEnabled <;> cases a'.twoFactorEnabled <;> simp <;> tauto

theorem Moves.of_calm (h : calm a a' = true) : Moves a a' := by
  obtain ⟨hversion, hactive, hpassword, hrole, htotp, hfactor⟩ := calm_iff.mp h
  exact .of_stays hversion ⟨hpassword, hrole, fun h => hactive ▸ h, htotp, hfactor⟩

/-! ## The other requests on the account -/

/-- The user's row but for the columns of second factors. -/
structure SameRow (user user' : User) : Prop where
  password : user'.passwordHash = user.passwordHash
  role : user'.role = user.role
  active : user'.isActive = user.isActive
  version : user'.sessionVersion = user.sessionVersion

theorem SameRow.refl (user : User) : SameRow user user := ⟨rfl, rfl, rfl, rfl⟩

theorem SameRow.toCalm (h : SameRow a.user a'.user)
    (htotp : a'.totpEnabled = true → a.totpEnabled = true)
    (hfactor : a'.twoFactorEnabled = true → a.twoFactorEnabled = true) : calm a a' = true :=
  calm_iff.mpr ⟨h.version, h.active, h.password, h.role, htotp, hfactor⟩

theorem useSecondFactor_row {acfg : AuthSettings} {code recoveryCode : Option String} {now : Time}
    {proof : Proof} (h : Totp.useSecondFactor acfg a code recoveryCode now = some (proof, a')) :
    SameRow a.user a'.user ∧ a'.user.totpSecret = a.user.totpSecret ∧ a'.passkeys = a.passkeys := by
  unfold Totp.useSecondFactor Totp.useTotp Totp.useRecoveryCode at h
  refine ⟨⟨?_, ?_, ?_, ?_⟩, ?_⟩ <;> grind

/-- The second factor that is checked is used up, and there as before. -/
theorem checkSecondFactor_row {acfg : AuthSettings} {attempt : Attempt} {now : Time} :
    SameRow a.user (Auth.checkSecondFactor acfg a attempt now).1.user ∧
      Factors.Same a (Auth.checkSecondFactor acfg a attempt now).1 := by
  unfold Auth.checkSecondFactor
  cases attempt with
  | passkey credential purpose =>
    dsimp only
    rcases hcheck : Passkeys.verifyAssertion acfg a credential purpose now with ⟨a', e | proof⟩
    · rcases Auth.verifyAssertion_refused hcheck with rfl | rfl
      · exact ⟨.refl _, .refl _⟩
      · exact ⟨⟨rfl, rfl, rfl, rfl⟩, ⟨rfl, rfl, rfl⟩⟩
    · obtain ⟨challenge, p, count, -, -, -, -, rfl⟩ := Auth.verifyAssertion_ok hcheck
      exact ⟨⟨rfl, rfl, rfl, rfl⟩, Factors.same_used⟩
  | codes code recoveryCode =>
    dsimp only
    cases hcheck : Totp.useSecondFactor acfg a code recoveryCode now with
    | none => exact ⟨.refl _, .refl _⟩
    | some used =>
      obtain ⟨proof, a'⟩ := used
      obtain ⟨hrow, htotp, hpasskeys⟩ := useSecondFactor_row hcheck
      exact ⟨hrow, congrArg Option.isSome htotp, congrArg (List.map _) hpasskeys, hrow.role⟩

theorem SameRow.calm_of_same (h : SameRow a.user a'.user) (hsame : Factors.Same a a') :
    calm a a' = true :=
  h.toCalm (fun htotp => hsame.totp ▸ htotp) fun hfactor => hsame.twoFactorEnabled ▸ hfactor

theorem calm_proving {acfg : AuthSettings} {attempt : Attempt} {now : Time} :
    calm a (Auth.proving acfg a attempt now).account = true := by
  obtain ⟨hrow, hsame⟩ := @checkSecondFactor_row a acfg attempt now
  have hcalm := hrow.calm_of_same hsame
  unfold Auth.proving
  split
  · next heq => rwa [heq] at hcalm
  · next heq => rwa [heq] at hcalm

/-- A removal, whose second factor was checked. -/
theorem calm_removing {acfg : AuthSettings} {proof : Auth.SecondFactorProof} {now : Time}
    {remove : Account → Account} (hrow : ∀ a, SameRow a.user (remove a).user)
    (htotp : ∀ a, (remove a).totpEnabled = true → a.totpEnabled = true)
    (hfactor : ∀ a, (remove a).twoFactorEnabled = true → a.twoFactorEnabled = true) :
    calm a (Auth.removing (Auth.checkProof acfg a proof now) remove).account = true := by
  obtain ⟨hchecked, hsame⟩ := @checkSecondFactor_row a acfg proof.attempt now
  unfold Auth.removing Auth.checkProof
  split
  · next a' _ heq =>
    rw [heq] at hchecked hsame
    have hremoved := hrow a'
    refine SameRow.toCalm ?_ (fun h => hsame.totp ▸ htotp a' h) fun h =>
      hsame.twoFactorEnabled ▸ hfactor a' h
    exact ⟨hremoved.password.trans hchecked.password, hremoved.role.trans hchecked.role,
      hremoved.active.trans hchecked.active, hremoved.version.trans hchecked.version⟩
  · next heq =>
    rw [heq] at hchecked hsame
    exact hchecked.calm_of_same hsame

theorem calm_refuse (a : Account) (status : Nat) (detail : String) :
    calm a (Auth.refuse a status detail).account = true :=
  (SameRow.refl a.user).calm_of_same (.refl a)

theorem calm_options {acfg : AuthSettings} {challenge : String} {purpose : Purpose} {now : Time} :
    calm a (Auth.options acfg a challenge purpose now).account = true := by
  unfold Auth.options Passkeys.authenticationOptions
  split
  · next heq =>
    split at heq
    · exact absurd heq (by simp)
    split at heq
    · exact absurd heq (by simp)
    obtain rfl := Except.ok.inj heq
    exact (⟨rfl, rfl, rfl, rfl⟩ : SameRow _ _).toCalm id id
  · exact calm_refuse _ _ _

theorem calm_loginPasskeyOptions {acfg : AuthSettings} {challenge : String} {now : Time} :
    calm a (Auth.loginPasskeyOptions acfg a challenge now).account = true := by
  unfold Auth.loginPasskeyOptions Auth.withMfaUser
  split
  · exact calm_refuse _ _ _
  · exact calm_options

theorem calm_passkeyRegistrationOptions {acfg : AuthSettings} {challenge handle : String}
    {now : Time} :
    calm a (Auth.passkeyRegistrationOptions acfg a challenge handle now).account = true := by
  unfold Auth.passkeyRegistrationOptions Passkeys.registrationOptions
  split
  · next heq =>
    split at heq
    · exact absurd heq (by simp)
    split at heq
    · exact absurd heq (by simp)
    obtain rfl := Except.ok.inj heq
    exact (⟨rfl, rfl, rfl, rfl⟩ : SameRow _ _).toCalm id id
  · exact calm_refuse _ _ _

theorem calm_totpSetup {secret : String} : calm a (Auth.totpSetup a secret).account = true := by
  unfold Auth.totpSetup
  split
  · exact calm_refuse _ _ _
  · exact (⟨rfl, rfl, rfl, rfl⟩ : SameRow _ _).toCalm id id

theorem calm_regenerateRecoveryCodes {hashes : List Digest} :
    calm a (Auth.regenerateRecoveryCodes a hashes).account = true := by
  unfold Auth.regenerateRecoveryCodes
  split
  · exact calm_refuse _ _ _
  · exact (⟨rfl, rfl, rfl, rfl⟩ : SameRow _ _).toCalm id id

theorem calm_totpDisable {acfg : AuthSettings} {roles : List Role} {proof : Auth.SecondFactorProof}
    {now : Time} : calm a (Auth.totpDisable acfg a roles proof now).account = true := by
  unfold Auth.totpDisable
  split
  · exact calm_refuse a 0 ""
  split
  · exact calm_refuse a 0 ""
  apply calm_removing
  · exact fun a => ⟨rfl, rfl, rfl, rfl⟩
  · exact fun a h => absurd h (by simp [Totp.clear, Account.totpEnabled])
  · intro a h
    rw [Factors.twoFactorEnabled_iff] at h ⊢
    exact Or.inr (h.resolve_left (by simp [Totp.clear, Account.totpEnabled]))

theorem calm_removePasskey {acfg : AuthSettings} {roles : List Role} {id : PasskeyId}
    {proof : Auth.SecondFactorProof} {now : Time} :
    calm a (Auth.removePasskey acfg a roles id proof now).account = true := by
  unfold Auth.removePasskey
  split
  · exact calm_refuse _ _ _
  split
  · exact calm_refuse a 0 ""
  have hrow : ∀ a : Account, SameRow a.user (Auth.withoutPasskey a id).user ∧
      (Auth.withoutPasskey a id).user.totpSecret = a.user.totpSecret ∧
      (Auth.withoutPasskey a id).passkeys = a.passkeys.filter fun p => p.id != id := by
    intro a
    unfold Auth.withoutPasskey
    dsimp only
    split <;> exact ⟨⟨rfl, rfl, rfl, rfl⟩, rfl, rfl⟩
  have htotp : ∀ a : Account,
      (Auth.withoutPasskey a id).totpEnabled = true → a.totpEnabled = true := by
    intro a h
    unfold Account.totpEnabled at h ⊢
    rwa [(hrow a).2.1] at h
  refine calm_removing (fun a => (hrow a).1) htotp fun a h => ?_
  rw [Factors.twoFactorEnabled_iff] at h ⊢
  refine h.imp (htotp a) fun hids hnone => hids ?_
  unfold Auth.Account.ids at hnone ⊢
  rw [(hrow a).2.2, List.map_eq_nil_iff.mp hnone]
  rfl

/-- The requests on the user's second factors that leave the sessions alone. -/
inductive OtherRequest
  | loginPasskeyOptions (challenge : String)
  | passkeyStepUpOptions (challenge : String)
  | passkeyRegistrationOptions (challenge handle : String)
  | totpSetup (secret : String)
  | regenerateRecoveryCodes (hashes : List Digest)
  | totpDisable (roles : List Role) (proof : Auth.SecondFactorProof)
  | removePasskey (roles : List Role) (id : PasskeyId) (proof : Auth.SecondFactorProof)

/-- What they make of the account. -/
def OtherRequest.handled (acfg : AuthSettings) (a : Account) (now : Time) :
    OtherRequest → Auth.Reply
  | .loginPasskeyOptions challenge => Auth.loginPasskeyOptions acfg a challenge now
  | .passkeyStepUpOptions challenge => Auth.passkeyStepUpOptions acfg a challenge now
  | .passkeyRegistrationOptions challenge handle =>
    Auth.passkeyRegistrationOptions acfg a challenge handle now
  | .totpSetup secret => Auth.totpSetup a secret
  | .regenerateRecoveryCodes hashes => Auth.regenerateRecoveryCodes a hashes
  | .totpDisable roles proof => Auth.totpDisable acfg a roles proof now
  | .removePasskey roles id proof => Auth.removePasskey acfg a roles id proof now

/-- Each of them is an `other` step. -/
theorem step_otherRequest (other : OtherRequest) :
    step cfg s (.other (other.handled cfg.auth s.account s.now).account) =
      some { s with account := (other.handled cfg.auth s.account s.now).account } := by
  have hcalm : calm s.account (other.handled cfg.auth s.account s.now).account = true := by
    cases other with
    | loginPasskeyOptions challenge => exact calm_loginPasskeyOptions
    | passkeyStepUpOptions challenge => exact calm_options
    | passkeyRegistrationOptions challenge handle => exact calm_passkeyRegistrationOptions
    | totpSetup secret => exact calm_totpSetup
    | regenerateRecoveryCodes hashes => exact calm_regenerateRecoveryCodes
    | totpDisable roles proof => exact calm_totpDisable
    | removePasskey roles id proof => exact calm_removePasskey
  rw [step, if_pos hcalm]

/-! ## What is learned of the row -/

/-- What holds of the row as long as it has this version. -/
def Since (a : Account) (sessionVersion : Nat) (P : Prop) : Prop :=
  sessionVersion ≤ a.user.sessionVersion ∧ (sessionVersion = a.user.sessionVersion → P)

theorem Since.moves {sessionVersion : Nat} {P Q : Prop} (h : Since a sessionVersion P)
    (hmoves : Moves a a') (hstays : Stays a a' → P → Q) : Since a' sessionVersion Q := by
  refine ⟨h.1.trans hmoves.version, fun hsame => ?_⟩
  have hkept : sessionVersion = a.user.sessionVersion := h.1.antisymm (hsame ▸ hmoves.version)
  exact hstays (hmoves.stays (hsame.symm.trans hkept)) (h.2 hkept)

theorem Since.mono {sessionVersion : Nat} {P Q : Prop} (h : Since a sessionVersion P)
    (himp : sessionVersion = a.user.sessionVersion → P → Q) : Since a sessionVersion Q :=
  ⟨h.1, fun hsame => himp hsame (h.2 hsame)⟩

/-- Whoever has shown that knows the password, and has a second factor if there is one, unless the
identity provider vouched for them. -/
structure Earned (a : Account) (grounds : Grounds) : Prop where
  password : grounds.sso = true ∨ grounds.passwordHash = some a.user.passwordHash
  factor : a.twoFactorEnabled = true → grounds.sso = true ∨ grounds.factor = true

theorem Earned.stays {grounds : Grounds} (h : Earned a grounds) (hstays : Stays a a') :
    Earned a' grounds :=
  ⟨hstays.password ▸ h.password, fun hon => h.factor (hstays.factor hon)⟩

/-- What the cookie of a request says, as long as the row has the version it goes by. -/
def Knows (a : Account) : Request → Prop
  | .loginMfa cookie _ => cookie.passwordHash = a.user.passwordHash
  | .changePassword cookie _ _ | .totpEnable cookie _ _ | .addPasskey cookie _ _ _ _ _ =>
    Earned a cookie.grounds
  | _ => True

theorem Knows.stays (h : Knows a request) (hstays : Stays a a') : Knows a' request := by
  cases request with
  | loginMfa cookie attempt => exact Eq.trans h hstays.password.symm
  | changePassword cookie current new => exact Earned.stays h hstays
  | totpEnable cookie code hashes => exact Earned.stays h hstays
  | addPasskey cookie id name credential registered hashes => exact Earned.stays h hstays
  | login | sso | updateUser | resetTwoFactor => trivial

/-- The version that a request's cookie goes by, where it is not the one of the row it loaded. -/
def goesBy (sessionVersion : Nat) : Request → Nat
  | .loginMfa cookie _ => cookie.sessionVersion
  | _ => sessionVersion

variable (cfg) in
/-- What a request in flight relies on. -/
def PhaseOk (a : Account) (request : Request) : Phase → Prop
  | .loaded user =>
    Since a user.sessionVersion (user.passwordHash = a.user.passwordHash ∧
        (a.totpEnabled = true → user.totpSecret.isSome = true)) ∧
      Since a (goesBy user.sessionVersion request) (Knows a request)
  | .allowed seen _ => Since a seen.user.sessionVersion (Knows a request)
  | .committed sessionVersion => Since a sessionVersion (Earned a (granted cfg request))
  | .answered _ => True

theorem PhaseOk.moves {phase : Phase} (h : PhaseOk cfg a request phase) (hmoves : Moves a a') :
    PhaseOk cfg a' request phase := by
  cases phase with
  | loaded user =>
    refine ⟨h.1.moves hmoves fun hstays hrow => ?_, h.2.moves hmoves fun hstays hknows =>
      hknows.stays hstays⟩
    exact ⟨hrow.1.trans hstays.password.symm, fun htotp => hrow.2 (hstays.totp htotp)⟩
  | allowed seen asked => exact Since.moves h hmoves fun hstays hknows => hknows.stays hstays
  | committed sessionVersion =>
    exact Since.moves h hmoves fun hstays hearned => hearned.stays hstays
  | answered error => trivial

variable (cfg) in
structure Inv (s : State) : Prop where
  cookies : ∀ cookie ∈ s.cookies,
    Since s.account cookie.session.sessionVersion (Earned s.account cookie.grounds)
  mfaCookies : ∀ cookie ∈ s.mfaCookies,
    Since s.account cookie.sessionVersion (cookie.passwordHash = s.account.user.passwordHash)
  txs : ∀ tx row, s.txs.get? tx = some row → PhaseOk cfg s.account row.request row.phase

theorem inv_init (h : (system cfg).init s) : Inv cfg s := by
  obtain ⟨hcookies, hmfa, htxs⟩ := h
  refine ⟨?_, ?_, ?_⟩
  · rw [hcookies]
    exact fun cookie hmem => absurd hmem List.not_mem_nil
  · rw [hmfa]
    exact fun cookie hmem => absurd hmem List.not_mem_nil
  · rw [htxs]
    exact fun tx row hget => absurd hget (by simp)

theorem Inv.moves (h : Inv cfg s) (hmoves : Moves s.account a') :
    Inv cfg { s with account := a' } :=
  ⟨fun cookie hmem => (h.cookies cookie hmem).moves hmoves fun hstays hearned =>
      hearned.stays hstays,
    fun cookie hmem => (h.mfaCookies cookie hmem).moves hmoves fun hstays hhash =>
      hhash.trans hstays.password.symm,
    fun tx row hget => (h.txs tx row hget).moves hmoves⟩

theorem Inv.putTx {tx : Nat} {row : Tx} {phase : Phase} (h : Inv cfg s)
    (hphase : PhaseOk cfg s.account row.request phase) :
    Inv cfg (Sessions.putTx s tx row phase) := by
  refine ⟨h.cookies, h.mfaCookies, fun tx' row' hget => ?_⟩
  rcases Table.get?_put_cases hget with ⟨rfl, rfl⟩ | ⟨-, hold⟩
  · exact hphase
  · exact h.txs tx' row' hold

theorem Inv.giveCookie {sessionVersion : Nat} {grounds : Grounds} (h : Inv cfg s)
    (hearned : Since s.account sessionVersion (Earned s.account grounds)) :
    Inv cfg (Sessions.giveCookie s request sessionVersion grounds) := by
  refine ⟨fun cookie hmem => ?_, h.mfaCookies, h.txs⟩
  rcases List.mem_cons.mp hmem with rfl | hold
  · exact hearned
  · exact h.cookies cookie hold

/-! ## What a request commits -/

theorem calm_dropChallenge (a : Account) : calm a (Passkeys.dropChallenge a) = true :=
  (⟨rfl, rfl, rfl, rfl⟩ : SameRow _ _).toCalm (fun h => h) fun h => h

/-- A passkey is refused, or it is one more, or the first second factor and brings a new version. -/
theorem addPasskey_cases {acfg : AuthSettings} {id : PasskeyId} {name : String}
    {credential : PasskeyResponse} {registered : String → Bool}
    {hashes : List Digest} {now : Time} :
    let r := Auth.addPasskey acfg a id name credential registered hashes now
    (r.refused.isSome = true ∨ a.twoFactorEnabled = true) ∧ calm a r.account = true ∨
      r.account.user.passwordHash = a.user.passwordHash ∧
        r.account.user.sessionVersion = a.user.sessionVersion + 1 := by
  intro r
  have hdropped := calm_dropChallenge a
  unfold r Auth.addPasskey
  split
  · exact Or.inl ⟨Or.inl rfl, calm_refuse a _ _⟩
  rcases @Auth.verifyRegistration_cases acfg a credential now with
    ⟨e, hcheck⟩ | ⟨e, hcheck⟩ | ⟨challenge, new, hcheck, -⟩
  · rw [hcheck]
    exact Or.inl ⟨Or.inl rfl, calm_refuse a _ _⟩
  · rw [hcheck]
    exact Or.inl ⟨Or.inl rfl, hdropped⟩
  rw [hcheck]
  dsimp only
  split
  · exact Or.inl ⟨Or.inl rfl, hdropped⟩
  unfold Auth.withPasskey
  have hsame : (Passkeys.dropChallenge a).twoFactorEnabled = a.twoFactorEnabled := rfl
  by_cases hon : a.twoFactorEnabled = true
  · rw [hsame, if_pos hon]
    exact Or.inl ⟨Or.inr hon, SameRow.toCalm ⟨rfl, rfl, rfl, rfl⟩ (fun h => h) fun _ => hon⟩
  · rw [hsame, if_neg hon]
    exact Or.inr ⟨rfl, rfl⟩

/-- An update of the user: with another password or role, or when it deactivates them, it brings a
new version. -/
theorem moves_updateUser {payload : Users.UserUpdate} {target : User}
    (hversion : target.sessionVersion = a.user.sessionVersion) :
    Moves a (withUser a (Users.changesOf cfg.users payload target).apply) := by
  by_cases hbump : Users.bumpSession payload target = true
  · apply Moves.of_bump
    simp [withUser, Users.changesOf, Users.Changes.apply, hbump, hversion]
  simp only [Users.bumpSession, Bool.or_eq_true, not_or, Bool.not_eq_true,
    Option.isSome_eq_false_iff, Option.isNone_iff_eq_none] at hbump
  obtain ⟨⟨hrole, hactive⟩, hpassword⟩ := hbump
  refine .of_stays ?_ ⟨?_, ?_, fun hon => ?_, fun h => h, fun h => h⟩
  · simp [withUser, Users.changesOf, Users.Changes.apply, Users.bumpSession, hrole,
      hactive, hpassword]
  · simp [withUser, Users.changesOf, Users.Changes.apply, hpassword]
  · simp [withUser, Users.changesOf, Users.Changes.apply, hrole]
  · unfold Users.deactivates at hactive
    cases hsent : payload.isActive with
    | none => simp [withUser, Users.changesOf, Users.Changes.apply, Users.activeChanges, hsent, hon]
    | some isActive =>
      cases isActive with
      | true =>
        simp only [withUser, Users.changesOf, Users.Changes.apply, hsent]
        split <;> simp [hon]
      | false =>
        simp [withUser, Users.changesOf, Users.Changes.apply, Users.activeChanges, hsent,
          show target.isActive = false by simpa [hsent] using hactive, hon]

variable (cfg) in
/-- **What a request makes of the account** that still has the version it goes by, and that a cookie
it gives next is earned. -/
structure Commits (a : Account) (request : Request) (c : Commit) : Prop where
  moves : Moves a c.account
  earned : c.answer = none → Earned c.account (granted cfg request)

theorem commits_addPasskey {id : PasskeyId} {name : String} {credential : PasskeyResponse}
    {registered : Bool} {hashes : List Digest} {seen : Account} {asked now : Time} {c : Commit}
    (hknows : Earned a cookie.grounds)
    (hc : commit cfg a seen asked now (.addPasskey cookie id name credential registered hashes)
      = some c) :
    Commits cfg a (.addPasskey cookie id name credential registered hashes) c := by
  obtain rfl := Option.some.inj hc
  have hcases := @addPasskey_cases a cfg.auth id name credential
    (fun id => registered || a.passkeys.any fun p => p.credentialId == id) hashes now
  dsimp only at hcases
  refine ⟨?_, fun hnone => ?_⟩
  · rcases hcases with ⟨-, hcalm⟩ | ⟨-, hbump⟩
    · exact .of_calm hcalm
    · exact .of_bump hbump
  · rcases hcases with ⟨hends, -⟩ | ⟨hpassword, -⟩
    · dsimp only at hnone
      unfold Factors.handled at hnone
      rw [if_pos (by simpa [Bool.or_eq_true] using hends)] at hnone
      exact absurd hnone (by simp)
    · exact ⟨hknows.password.imp_right fun hhash => hhash.trans (congrArg some hpassword.symm),
        fun _ => Or.inr rfl⟩

theorem commits_of_commit {seen : Account} {asked now : Time} {c : Commit}
    (hversion : seen.user.sessionVersion = a.user.sessionVersion) (hknows : Knows a request)
    (hc : commit cfg a seen asked now request = some c) : Commits cfg a request c := by
  cases request with
  | login password => exact absurd hc (by simp [commit])
  | loginMfa cookie attempt =>
    obtain rfl := Option.some.inj hc
    have hmoves : Moves a (Auth.proving cfg.auth a attempt now).account := .of_calm calm_proving
    refine ⟨hmoves, fun _ => ⟨Or.inr ?_, fun _ => Or.inr rfl⟩⟩
    have hsame := (calm_iff.mp (@calm_proving a cfg.auth attempt now)).2.2.1
    exact congrArg some (Eq.trans hknows hsame.symm)
  | sso link =>
    obtain ⟨identity, -, rfl⟩ := Option.map_eq_some_iff.mp hc
    refine ⟨.of_calm (SameRow.toCalm ⟨rfl, rfl, rfl, rfl⟩ (fun h => h) fun h => h), fun _ => ?_⟩
    exact ⟨Or.inl rfl, fun _ => Or.inl rfl⟩
  | changePassword cookie current new =>
    obtain rfl := Option.some.inj hc
    have hearned : Earned a cookie.grounds := hknows
    refine ⟨.of_bump (congrArg Nat.succ hversion), fun _ => ⟨Or.inr rfl, fun hon => ?_⟩⟩
    exact hearned.factor hon
  | totpEnable cookie code hashes =>
    obtain ⟨columns, hcolumns, rfl⟩ := Option.map_eq_some_iff.mp hc
    obtain ⟨secret, -, hcolumns⟩ := Option.bind_eq_some_iff.mp hcolumns
    obtain ⟨counter, -, rfl⟩ := Option.map_eq_some_iff.mp hcolumns
    have hearned : Earned a cookie.grounds := hknows
    exact ⟨.of_bump (congrArg Nat.succ hversion), fun _ => ⟨hearned.password, fun _ => Or.inr rfl⟩⟩
  | addPasskey cookie id name credential registered hashes => exact commits_addPasskey hknows hc
  | updateUser isSelf payload =>
    obtain rfl := Option.some.inj hc
    exact ⟨moves_updateUser hversion, fun hnone => absurd hnone (by simp)⟩
  | resetTwoFactor isSelf =>
    obtain rfl := Option.some.inj hc
    exact ⟨.of_bump (congrArg Nat.succ hversion), fun hnone => absurd hnone (by simp)⟩

/-! ## Steps -/

/-- A request that goes on goes by the version of the row it loaded. -/
theorem goesBy_of_early {seen : Account} {now : Time} (h : early cfg seen now request = none) :
    goesBy seen.user.sessionVersion request = seen.user.sessionVersion := by
  cases request with
  | loginMfa cookie attempt =>
    simp only [early] at h
    split at h
    · exact absurd h (by simp)
    · next hfine =>
      simp only [Bool.or_eq_true, not_or, bne_iff_ne, ne_eq, not_not] at hfine
      exact hfine.1.2.symm
  | login | sso | changePassword | totpEnable | addPasskey | updateUser | resetTwoFactor => rfl

/-- A session that is given at once is one of single sign-on, or there is no second factor. -/
theorem cookie_of_early {seen : Account} {now : Time} {grounds : Grounds}
    (h : early cfg seen now request = some (.cookie grounds)) :
    grounds.sso = true ∨
      grounds.passwordHash = some seen.user.passwordHash ∧ seen.twoFactorEnabled = false := by
  cases request with
  | login password =>
    simp only [early] at h
    split at h
    · exact absurd h (by simp)
    split at h
    · exact absurd h (by simp)
    next hoff =>
    obtain rfl := Early.cookie.inj (Option.some.inj h)
    exact Or.inr ⟨rfl, by simpa using hoff⟩
  | sso link =>
    simp only [early] at h
    split at h
    · exact absurd h (by simp)
    split at h
    · obtain rfl := Early.cookie.inj (Option.some.inj h)
      exact Or.inl rfl
    · exact absurd h (by simp)
  | loginMfa cookie attempt => simp only [early] at h; split at h <;> exact absurd h (by simp)
  | changePassword cookie current new =>
    simp only [early] at h
    split at h
    · exact absurd h (by simp)
    · split at h <;> exact absurd h (by simp)
  | totpEnable cookie code hashes =>
    obtain ⟨e, -, he⟩ := Option.map_eq_some_iff.mp h
    exact absurd he (by simp)
  | addPasskey => exact absurd h (by simp [early])
  | updateUser isSelf payload =>
    obtain ⟨e, -, he⟩ := Option.map_eq_some_iff.mp h
    exact absurd he (by simp)
  | resetTwoFactor isSelf =>
    simp only [early] at h
    split at h
    · exact absurd h (by simp)
    · split at h <;> exact absurd h (by simp)

/-- A request that has loaded the row. -/
theorem inv_loaded {tx : Nat} {row : Tx} {user : User} (h : Inv cfg s)
    (hphase : row.phase = .loaded user) (hok : PhaseOk cfg s.account row.request (.loaded user))
    (hnext : nextStatement cfg s tx row = some t) : Inv cfg t ∧ Moves s.account t.account := by
  obtain ⟨hrow, hknows⟩ := hok
  unfold nextStatement at hnext
  rw [hphase] at hnext
  dsimp only at hnext
  cases hearly : early cfg ⟨user, s.account.passkeys⟩ s.now row.request with
  | none =>
    rw [hearly] at hnext
    obtain rfl := Option.some.inj hnext
    rw [goesBy_of_early hearly] at hknows
    exact ⟨h.putTx hknows, .refl _⟩
  | some early =>
    rw [hearly] at hnext
    cases early with
    | answer error =>
      obtain rfl := Option.some.inj hnext
      exact ⟨h.putTx trivial, .refl _⟩
    | cookie grounds =>
      obtain rfl := Option.some.inj hnext
      refine ⟨(h.giveCookie (hrow.mono fun _ hsame => ?_)).putTx trivial, .refl _⟩
      rcases cookie_of_early hearly with hsso | ⟨hhash, hoff⟩
      · exact ⟨Or.inl hsso, fun _ => Or.inl hsso⟩
      refine ⟨Or.inr (hhash.trans (congrArg some hsame.1)), fun hon => ?_⟩
      -- the passkeys are read now, and TOTP can't have been turned on since
      have htotp : user.totpSecret.isSome = false ∧ s.account.passkeys = [] := by
        simpa [Account.twoFactorEnabled, Account.totpEnabled] using hoff
      rw [Factors.twoFactorEnabled_iff] at hon
      rcases hon with htotpOn | hids
      · exact absurd (hsame.2 htotpOn) (by simp [htotp.1])
      · exact absurd hids (by simp [Auth.Account.ids, htotp.2])
    | mfaCookie =>
      obtain rfl := Option.some.inj hnext
      refine ⟨?_, .refl _⟩
      have hput : Inv cfg (putTx s tx row (.answered none)) := h.putTx trivial
      refine ⟨hput.cookies, fun cookie hmem => ?_, hput.txs⟩
      rcases List.mem_cons.mp hmem with rfl | hold
      · exact hrow.mono fun _ hsame => hsame.1
      · exact h.mfaCookies cookie hold

/-- A request that commits, on the version that it loaded. -/
theorem inv_allowed {tx : Nat} {row : Tx} {seen : Account} {asked : Time} (h : Inv cfg s)
    (hphase : row.phase = .allowed seen asked)
    (hok : PhaseOk cfg s.account row.request (.allowed seen asked))
    (hbase : seen.user.sessionVersion = s.account.user.sessionVersion)
    (hnext : nextStatement cfg s tx row = some t) : Inv cfg t ∧ Moves s.account t.account := by
  unfold nextStatement at hnext
  rw [hphase] at hnext
  obtain ⟨c, hc, rfl⟩ := Option.map_eq_some_iff.mp hnext
  have hcommits := commits_of_commit hbase (hok.2 hbase) hc
  refine ⟨?_, hcommits.moves⟩
  have hmoved := h.moves hcommits.moves
  apply hmoved.putTx
  cases hanswer : c.answer with
  | some error => trivial
  | none => exact ⟨le_refl _, fun _ => hcommits.earned hanswer⟩

/-- A request that gives a cookie, of the version that it committed. -/
theorem inv_committed {tx : Nat} {row : Tx} {sessionVersion : Nat} (h : Inv cfg s)
    (hphase : row.phase = .committed sessionVersion)
    (hok : PhaseOk cfg s.account row.request (.committed sessionVersion))
    (hbase : sessionVersion = s.account.user.sessionVersion)
    (hnext : nextStatement cfg s tx row = some t) : Inv cfg t ∧ Moves s.account t.account := by
  unfold nextStatement at hnext
  rw [hphase] at hnext
  obtain rfl := Option.some.inj hnext
  refine ⟨(h.giveCookie ⟨le_refl _, fun _ => hok.2 hbase⟩).putTx trivial, .refl _⟩

/-- What a request knows by its cookie when it is let in. -/
theorem knows_of_presents (h : Inv cfg s) (hpresents : presents s request = true)
    (hauth : authenticates s request = true) :
    Since s.account (goesBy s.version request) (Knows s.account request) := by
  have hsession : ∀ cookie, request.cookie? = some cookie →
      Since s.account s.version (Earned s.account cookie.grounds) := by
    intro cookie hcookie
    have hmem : cookie ∈ s.cookies := by
      cases request with
      | loginMfa => exact absurd hcookie (by simp [Request.cookie?])
      | _ => simpa [presents, hcookie] using hpresents
    have hgood : good s cookie = true := by simpa [authenticates, hcookie] using hauth
    have hversion : s.version = cookie.session.sessionVersion := by
      simp only [good, Bool.and_eq_true, beq_iff_eq] at hgood
      exact hgood.2.2
    exact hversion ▸ h.cookies cookie hmem
  cases request with
  | loginMfa cookie attempt => exact h.mfaCookies cookie (by simpa [presents] using hpresents)
  | changePassword | totpEnable | addPasskey => exact hsession _ rfl
  | login | sso | updateUser | resetTwoFactor => exact ⟨le_refl _, fun _ => trivial⟩

/-- A request that begins. -/
theorem inv_request {tx : Nat} (h : Inv cfg s)
    (hstep : step cfg s (.request tx request) = some t) : Inv cfg t ∧
    Moves s.account t.account := by
  simp only [step] at hstep
  split at hstep
  · exact absurd hstep (by simp)
  next hfree =>
  obtain ⟨-, hpresents⟩ : _ ∧ presents s request = true := by simpa using hfree
  obtain rfl := Option.some.inj hstep
  refine ⟨@Inv.putTx cfg s tx ⟨request, .answered none⟩ _ h ?_, .refl _⟩
  split
  · next hauth =>
    exact ⟨⟨le_refl _, fun _ => ⟨rfl, fun htotp => htotp⟩⟩, knows_of_presents h hpresents hauth⟩
  · trivial

theorem inv_step {label : Label} (h : Inv cfg s) (hok : undisturbed s label = true)
    (hstep : step cfg s label = some t) : Inv cfg t ∧ Moves s.account t.account := by
  cases label with
  | request tx request => exact inv_request h hstep
  | next tx =>
    obtain ⟨row, hrow, hnext⟩ := Option.bind_eq_some_iff.mp hstep
    have hphase := h.txs tx row hrow
    simp only [undisturbed, hrow, Option.all_some] at hok
    cases hp : row.phase with
    | loaded user => exact inv_loaded h hp (hp ▸ hphase) hnext
    | allowed seen asked =>
      exact inv_allowed h hp (hp ▸ hphase) (by simpa [hp, State.version] using hok) hnext
    | committed sessionVersion =>
      exact inv_committed h hp (hp ▸ hphase) (by simpa [hp, State.version] using hok) hnext
    | answered error =>
      unfold nextStatement at hnext
      rw [hp] at hnext
      exact absurd hnext (by simp)
  | rollback tx =>
    obtain rfl := Option.some.inj hstep
    refine ⟨⟨h.cookies, h.mfaCookies, fun tx' row hget => ?_⟩, .refl _⟩
    exact h.txs tx' row (Table.get?_remove_eq_some.mp hget).2
  | other account =>
    simp only [step] at hstep
    split at hstep
    · next hcalm =>
      obtain rfl := Option.some.inj hstep
      exact ⟨h.moves (.of_calm hcalm), .of_calm hcalm⟩
    · exact absurd hstep (by simp)
  | tick =>
    obtain rfl := Option.some.inj hstep
    exact ⟨⟨h.cookies, h.mfaCookies, h.txs⟩, .refl _⟩

/-! ## Runs -/

variable (cfg) in
/-- The states that are reached while no request is overtaken. -/
abbrev Reached (s : State) : Prop :=
  (system cfg).ReachableBy (fun s label => undisturbed s label = true) s

theorem inv_of_reached (h : Reached cfg s) : Inv cfg s :=
  (Lib.System.Inductive.mk (fun _ => inv_init) fun _ _ _ hinv hok hstep =>
    (inv_step hinv hok hstep).1).of_reachable h

/-- **A session that is good is earned**: whoever has its cookie knows the password the user has
now, and has a second factor if the user has one, unless the identity provider vouched for them. -/
theorem good_earned (hreached : Reached cfg s) (hmem : cookie ∈ s.cookies)
    (hgood : good s cookie = true) : Earned s.account cookie.grounds := by
  have hsince := (inv_of_reached hreached).cookies cookie hmem
  simp only [good, Bool.and_eq_true, beq_iff_eq] at hgood
  exact hsince.2 hgood.2.2.symm

/-- The commit of `reset_two_factor`: an administrator turns off all second factors of the user. -/
def Resets (s : State) : Label → Prop
  | .next tx => ∃ seen asked isSelf,
      s.txs.get? tx = some ⟨.resetTwoFactor isSelf, .allowed seen asked⟩
  | _ => False

/-- What is to sign a user out. -/
def SignsOut (s : State) (label : Label) (t : State) : Prop :=
  t.account.user.passwordHash ≠ s.account.user.passwordHash ∨
    t.account.user.role ≠ s.account.user.role ∨
    (s.account.user.isActive = true ∧ t.account.user.isActive = false) ∨
    (s.account.totpEnabled = false ∧ t.account.totpEnabled = true) ∨
    (s.account.twoFactorEnabled = false ∧ t.account.twoFactorEnabled = true) ∨
    Resets s label

/-- The reset writes the version that it loaded, and one. -/
theorem Resets.version {label : Label} (h : Resets s label) (hok : undisturbed s label = true)
    (hstep : step cfg s label = some t) : t.version = s.version + 1 := by
  cases label with
  | next tx =>
    obtain ⟨seen, asked, isSelf, hrow⟩ := h
    have hseen : seen.user.sessionVersion = s.version := by
      simpa only [undisturbed, hrow, Option.all_some, beq_iff_eq] using hok
    obtain ⟨row, hrow', hnext⟩ := Option.bind_eq_some_iff.mp hstep
    obtain rfl := Option.some.inj (hrow.symm.trans hrow')
    unfold nextStatement at hnext
    obtain ⟨c, hcommit, rfl⟩ := Option.map_eq_some_iff.mp hnext
    obtain rfl := Option.some.inj hcommit
    exact congrArg Nat.succ hseen
  | _ => exact h.elim

/-- What signs a user out brings a new version. -/
theorem SignsOut.version {label : Label} (h : SignsOut s label t) (hok : undisturbed s label = true)
    (hstep : step cfg s label = some t) (hmoves : Moves s.account t.account) :
    s.version < t.version := by
  refine lt_of_le_of_ne hmoves.version fun hsame => ?_
  have hstays := hmoves.stays hsame.symm
  rcases h with hpassword | hrole | ⟨hon, hoff⟩ | ⟨hoff, hon⟩ | ⟨hoff, hon⟩ | hreset
  · exact hpassword hstays.password
  · exact hrole hstays.role
  · exact absurd (hstays.active hon) (by simp [hoff])
  · exact absurd (hstays.totp hon) (by simp [hoff])
  · exact absurd (hstays.factor hon) (by simp [hoff])
  · exact absurd (hreset.version hok hstep) (by lia)

theorem version_of_path (h : Inv cfg s)
    (hpath : (system cfg).Path (fun s label => undisturbed s label = true) s t) :
    s.version ≤ t.version :=
  hpath.rel (R := fun s t => s.version ≤ t.version)
    (fun _ _ _ hinv hok hstep => (inv_step hinv hok hstep).1) (fun _ => le_refl _)
    (fun _ _ _ _ hinv hle hok hstep => hle.trans (inv_step hinv hok hstep).2.version) h

/-- **Signed out is signed out**: once the password or the role is changed, a second factor turned
on, all of them reset by an administrator or the user deactivated, no session that there was is ever
good again. -/
theorem sessions_end {label : Label} (hreached : Reached cfg s) (hok : undisturbed s label = true)
    (hstep : (system cfg).step s label = some t) (hsigns : SignsOut s label t)
    (hpath : (system cfg).Path (fun s label => undisturbed s label = true) t u)
    (hmem : cookie ∈ s.cookies) : good u cookie = false := by
  have hinv := inv_of_reached hreached
  obtain ⟨hinv', hmoves⟩ := inv_step hinv hok hstep
  have hlt : cookie.session.sessionVersion < u.version :=
    calc cookie.session.sessionVersion
      _ ≤ s.version := (hinv.cookies cookie hmem).1
      _ < t.version := hsigns.version hok hstep hmoves
      _ ≤ u.version := version_of_path hinv' hpath
  simp [good, hlt.ne']

/-! ## Ada changes her password -/

def plainSettings : Settings where
  auth := Auth.plainSettings
  users := ⟨id, id, id⟩
  verifyPassword password hash := password == hash

def ada : State where
  id := 1
  account := { user := { username := "ada", passwordHash := "old" } }
  now := 0

/-- The session of her login. -/
def adasCookie : Cookie := ⟨⟨1, 0, false, 0⟩, { passwordHash := some "old" }⟩

def adasLogin : List Label := [.request 0 (.login "old"), .next 0]

/-- The request, up to its commit. -/
def adasChange : List Label := [.request 1 (.changePassword adasCookie "old" "new"), .next 1]

def run (s : State) (labels : List Label) : Option State :=
  (system plainSettings).run (fun s label => undisturbed s label = true) s labels

theorem adasLogin_runs : (run ada adasLogin).isSome = true := by decide

/-- She is signed in. -/
def signedIn : State := (run ada adasLogin).get adasLogin_runs

theorem reached_signedIn : Reached plainSettings signedIn :=
  .of_run ⟨rfl, rfl, rfl⟩ (Option.some_get adasLogin_runs).symm

theorem good_earned_ada : Earned signedIn.account adasCookie.grounds :=
  good_earned reached_signedIn (by decide) (by decide)

theorem adasChange_runs : (run signedIn adasChange).isSome = true := by decide

def changing : State := (run signedIn adasChange).get adasChange_runs

theorem changed_runs : (step plainSettings changing (.next 1)).isSome = true := by decide

def changed : State := (step plainSettings changing (.next 1)).get changed_runs

theorem sessions_end_ada : good changed adasCookie = false := by
  have hreached : Reached plainSettings changing :=
    reached_signedIn.extend (.of_run (Option.some_get adasChange_runs).symm)
  have hstep : (system plainSettings).step changing (.next 1) = some changed :=
    (Option.some_get changed_runs).symm
  exact sessions_end hreached (by decide) hstep (Or.inl (by decide)) (.refl _) (by decide)

/-- Between her commit and her new cookie an administrator sets another password, and her session is
good. -/
example : (((system plainSettings).run Lib.anyStep changing [.next 1,
      .request 2 (.updateUser false { password := some "other" }), .next 2, .next 2, .next 1]).any
    fun s => s.cookies.any fun cookie => good s cookie && !cookie.grounds.sso &&
      cookie.grounds.passwordHash != some s.account.user.passwordHash) = true := by
  decide

end Sessions

end AnsiDeck
