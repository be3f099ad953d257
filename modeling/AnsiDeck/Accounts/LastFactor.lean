import AnsiDeck.Accounts.Factors
import AnsiDeck.Lib.Serial

/-!
# An administrator keeps a second factor

`_refuse_removing_last_factor` is asked before the row is locked, of what was loaded then. Two
requests that each remove one of the last two factors are both let through; the lock only makes the
second check its own second factor, with the recovery codes that are still there. What decides is
the answer at the commit (`stands`). Requests that don't overlap get the same answer then
(`stands_of_oneAtATime`).
-/

namespace AnsiDeck

namespace Factors

open Lib (Serial Table)
open Auth (SecondFactorProof Reply Factor Later)

variable {cfg : AuthSettings} {s t : State} {a a' : Account}

/-- The factor a request removes. -/
def removal : Request → Option Factor
  | .totpDisable _ => some .totp
  | .removePasskey _ _ => some .passkey
  | _ => none

/-- A removal whose second factor was accepted, and that another answer would have refused now. -/
def overtaken (cfg : AuthSettings) (s : State) (request : Request) (reply : Reply) : Bool :=
  (removal request).any fun factor =>
    reply.refused.isNone && (Auth.refuseRemovingLastFactor cfg s.account s.roles factor).isSome

/-- When a removal commits, it would still not be refused. -/
def stands (cfg : AuthSettings) (s : State) : Label → Bool
  | .next tx _ =>
    (s.txs.get? tx).all fun row =>
      match row.phase with
      | .flushed reply => !overtaken cfg s row.request reply
      | _ => true
  | _ => true

/-! ## What a request leaves -/

/-- The same factors, under the same role. -/
structure Same (a a' : Account) : Prop where
  totp : a'.totpEnabled = a.totpEnabled
  ids : Auth.Account.ids a' = Auth.Account.ids a
  role : a'.user.role = a.user.role

theorem Same.refl (a : Account) : Same a a := ⟨rfl, rfl, rfl⟩

theorem same_used {id : PasskeyId} {count : Nat} {now : Time} :
    Same a (Passkeys.used (Passkeys.dropChallenge a) id count now) :=
  ⟨rfl, Auth.ids_used, rfl⟩

theorem same_checkProof {proof : SecondFactorProof} {now : Time} :
    Same a (Auth.checkProof cfg a proof now).1 := by
  unfold Auth.checkProof Auth.checkSecondFactor
  cases proof.attempt with
  | passkey credential purpose =>
    dsimp only
    rcases hcheck : Passkeys.verifyAssertion cfg a credential purpose now with ⟨a', e | proof⟩
    · rcases Auth.verifyAssertion_refused hcheck with rfl | rfl
      · exact .refl _
      · exact ⟨rfl, rfl, rfl⟩
    · obtain ⟨challenge, p, count, -, -, -, -, rfl⟩ := Auth.verifyAssertion_ok hcheck
      exact same_used
  | codes code recoveryCode =>
    dsimp only
    cases hcheck : Totp.useSecondFactor cfg a code recoveryCode now with
    | none => exact .refl a
    | some used =>
      obtain ⟨proof, a'⟩ := used
      have hsame : a'.user.totpSecret = a.user.totpSecret ∧ a'.passkeys = a.passkeys ∧
          a'.user.role = a.user.role := by
        unfold Totp.useSecondFactor Totp.useTotp Totp.useRecoveryCode at hcheck
        grind
      obtain ⟨htotp, hpasskeys, hrole⟩ := hsame
      exact ⟨congrArg Option.isSome htotp, congrArg (List.map _) hpasskeys, hrole⟩

/-- A removal: refused, or done to an account with the same factors. -/
theorem removing_cases {proof : SecondFactorProof} {now : Time} {remove : Account → Account} :
    ∃ a', Same a a' ∧
      ((Auth.removing (Auth.checkProof cfg a proof now) remove).refused.isSome = true ∧
          (Auth.removing (Auth.checkProof cfg a proof now) remove).account = a' ∨
        (Auth.removing (Auth.checkProof cfg a proof now) remove).refused = none ∧
          (Auth.removing (Auth.checkProof cfg a proof now) remove).account = remove a') := by
  have hsame := @same_checkProof cfg a proof now
  unfold Auth.removing
  split
  · next heq =>
    rw [heq] at hsame
    exact ⟨_, hsame, Or.inr ⟨rfl, rfl⟩⟩
  · next heq =>
    rw [heq] at hsame
    exact ⟨_, hsame, Or.inl ⟨rfl, rfl⟩⟩

theorem twoFactorEnabled_iff :
    a.twoFactorEnabled = true ↔ a.totpEnabled = true ∨ Auth.Account.ids a ≠ [] := by
  simp [Account.twoFactorEnabled, Auth.Account.ids]

theorem Same.twoFactorEnabled (h : Same a a') : a'.twoFactorEnabled = a.twoFactorEnabled := by
  rw [Bool.eq_iff_iff, twoFactorEnabled_iff, twoFactorEnabled_iff, h.totp, h.ids]

/-- Turning TOTP off leaves a factor exactly if there is a passkey. -/
theorem clear_left (h : Same a a') :
    (Totp.clear a').twoFactorEnabled = true ↔ Auth.left a .totp ≠ 0 := by
  have hlength : a'.passkeys.length = a.passkeys.length := by
    simpa [Auth.Account.ids] using congrArg List.length h.ids
  rw [twoFactorEnabled_iff]
  have hleft : Auth.left a .totp = a.passkeys.length := by simp [Auth.left]
  rw [hleft, ← hlength]
  simp [Totp.clear, Account.totpEnabled, Auth.Account.ids]

/-- Removing a passkey that is there leaves a factor exactly if it was not the last. -/
theorem withoutPasskey_left {id : PasskeyId} (h : Same a a')
    (hnodup : (Auth.Account.ids a).Nodup) (hmem : id ∈ Auth.Account.ids a) :
    (Auth.withoutPasskey a' id).twoFactorEnabled = true ↔ Auth.left a .passkey ≠ 0 := by
  have hpasskeys : Auth.Account.ids (Auth.withoutPasskey a' id)
      = (Auth.Account.ids a).filter fun i => i != id := by
    have hfilter : (Auth.withoutPasskey a' id).passkeys = a'.passkeys.filter fun p =>
        p.id != id := by
      unfold Auth.withoutPasskey
      dsimp only
      split <;> rfl
    rw [← h.ids]
    unfold Auth.Account.ids
    rw [hfilter, List.filter_map]
    rfl
  have htotp : (Auth.withoutPasskey a' id).totpEnabled = a.totpEnabled := by
    rw [← h.totp]
    unfold Auth.withoutPasskey
    dsimp only
    split <;> rfl
  have hlength : ((Auth.Account.ids a).filter fun i => i != id).length + 1
      = a.passkeys.length := by
    have herase := List.length_erase_of_mem hmem
    have hpos := List.length_pos_of_mem hmem
    rw [hnodup.erase_eq_filter] at herase
    have hids : (Auth.Account.ids a).length = a.passkeys.length := List.length_map ..
    omega
  rw [twoFactorEnabled_iff, hpasskeys, htotp, ← List.length_pos_iff]
  cases htotpEnabled : a.totpEnabled with
  | true =>
    have hleft : Auth.left a .passkey = 1 + a.passkeys.length - 1 := by
      simp [Auth.left, htotpEnabled]
    rw [hleft]
    simp only [true_or, true_iff]
    omega
  | false =>
    have hleft : Auth.left a .passkey = a.passkeys.length - 1 := by simp [Auth.left, htotpEnabled]
    rw [hleft]
    simp only [Bool.false_eq_true, false_or]
    omega

/-- A handler that adds, at most. -/
structure Adds (a a' : Account) (seq : PasskeyId) : Prop where
  totp : a'.totpEnabled = a.totpEnabled
  role : a'.user.role = a.user.role
  passkeys : a'.passkeys = a.passkeys ∨ ∃ p, p.id = seq ∧ a'.passkeys = a.passkeys ++ [p]

theorem Adds.refl (a : Account) (seq : PasskeyId) : Adds a a seq := ⟨rfl, rfl, Or.inl rfl⟩

theorem Adds.twoFactorEnabled {seq : PasskeyId} (h : Adds a a' seq)
    (hon : a.twoFactorEnabled = true) : a'.twoFactorEnabled = true := by
  rw [twoFactorEnabled_iff] at hon ⊢
  rw [h.totp]
  refine hon.imp_right fun hids => ?_
  unfold Auth.Account.ids at hids ⊢
  rcases h.passkeys with hsame | ⟨p, -, hadded⟩
  · rwa [hsame]
  · rw [hadded]
    simp

theorem adds_options {challenge : String} {purpose : Purpose} {now : Time} {seq : PasskeyId} :
    Adds a (Auth.options cfg a challenge purpose now).account seq := by
  refine ⟨?_, ?_, Or.inl Auth.passkeys_options⟩ <;>
    (unfold Auth.options Passkeys.authenticationOptions
     grind [Auth.refuse, Passkeys.storeChallenge, Account.totpEnabled])

theorem adds_registrationOptions {challenge handle : String} {now : Time} {seq : PasskeyId} :
    Adds a (Auth.passkeyRegistrationOptions cfg a challenge handle now).account seq := by
  refine ⟨?_, ?_, Or.inl Auth.passkeys_registrationOptions⟩ <;>
    (unfold Auth.passkeyRegistrationOptions Passkeys.registrationOptions
     grind [Auth.refuse, Passkeys.storeChallenge, Account.totpEnabled])

theorem adds_addPasskey {seq : PasskeyId} {name : String} {credential : PasskeyResponse}
    {registered : String → Bool} {hashes : List Digest} {now : Time} :
    Adds a (Auth.addPasskey cfg a seq name credential registered hashes now).account seq := by
  have huser : ∀ p : WebAuthnCredential,
      (Auth.withPasskey (Passkeys.dropChallenge a) p hashes).totpEnabled = a.totpEnabled ∧
      (Auth.withPasskey (Passkeys.dropChallenge a) p hashes).user.role = a.user.role := by
    intro p
    unfold Auth.withPasskey
    dsimp only
    split <;> exact ⟨rfl, rfl⟩
  have hboth : (Auth.addPasskey cfg a seq name credential registered hashes now).account.totpEnabled
        = a.totpEnabled ∧
      (Auth.addPasskey cfg a seq name credential registered hashes now).account.user.role
        = a.user.role := by
    unfold Auth.addPasskey
    split
    · exact ⟨rfl, rfl⟩
    rcases @Auth.verifyRegistration_cases cfg a credential now with
      ⟨e, hcheck⟩ | ⟨e, hcheck⟩ | ⟨challenge, new, hcheck, -⟩
    · rw [hcheck]
      exact ⟨rfl, rfl⟩
    · rw [hcheck]
      exact ⟨rfl, rfl⟩
    rw [hcheck]
    dsimp only
    split
    · exact ⟨rfl, rfl⟩
    · exact huser _
  exact ⟨hboth.1, hboth.2, Auth.passkeys_addPasskey⟩

/-- **What a request that holds the row makes of it.** A removal whose second factor was accepted
leaves a factor exactly if it did not remove the last; everything else leaves the factors. -/
structure Leaves (a : Account) (seq : PasskeyId) (request : Request) (r : Reply) : Prop where
  role : r.account.user.role = a.user.role
  later : Later a r.account ∨ ∃ p, p.id = seq ∧ r.account.passkeys = a.passkeys ++ [p]
  factor : a.twoFactorEnabled = true → (r.account.twoFactorEnabled = true ↔
    ∀ factor, removal request = some factor → r.refused = none → Auth.left a factor ≠ 0)

theorem Adds.leaves {seq : PasskeyId} {request : Request} {r : Reply} (h : Adds a r.account seq)
    (hrequest : removal request = none) : Leaves a seq request r := by
  refine ⟨h.role, h.passkeys.imp .of_passkeys id, fun hon => ?_⟩
  refine iff_of_true (h.twoFactorEnabled hon) fun factor hfactor => ?_
  rw [hrequest] at hfactor
  exact absurd hfactor (by simp)

/-- Refused, the second factor is used up; let through, the factor is gone. -/
theorem leaves_removing {proof : SecondFactorProof} {seq : PasskeyId} {now : Time}
    {remove : Account → Account} {request : Request} {factor : Factor}
    (hrequest : removal request = some factor) (hrole : ∀ a, (remove a).user.role = a.user.role)
    (hlater : Later a (Auth.removing (Auth.checkProof cfg a proof now) remove).account)
    (hleft : (Auth.removing (Auth.checkProof cfg a proof now) remove).refused = none →
      ∀ a', Same a a' → ((remove a').twoFactorEnabled = true ↔ Auth.left a factor ≠ 0)) :
    Leaves a seq request (Auth.removing (Auth.checkProof cfg a proof now) remove) := by
  obtain ⟨a', hsame, hcases⟩ := @removing_cases cfg a proof now remove
  rcases hcases with ⟨hrefused, haccount⟩ | ⟨hrefused, haccount⟩
  · refine ⟨?_, Or.inl hlater, fun hon => iff_of_true ?_ fun factor _ hnone => ?_⟩
    · rw [haccount, hsame.role]
    · rw [haccount, hsame.twoFactorEnabled, hon]
    · rw [hnone] at hrefused
      exact absurd hrefused (by simp)
  · refine ⟨?_, Or.inl hlater, fun _ => ?_⟩
    · rw [haccount, hrole, hsame.role]
    · rw [haccount, hleft hrefused a' hsame, hrefused, hrequest]
      simp

theorem leaves_totpDisable {proof : SecondFactorProof} {seq : PasskeyId} {now : Time}
    (hnodup : (Auth.Account.ids a).Nodup) :
    Leaves a seq (.totpDisable proof) (handled cfg a seq now (.totpDisable proof)) :=
  leaves_removing rfl (fun _ => rfl)
    (Auth.later_removing hnodup fun _ => .of_passkeys rfl) fun _ _ hsame => clear_left hsame

theorem leaves_removePasskey {id : PasskeyId} {proof : SecondFactorProof} {seq : PasskeyId}
    {now : Time} (hnodup : (Auth.Account.ids a).Nodup) :
    Leaves a seq (.removePasskey id proof) (handled cfg a seq now (.removePasskey id proof)) := by
  have hlater := @Auth.later_removing cfg a proof.attempt now (fun a => Auth.withoutPasskey a id)
    hnodup fun a => Auth.later_withoutPasskey a id
  unfold handled
  dsimp only
  split
  · refine ⟨rfl, Or.inl (.refl a), fun hon => iff_of_true hon fun factor _ hnone => ?_⟩
    exact absurd hnone (by simp [Auth.refuse])
  next hgone =>
  refine leaves_removing rfl (fun a => ?_) hlater fun hrefused a' hsame => ?_
  · unfold Auth.withoutPasskey
    dsimp only
    split <;> rfl
  · have hmem : id ∈ Auth.Account.ids a := by
      simpa [hrefused, Auth.Account.ids] using hgone
    exact withoutPasskey_left hsame hnodup hmem

theorem leaves_handled {request : Request} {seq : PasskeyId} {now : Time}
    (hnodup : (Auth.Account.ids a).Nodup) :
    Leaves a seq request (handled cfg a seq now request) := by
  cases request with
  | totpDisable proof => exact leaves_totpDisable hnodup
  | removePasskey id proof => exact leaves_removePasskey hnodup
  | passkeyStepUpOptions challenge => exact Adds.leaves adds_options rfl
  | passkeyRegistrationOptions challenge handle => exact Adds.leaves adds_registrationOptions rfl
  | addPasskey name credential registered hashes => exact Adds.leaves adds_addPasskey rfl
  | totpSetup secret => exact Adds.leaves (Adds.refl a seq) rfl
  | totpEnable code hashes => exact Adds.leaves (Adds.refl a seq) rfl

/-! ## The invariant -/

/-- What the holder of the row's lock has read is still committed. -/
def Knows (cfg : AuthSettings) (s : State) (row : Tx) : Prop :=
  match row.phase with
  | .locked user => user = s.user
  | .flushed reply => ∃ now, reply = handled cfg s.account s.seq now row.request
  | _ => True

def Apart (row row' : Tx) : Prop := ¬ (row.phase.locks = true ∧ row'.phase.locks = true)

structure Inv (cfg : AuthSettings) (s : State) : Prop where
  required : Auth.admin2faRequired cfg s.account s.roles = true
  nodup : (Auth.Account.ids s.account).Nodup
  below : ∀ p ∈ s.passkeys, p.id < s.seq
  alone : s.txs.Pairs Apart
  knows : ∀ tx row, s.txs.get? tx = some row → Knows cfg s row

theorem knows_of_unlocked {row : Tx} (h : row.phase.locks = false) : Knows cfg s row := by
  unfold Knows
  split
  · next hphase => exact absurd h (by simp [hphase, Phase.locks])
  · next hphase => exact absurd h (by simp [hphase, Phase.locks])
  · trivial

/-- A statement that commits nothing. -/
theorem inv_move {tx : Nat} {row : Tx} {phase : Phase} (h : Inv cfg s)
    (hrow : s.txs.get? tx = some row)
    (hlocks : phase.locks = true → row.phase.locks = true ∨ free s tx = true)
    (hknows : Knows cfg s { row with phase := phase }) : Inv cfg (putTx s tx row phase) := by
  have hother : ∀ other held, s.txs.get? other = some held → other ≠ tx → phase.locks = true →
      held.phase.locks = false := by
    intro other held hheld hne hphase
    rcases hlocks hphase with hmine | hfree
    · have hapart := h.alone tx other row held hrow hheld hne
      simpa [Apart, hmine] using hapart
    · have hall := Table.all_iff.mp hfree other held hheld
      simpa [hne] using hall
  refine ⟨h.required, h.nodup, h.below, h.alone.put fun other held hheld hne => ?_, ?_⟩
  · constructor
    · rintro ⟨hphase, hheldLocks⟩
      rw [hother other held hheld hne hphase] at hheldLocks
      exact absurd hheldLocks (by simp)
    · rintro ⟨hheldLocks, hphase⟩
      rw [hother other held hheld hne hphase] at hheldLocks
      exact absurd hheldLocks (by simp)
  · intro tx' row' hget
    rcases Table.get?_put_cases hget with ⟨rfl, rfl⟩ | ⟨-, hold⟩
    · exact hknows
    · exact h.knows tx' row' hold

/-- The commit of the request that holds the row. -/
theorem inv_commit {tx : Nat} {row : Tx} {error : Option HTTPException} (h : Inv cfg s)
    (hrow : s.txs.get? tx = some row) (hlocks : row.phase.locks = true)
    (htxs : t.txs = s.txs.put tx { row with phase := .answered error }) (hroles : t.roles = s.roles)
    (hrole : t.user.role = s.user.role) (hnodup : (Auth.Account.ids t.account).Nodup)
    (hbelow : ∀ p ∈ t.passkeys, p.id < t.seq) : Inv cfg t := by
  refine ⟨?_, hnodup, hbelow, ?_, ?_⟩
  · have hrequired := h.required
    unfold Auth.admin2faRequired at hrequired ⊢
    rw [hroles]
    have : t.account.user.role = s.account.user.role := hrole
    rwa [this]
  · rw [htxs]
    refine h.alone.put fun other held _ _ => ⟨?_, ?_⟩
    · rintro ⟨hphase, -⟩
      exact absurd hphase (by simp [Phase.locks])
    · rintro ⟨-, hphase⟩
      exact absurd hphase (by simp [Phase.locks])
  · intro tx' row' hget
    rw [htxs] at hget
    rcases Table.get?_put_cases hget with ⟨rfl, rfl⟩ | ⟨hne, hold⟩
    · exact knows_of_unlocked rfl
    · have hapart := h.alone tx tx' row row' hrow hold hne
      exact knows_of_unlocked (by simpa [Apart, hlocks] using hapart)

theorem apply_columns {user : User} {columns : Columns} :
    (columns.apply user).role = user.role ∧
      (user.totpSecret.isSome = true → (columns.apply user).totpSecret.isSome = true) := by
  cases columns with
  | pending secret => exact ⟨rfl, id⟩
  | enabled secret counter hashes sessionVersion => exact ⟨rfl, fun _ => rfl⟩

/-- What a step leaves of the factors, and of the invariant. -/
structure Steps (cfg : AuthSettings) (s : State) (a : Label) (t : State) : Prop where
  inv : Inv cfg t
  factor : s.account.twoFactorEnabled = true →
    (t.account.twoFactorEnabled = true ↔ stands cfg s a = true)

theorem steps_move {tx : Nat} {now : Time} {row : Tx} {phase : Phase} (h : Inv cfg s)
    (hrow : s.txs.get? tx = some row)
    (hlocks : phase.locks = true → row.phase.locks = true ∨ free s tx = true)
    (hknows : Knows cfg s { row with phase := phase }) (hstands : ∀ r, row.phase ≠ .flushed r) :
    Steps cfg s (.next tx now) (putTx s tx row phase) := by
  refine ⟨inv_move h hrow hlocks hknows, fun hon => iff_of_true hon ?_⟩
  unfold stands
  simp only [hrow, Option.all_some]

theorem steps_flushed {tx : Nat} {now : Time} {row : Tx} {reply : Reply} (h : Inv cfg s)
    (hrow : s.txs.get? tx = some row) (hphase : row.phase = .flushed reply) :
    Steps cfg s (.next tx now) { putTx s tx row (.answered reply.refused) with
      user := reply.account.user, passkeys := reply.account.passkeys, seq := s.seq + 1 } := by
  have hknows := h.knows tx row hrow
  unfold Knows at hknows
  rw [hphase] at hknows
  obtain ⟨asked, hreply⟩ := hknows
  have hleaves : Leaves s.account s.seq row.request reply := hreply ▸ leaves_handled h.nodup
  have hnumbered : (Auth.Account.ids reply.account).Nodup ∧
      ∀ p ∈ reply.account.passkeys, p.id < s.seq + 1 := by
    have hstate : Auth.Numbered ⟨s.account, s.seq, []⟩ := ⟨h.nodup, h.below⟩
    have hafter : Auth.Numbered ⟨reply.account, s.seq + 1, []⟩ := by
      rcases hleaves.later with hlater | ⟨p, hid, hadded⟩
      · exact Auth.Later.numbered hlater rfl hstate
      · exact (Auth.evolves_added hid hadded rfl hstate).2
    exact ⟨hafter.nodup, hafter.below⟩
  refine ⟨inv_commit h hrow (by simp [hphase, Phase.locks]) rfl rfl hleaves.role hnumbered.1
    hnumbered.2, fun hon => (hleaves.factor hon).trans ?_⟩
  -- under the requirement the refusal asks nothing but what is left
  have hrefuse : ∀ factor, (Auth.refuseRemovingLastFactor cfg s.account s.roles factor).isSome
      = decide (Auth.left s.account factor = 0) := by
    intro factor
    unfold Auth.refuseRemovingLastFactor
    rw [h.required]
    by_cases hleft : Auth.left s.account factor = 0 <;> simp [hleft]
  unfold stands overtaken
  simp only [hrow, hphase, Option.all_some, hrefuse]
  cases removal row.request with
  | none => simp
  | some factor =>
    simp only [Option.some.injEq, forall_eq', Option.any_some, Bool.not_and, Bool.or_eq_true,
      Bool.not_eq_true', Option.isNone_eq_false_iff, decide_eq_false_iff_not]
    cases reply.refused <;> simp

theorem steps_updated {tx : Nat} {now : Time} {row : Tx} {columns : Columns} (h : Inv cfg s)
    (hrow : s.txs.get? tx = some row) (hphase : row.phase = .updated columns) :
    Steps cfg s (.next tx now)
      { putTx s tx row (.answered none) with user := columns.apply s.user } := by
  obtain ⟨hrole, hsecret⟩ := @apply_columns s.user columns
  refine ⟨inv_commit h hrow (by simp [hphase, Phase.locks]) rfl rfl hrole h.nodup h.below, ?_⟩
  intro hon
  refine iff_of_true ?_ (by simp [stands, hrow, hphase])
  rw [twoFactorEnabled_iff] at hon ⊢
  exact hon.imp hsecret id

theorem steps_next {tx : Nat} {now : Time} {row : Tx} (h : Inv cfg s)
    (hrow : s.txs.get? tx = some row) (hs : nextStatement cfg s tx now row = some t) :
    Steps cfg s (.next tx now) t := by
  unfold nextStatement at hs
  cases hphase : row.phase with
  | authenticated user =>
    rw [hphase] at hs
    dsimp only at hs
    split at hs
    · obtain rfl := Option.some.inj hs
      exact steps_move h hrow (fun hlocks => absurd hlocks (by simp [Phase.locks])) trivial
        (by simp [hphase])
    · obtain rfl := Option.some.inj hs
      exact steps_move h hrow (fun hlocks => absurd hlocks (by simp [Phase.locks])) trivial
        (by simp [hphase])
  | allowed seen asked =>
    rw [hphase] at hs
    dsimp only at hs
    split at hs
    · exact absurd hs (by simp)
    next hfree =>
    have hfree : free s tx = true := by simpa using hfree
    split at hs
    · obtain rfl := Option.some.inj hs
      exact steps_move h hrow (fun _ => Or.inr hfree) rfl (by simp [hphase])
    · obtain ⟨columns, -, rfl⟩ := Option.map_eq_some_iff.mp hs
      exact steps_move h hrow (fun _ => Or.inr hfree) trivial (by simp [hphase])
  | locked user =>
    rw [hphase] at hs
    obtain rfl := Option.some.inj hs
    have hknows := h.knows tx row hrow
    unfold Knows at hknows
    rw [hphase] at hknows
    subst hknows
    exact steps_move h hrow (fun _ => Or.inl (by simp [hphase, Phase.locks])) ⟨now, rfl⟩
      (by simp [hphase])
  | flushed reply =>
    rw [hphase] at hs
    obtain rfl := Option.some.inj hs
    exact steps_flushed h hrow hphase
  | updated columns =>
    rw [hphase] at hs
    obtain rfl := Option.some.inj hs
    exact steps_updated h hrow hphase
  | answered error =>
    rw [hphase] at hs
    exact absurd hs (by simp)

theorem steps_step {e : Label} (h : Inv cfg s) (hs : step cfg s e = some t) : Steps cfg s e t := by
  cases e with
  | request tx request =>
    simp only [step] at hs
    split at hs
    · obtain rfl := Option.some.inj hs
      refine ⟨⟨h.required, h.nodup, h.below, h.alone.put fun other held _ _ => ⟨?_, ?_⟩, ?_⟩,
        fun hon => iff_of_true hon rfl⟩
      · rintro ⟨hphase, -⟩
        exact absurd hphase (by simp [Phase.locks])
      · rintro ⟨-, hphase⟩
        exact absurd hphase (by simp [Phase.locks])
      · intro tx' row' hget
        rcases Table.get?_put_cases hget with ⟨rfl, rfl⟩ | ⟨-, hold⟩
        · exact knows_of_unlocked rfl
        · exact h.knows tx' row' hold
    · exact absurd hs (by simp)
  | next tx now =>
    obtain ⟨row, hrow, hs⟩ := Option.bind_eq_some_iff.mp hs
    exact steps_next h hrow hs
  | rollback tx =>
    obtain ⟨row, hrow, hs⟩ := Option.bind_eq_some_iff.mp hs
    obtain rfl := Option.some.inj hs
    refine ⟨⟨h.required, h.nodup, h.below, h.alone.remove tx, ?_⟩, fun hon => iff_of_true hon rfl⟩
    intro tx' row' hget
    exact h.knows tx' row' (Table.get?_remove_eq_some.mp hget).2

/-- **While every removal would still not be refused when it commits, a second factor is left; and
the removal that would be leaves none.** -/
theorem factor_left (hr : (system cfg).ReachableBy (fun s e => stands cfg s e = true) s) :
    s.account.twoFactorEnabled = true ∧
      ∀ e t, step cfg s e = some t →
        (t.account.twoFactorEnabled = true ↔ stands cfg s e = true) := by
  have hinv : (system cfg).Inductive (fun s e => stands cfg s e = true)
      fun s => Inv cfg s ∧ s.account.twoFactorEnabled = true :=
    { init := by
        rintro s ⟨htxs, hrequired, hon, hnodup, hbelow⟩
        refine ⟨⟨hrequired, hnodup, hbelow, ?_, ?_⟩, hon⟩
        · rw [htxs]
          exact Table.pairs_empty _
        · intro tx row hrow
          rw [htxs] at hrow
          exact absurd hrow (by simp)
      step := by
        rintro s e t ⟨h, hon⟩ hstands hs
        have hstep := steps_step h hs
        exact ⟨hstep.inv, (hstep.factor hon).mpr hstands⟩ }
  obtain ⟨h, hon⟩ := hinv.of_reachable hr
  exact ⟨hon, fun e t hs => (steps_step h hs).factor hon⟩

/-! TOTP and a passkey: one request turns TOTP off, another removes the passkey. -/

/-- The code of every time step, and recovery codes that are kept as they are. -/
def plainSettings : AuthSettings where
  generateOtp _ _ := "111111"
  hash := id
  lower := id
  passkeyRp := none
  verifyAuthentication _ _ _ _ := none
  verifyRegistration _ _ _ := none
  requireAdmin2fa := true

def twoFactors : State where
  user := { username := "ada", passwordHash := "", role := .admin, totpSecret := some "secret",
            recoveryCodeHashes := some ["aaaaaaaaaa"] }
  passkeys := [{ id := 1, credentialId := "c", publicKey := "k", name := "key" }]
  seq := 2

def removals : List Label :=
  [.request 1 (.totpDisable (.code "111111")), .request 2 (.removePasskey 1 (.code "aaaaaaaaaa"))]

/-- Both are let through before either has the row. -/
def overlapping : List Label :=
  removals ++ [.next 1 60, .next 2 60, .next 1 60, .next 1 60, .next 1 60, .next 2 60, .next 2 60,
    .next 2 60]

/-- The second asks when the first is done, and is refused. -/
def inTurn : List Label :=
  removals ++ [.next 1 60, .next 1 60, .next 1 60, .next 1 60, .next 2 60]

theorem twoFactors_init : (system plainSettings).init twoFactors :=
  ⟨rfl, rfl, rfl, by decide, by decide⟩

theorem factor_left_inTurn :
    ∃ s : State, s.account.totpEnabled = false ∧ s.account.twoFactorEnabled = true :=
  ⟨_, rfl, (factor_left (Lib.System.ReachableBy.of_isSome twoFactors_init inTurn rfl)).1⟩

theorem no_factor_left :
    ¬ ∀ s, (system plainSettings).Reachable s → s.account.twoFactorEnabled = true := by
  intro h
  have hr : (system plainSettings).Reachable _ :=
    Lib.System.ReachableBy.of_isSome twoFactors_init overlapping rfl
  have hnone := h _ hr
  exact absurd hnone (by decide)

/-! ## One request at a time -/

def Phase.ended : Phase → Bool
  | .answered _ => true
  | _ => false

/-- A request begins when every other is answered. -/
def oneAtATime (s : State) : Label → Bool
  | .request _ _ => s.txs.all fun _ row => row.phase.ended
  | _ => true

/-- What a request has read is still committed, and did not end it. -/
def Saw (cfg : AuthSettings) (s : State) (row : Tx) : Prop :=
  match row.phase with
  | .authenticated user => user = s.user
  | .allowed _ _ | .locked _ | .flushed _ | .updated _ =>
    ∃ asked, early cfg s.account s.roles asked row.request = none
  | .answered _ => True

/-- At most one request is open. -/
abbrev Alone (cfg : AuthSettings) (s : State) : Prop :=
  Serial (fun row => row.phase.ended) (Saw cfg s) s.txs

/-- A removal that was not ended leaves a factor. -/
theorem not_refused_of_early {roles : List Role} {asked : Time} {request : Request}
    {factor : Factor} (hearly : early cfg a roles asked request = none)
    (hremoval : removal request = some factor) :
    Auth.refuseRemovingLastFactor cfg a roles factor = none := by
  cases request with
  | totpDisable proof =>
    obtain rfl := Option.some.inj hremoval
    simp only [early] at hearly
    split at hearly
    · exact absurd hearly (by simp)
    split at hearly
    · exact absurd hearly (by simp)
    · exact Option.map_eq_none_iff.mp hearly
  | removePasskey id proof =>
    obtain rfl := Option.some.inj hremoval
    simp only [early] at hearly
    split at hearly
    · exact absurd hearly (by simp)
    split at hearly
    · exact absurd hearly (by simp)
    · exact Option.map_eq_none_iff.mp hearly
  | _ => exact absurd hremoval (by simp [removal])

theorem alone_putTx {tx : Nat} {row : Tx} {phase : Phase} (h : Alone cfg s)
    (hrow : s.txs.get? tx = some row) (hopen : row.phase.ended = false)
    (hsaw : phase.ended = false → Saw cfg s { row with phase := phase }) :
    Alone cfg (putTx s tx row phase) :=
  h.move hrow hopen hsaw

theorem alone_next {tx : Nat} {now : Time} {row : Tx} (h : Alone cfg s)
    (hrow : s.txs.get? tx = some row) (hs : nextStatement cfg s tx now row = some t) :
    Alone cfg t := by
  have hsaw := h.knows tx row hrow
  unfold Saw at hsaw
  unfold nextStatement at hs
  cases hphase : row.phase with
  | authenticated user =>
    rw [hphase] at hs hsaw
    have hopen : row.phase.ended = false := by rw [hphase]; rfl
    obtain rfl : user = s.user := hsaw rfl
    dsimp only at hs
    split at hs
    · obtain rfl := Option.some.inj hs
      exact alone_putTx h hrow hopen fun hnot => absurd hnot (by simp [Phase.ended])
    next hearly =>
    obtain rfl := Option.some.inj hs
    exact alone_putTx h hrow hopen fun _ => ⟨now, hearly⟩
  | allowed seen asked =>
    rw [hphase] at hs hsaw
    have hopen : row.phase.ended = false := by rw [hphase]; rfl
    dsimp only at hs
    split at hs
    · exact absurd hs (by simp)
    split at hs
    · obtain rfl := Option.some.inj hs
      exact alone_putTx h hrow hopen fun _ => hsaw rfl
    · obtain ⟨columns, -, rfl⟩ := Option.map_eq_some_iff.mp hs
      exact alone_putTx h hrow hopen fun _ => hsaw rfl
  | locked user =>
    rw [hphase] at hs hsaw
    have hopen : row.phase.ended = false := by rw [hphase]; rfl
    obtain rfl := Option.some.inj hs
    exact alone_putTx h hrow hopen fun _ => hsaw rfl
  | flushed reply =>
    rw [hphase] at hs
    have hopen : row.phase.ended = false := by rw [hphase]; rfl
    obtain rfl := Option.some.inj hs
    exact h.move hrow hopen fun hnot => absurd hnot (by simp [Phase.ended])
  | updated columns =>
    rw [hphase] at hs
    have hopen : row.phase.ended = false := by rw [hphase]; rfl
    obtain rfl := Option.some.inj hs
    exact h.move hrow hopen fun hnot => absurd hnot (by simp [Phase.ended])
  | answered error =>
    rw [hphase] at hs
    exact absurd hs (by simp)

theorem alone_step {e : Label} (h : Alone cfg s) (hok : oneAtATime s e = true)
    (hs : step cfg s e = some t) : Alone cfg t := by
  cases e with
  | request tx request =>
    simp only [step] at hs
    split at hs
    · obtain rfl := Option.some.inj hs
      exact Serial.begin hok fun _ => rfl
    · exact absurd hs (by simp)
  | next tx now =>
    obtain ⟨row, hrow, hs⟩ := Option.bind_eq_some_iff.mp hs
    exact alone_next h hrow hs
  | rollback tx =>
    obtain ⟨row, -, hs⟩ := Option.bind_eq_some_iff.mp hs
    obtain rfl := Option.some.inj hs
    exact h.remove tx

theorem stands_of_alone {e : Label} (h : Alone cfg s) : stands cfg s e = true := by
  cases e with
  | request tx request => rfl
  | rollback tx => rfl
  | next tx now =>
    simp only [stands]
    cases hrow : s.txs.get? tx with
    | none => rfl
    | some row =>
      rw [Option.all_some]
      split
      · next reply hphase =>
        have hsaw := h.knows tx row hrow (by rw [hphase]; rfl)
        unfold Saw at hsaw
        rw [hphase] at hsaw
        obtain ⟨asked, hearly⟩ := hsaw
        unfold overtaken
        cases hremoval : removal row.request with
        | none => rfl
        | some factor => simp [not_refused_of_early hearly hremoval]
      · rfl

/-- **Requests that don't overlap are let through by what is so when they commit.** -/
theorem stands_of_oneAtATime
    (hr : (system cfg).ReachableBy (fun s e => oneAtATime s e = true) s) :
    (system cfg).ReachableBy (fun s e => stands cfg s e = true) s := by
  have halone : (system cfg).Inductive (fun s e => oneAtATime s e = true) (Alone cfg) :=
    { init := by
        rintro s ⟨htxs, -⟩
        unfold Alone
        rw [htxs]
        exact Serial.empty
      step := fun s e t h hok hs => alone_step h hok hs }
  exact hr.within halone fun s e h _ => stands_of_alone h

end Factors

end AnsiDeck
