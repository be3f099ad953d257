import AnsiDeck.Scrub.Found

/-!
# Scrubbing a scrubbed text

The exact secrets and all patterns but one find nothing more to replace. The one is that of a URL's
password: a value that the last pattern replaces can have had the slash or the blank in it that
hid a password until then (`OpensUrl`), and the next time it is replaced.
-/

namespace AnsiDeck.Scrub

open Lib
open Lib.Edit (Apart apply cells chars cut keep span trace)
open Lib.Search (HidesThings Remains Reads holesOf)

section url

variable {u : Unicode}

/-! ## URLs in what edits make of a text -/

/-- A URL in the result, and the pieces that its user and its password were made from. -/
structure Pieces (text : Text) (es : List Edit) (user password : Text) where
  a : Text
  es₁ : List Edit
  userPiece : Text
  userEdits : List Edit
  passwordPiece : Text
  passwordEdits : List Edit
  after : Text
  es₂ : List Edit
  text_eq : text = a ++ urlText userPiece passwordPiece after
  edits_eq : es = es₁ ++ (List.replicate 3 keep ++ (userEdits ++ ([keep] ++ (passwordEdits ++
    ([keep] ++ es₂)))))
  span_before : span es₁ = a.length
  span_user : span userEdits = userPiece.length
  span_password : span passwordEdits = passwordPiece.length
  user_eq : apply redacted userEdits userPiece = user
  password_eq : apply redacted passwordEdits passwordPiece = password

theorem apart_single {c : Nat} (h : c ∈ txt "/:@") : Apart redacted [c] := by
  have hkinds : ∀ c ∈ txt "/:@", 91 ≠ c ∧ 93 ≠ c ∧ ¬ [c] <:+: redacted := by decide
  obtain ⟨hopen, hclose, hpart⟩ := hkinds c h
  exact apart_redacted (by simpa using hopen) (by simpa using hclose) hpart

theorem exists_pieces {text left user password right : Text} {es : List Edit}
    (hspan : span es = text.length)
    (h : apply redacted es text = left ++ urlText user password right) :
    Nonempty (Pieces text es user password) := by
  have hscheme : Apart redacted (txt "://") :=
    apart_redacted (by decide) (by decide) (by decide)
  obtain ⟨es₁, es₂, a, b, rfl, rfl, hspan₁, hspan₂, -, hright⟩ :=
    Edit.split_of_apply hscheme hspan h
  obtain ⟨es₃, es₄, user₂, c, rfl, rfl, hspan₃, hspan₄, huser, hright⟩ :=
    Edit.split_of_apply (apart_single (by decide : 58 ∈ txt "/:@")) hspan₂ hright
  obtain ⟨es₅, es₆, password₂, d, rfl, rfl, hspan₅, -, hpassword, -⟩ :=
    Edit.split_of_apply (apart_single (by decide : 64 ∈ txt "/:@")) hspan₄ hright
  exact ⟨⟨a, es₁, user₂, es₃, password₂, es₅, d, es₆, rfl, rfl, hspan₁, hspan₃, hspan₅, huser,
    hpassword⟩⟩

namespace Pieces

variable {text user password : Text} {es fs₁ fs₂ : List Edit} {x w z : Text}

/-- A cut in the user is one of the text. -/
theorem user_cut (p : Pieces text es user password) (h : p.userEdits = fs₁ ++ cut w.length :: fs₂)
    (hpiece : p.userPiece = x ++ (w ++ z)) (hspan : span fs₁ = x.length) :
    ∃ es₁ es₂ y b, es = es₁ ++ cut w.length :: es₂ ∧ text = (y ++ x) ++ (w ++ (z ++ 58 :: b)) ∧
      span es₁ = (y ++ x).length := by
  refine ⟨p.es₁ ++ (List.replicate 3 keep ++ fs₁),
    fs₂ ++ ([keep] ++ (p.passwordEdits ++ ([keep] ++ p.es₂))),
    p.a ++ txt "://", p.passwordPiece ++ 64 :: p.after, p.edits_eq.trans ?_, p.text_eq.trans ?_, ?_⟩
  · simp only [h, List.append_assoc, List.cons_append]
  · simp only [urlText, hpiece, List.append_assoc]
  · have hscheme : (txt "://").length = 3 := rfl
    simp only [Edit.span_append, Edit.span_keeps, p.span_before, hspan, List.length_append, hscheme,
      Nat.add_assoc]

/-- So is one in the password, which has an `@` behind it. -/
theorem password_cut (p : Pieces text es user password)
    (h : p.passwordEdits = fs₁ ++ cut w.length :: fs₂) (hpiece : p.passwordPiece = x ++ (w ++ z))
    (hspan : span fs₁ = x.length) :
    ∃ es₁ es₂ y b, es = es₁ ++ cut w.length :: es₂ ∧ text = (y ++ x) ++ (w ++ (z ++ 64 :: b)) ∧
      span es₁ = (y ++ x).length := by
  refine ⟨p.es₁ ++ (List.replicate 3 keep ++ (p.userEdits ++ ([keep] ++ fs₁))),
    fs₂ ++ ([keep] ++ p.es₂), p.a ++ (txt "://" ++ (p.userPiece ++ [58])), p.after,
    p.edits_eq.trans ?_, p.text_eq.trans ?_, ?_⟩
  · simp only [h, List.append_assoc, List.cons_append]
  · simp only [urlText, hpiece, List.append_assoc, List.cons_append, List.nil_append]
  · have hscheme : (txt "://").length = 3 := rfl
    have hkeep : span [keep] = 1 := rfl
    simp only [Edit.span_append, Edit.span_keeps, p.span_before, p.span_user, hspan, hkeep,
      List.length_append, hscheme, List.length_singleton, Nat.add_assoc]

/-- The holes of the pieces are holes of the text. -/
theorem holes_eq (p : Pieces text es user password) :
    apply [none] es (text.map some) = apply [none] p.es₁ (p.a.map some) ++ ((txt "://").map some ++
      (apply [none] p.userEdits (p.userPiece.map some) ++ some 58 ::
        (apply [none] p.passwordEdits (p.passwordPiece.map some) ++ some 64 ::
          apply [none] p.es₂ (p.after.map some)))) := by
  obtain ⟨a, es₁, userPiece, userEdits, passwordPiece, passwordEdits, after, es₂, rfl, rfl, h₁, h₂,
    h₃, -, -⟩ := p
  have htext : (a ++ urlText userPiece passwordPiece after).map some =
      a.map some ++ ((txt "://").map some ++ (userPiece.map some ++ ([some 58] ++
        (passwordPiece.map some ++ ([some 64] ++ after.map some))))) := by
    simp [urlText]
  rw [htext, Edit.apply_append _ _ _ _ _ (by rw [h₁, List.length_map]),
    Edit.apply_append _ _ _ _ _ rfl, Edit.apply_append _ _ _ _ _ (by rw [h₂, List.length_map]),
    Edit.apply_append _ _ _ _ _ rfl, Edit.apply_append _ _ _ _ _ (by rw [h₃, List.length_map]),
    Edit.apply_append _ _ _ _ _ rfl]
  rfl

end Pieces

/-- What was cut from a piece by a pass that replaces words. -/
def WordCuts (u : Unicode) (es : List Edit) (piece : Text) : Prop :=
  ∀ fs₁ fs₂ x w z, es = fs₁ ++ cut w.length :: fs₂ → piece = x ++ (w ++ z) → span fs₁ = x.length →
    10 < w.length ∧ ∀ c ∈ w, u.isWord c = true

/-- Such a piece has at most word characters that its result does not have. -/
theorem WordCuts.mem {es : List Edit} {piece : Text} (h : WordCuts u es piece)
    (hspan : span es = piece.length) {c : Nat} (hc : c ∈ piece) :
    c ∈ apply redacted es piece ∨ u.isWord c = true := by
  rcases Edit.mem_apply_or_cut redacted hspan hc with
    hin | ⟨fs₁, fs₂, x, w, z, hes, hpiece, hx, hw⟩
  · exact .inl hin
  · exact .inr ((h fs₁ fs₂ x w z hes hpiece hx).2 c hw)

/-- A short one is its result. -/
theorem WordCuts.apply_eq {es : List Edit} {piece : Text} (h : WordCuts u es piece)
    (hspan : span es = piece.length)
    (hlen : piece.length ≤ 10) : apply redacted es piece = piece := by
  refine Edit.apply_of_no_cut (fun n hn => ?_) hspan
  obtain ⟨fs₁, fs₂, hes⟩ := List.append_of_mem hn
  obtain ⟨x, w, z, hpiece, hx, rfl⟩ := Edit.exists_cut (hes ▸ hspan)
  obtain ⟨hlong, -⟩ := h fs₁ fs₂ x w z hes hpiece hx
  rw [hpiece, List.length_append, List.length_append] at hlen
  omega

/-- A pass that replaces words leaves no other password. -/
theorem UrlsMarked.run (hu : u.Tables) {q : Lib.Pattern Nat Group} (hq : WholeWord u q.regex)
    {text : Text} (h : UrlsMarked u text) : UrlsMarked u ((Pass.whole q).run text) := by
  intro left user password right heq hc
  rw [(Pass.whole q).run_eq_apply] at heq
  obtain ⟨p⟩ := exists_pieces ((Pass.whole q).span_edits text) heq
  have huser : WordCuts u p.userEdits p.userPiece := by
    intro fs₁ fs₂ x w z hes hpiece hx
    obtain ⟨es₁, es₂, y, b, hes', htext', hspan'⟩ := p.user_cut hes hpiece hx
    obtain ⟨hlong, hword, -⟩ := hq.cut hes' hspan' htext'
    exact ⟨hlong, hword⟩
  have hpassword : WordCuts u p.passwordEdits p.passwordPiece := by
    intro fs₁ fs₂ x w z hes hpiece hx
    obtain ⟨es₁, es₂, y, b, hes', htext', hspan'⟩ := p.password_cut hes hpiece hx
    obtain ⟨hlong, hword, -⟩ := hq.cut hes' hspan' htext'
    exact ⟨hlong, hword⟩
  -- word characters can be in the user and the password of a URL
  have hword : ∀ c, u.isWord c = true → urlUser u c = true ∧ urlPassword u c = true := by
    intro c hword
    have hspace : u.isSpace c = false := by
      apply Bool.eq_false_iff.2
      intro hs
      rw [isWord_space hu hs] at hword
      exact absurd hword Bool.false_ne_true
    have hsign : c ∉ txt "/:@" := by
      intro hmem
      rw [isWord_sign hu (by revert hmem; simp [txt]; omega)] at hword
      exact absurd hword Bool.false_ne_true
    have hsign' : c ∉ txt "/@" := fun hmem => hsign (by revert hmem; simp [txt]; omega)
    exact ⟨by simp [urlUser, hspace, hsign], by simp [urlPassword, hspace, hsign']⟩
  have hcred : Credentials u p.userPiece p.passwordPiece := by
    constructor
    · intro hnil
      have hsame := huser.apply_eq p.span_user (by rw [hnil]; exact Nat.zero_le _)
      exact hc.user_ne (p.user_eq.symm.trans (hsame.trans hnil))
    · intro c hmem
      rcases huser.mem p.span_user hmem with hin | hin
      · exact hc.user_chars c (p.user_eq ▸ hin)
      · exact (hword c hin).1
    · intro hnil
      have hsame := hpassword.apply_eq p.span_password (by rw [hnil]; exact Nat.zero_le _)
      exact hc.password_ne (p.password_eq.symm.trans (hsame.trans hnil))
    · intro c hmem
      rcases hpassword.mem p.span_password hmem with hin | hin
      · exact hc.password_chars c (p.password_eq ▸ hin)
      · exact (hword c hin).2
  have hmark := h p.a p.userPiece p.passwordPiece p.after p.text_eq hcred
  have hsame := hpassword.apply_eq p.span_password (by rw [hmark]; exact Nat.le_refl 10)
  exact p.password_eq.symm.trans (hsame.trans hmark)

/-! ## What the last pattern can open -/

/-- The text with each value that the last pass replaces as one hole. -/
def holes (u : Unicode) (text : Text) : List (Option Nat) :=
  apply [none] ((assignmentPass u).edits text) (text.map some)

/-- Read over the holes, there is a URL with one in its user or its password, and the password is
neither the hole alone nor the marker. -/
def Opens (u : Unicode) (holes : List (Option Nat)) : Prop :=
  ∃ a user password after,
    holes =
      a ++ ((txt "://").map some ++ (user ++ some 58 :: (password ++ some 64 :: after))) ∧
    user ≠ [] ∧ (∀ c, some c ∈ user → urlUser u c = true) ∧
    password ≠ [] ∧ (∀ c, some c ∈ password → urlPassword u c = true) ∧
    none ∈ user ++ password ∧ password ≠ [none] ∧ password ≠ redacted.map some

/-- The marker in the holes. -/
def fill (piece : List (Option Nat)) : Text :=
  piece.flatMap fun o => o.elim redacted fun c => [c]

theorem fill_append (p q : List (Option Nat)) : fill (p ++ q) = fill p ++ fill q :=
  List.flatMap_append

theorem fill_some (w : Text) : fill (w.map some) = w := by
  induction w with
  | nil => rfl
  | cons c w ih =>
    rw [List.map_cons, fill, List.flatMap_cons]
    exact congrArg (c :: ·) ih

theorem fill_holes (text : Text) : fill (holes u text) = (assignmentPass u).run text := by
  rw [(assignmentPass u).run_eq_apply, Edit.apply_eq_fill]
  rfl

theorem mem_fill {piece : List (Option Nat)} {c : Nat} (h : c ∈ fill piece) :
    some c ∈ piece ∨ c ∈ redacted := by
  obtain ⟨o, ho, hc⟩ := List.mem_flatMap.1 h
  cases o with
  | none => exact .inr hc
  | some d =>
    obtain rfl := List.mem_singleton.1 hc
    exact .inl ho

theorem mem_fill_of_some {piece : List (Option Nat)} {c : Nat} (h : some c ∈ piece) :
    c ∈ fill piece :=
  List.mem_flatMap.2 ⟨some c, h, List.mem_singleton_self c⟩

theorem fill_ne_nil {piece : List (Option Nat)} (h : piece ≠ []) : fill piece ≠ [] := by
  obtain ⟨o, piece, rfl⟩ := List.exists_cons_of_ne_nil h
  cases o with
  | none => exact fun hnil => absurd (congrArg List.length hnil) (by simp [fill, redacted, txt])
  | some c => exact List.cons_ne_nil _ _

/-- Only the marker and a hole alone are filled with the marker. -/
theorem fill_eq_redacted {piece : List (Option Nat)} (h : fill piece = redacted) :
    piece = [none] ∨ piece = redacted.map some := by
  by_cases hhole : none ∈ piece
  · left
    obtain ⟨p, q, rfl⟩ := List.append_of_mem hhole
    have hlen : (fill p).length + (redacted.length + (fill q).length) = redacted.length := by
      have := congrArg List.length h
      rw [fill_append, List.length_append] at this
      have hcons : fill (none :: q) = redacted ++ fill q := List.flatMap_cons
      rwa [hcons, List.length_append] at this
    have hp : p = [] := by
      by_contra hne
      have := List.length_pos_iff.2 (fill_ne_nil hne)
      omega
    have hq : q = [] := by
      by_contra hne
      have := List.length_pos_iff.2 (fill_ne_nil hne)
      omega
    rw [hp, hq]
    rfl
  · right
    obtain ⟨w, rfl⟩ : ∃ w : Text, piece = w.map some := by
      clear h
      induction piece with
      | nil => exact ⟨[], rfl⟩
      | cons o piece ih =>
        obtain ⟨w, rfl⟩ := ih fun hin => hhole (List.mem_cons_of_mem _ hin)
        cases o with
        | none => exact absurd List.mem_cons_self hhole
        | some c => exact ⟨c :: w, rfl⟩
    rw [fill_some] at h
    rw [h]

theorem urlsMarked_of_not_opens {text : Text} (h : UrlsMarked u text)
    (hopens : ¬ Opens u (holes u text)) :
    UrlsMarked u ((assignmentPass u).run text) := by
  intro left user password right heq hc
  rw [(assignmentPass u).run_eq_apply] at heq
  obtain ⟨p⟩ := exists_pieces ((assignmentPass u).span_edits text) heq
  let userHoles := apply [none] p.userEdits (p.userPiece.map some)
  let passwordHoles := apply [none] p.passwordEdits (p.passwordPiece.map some)
  have huser : fill userHoles = user := (Edit.apply_eq_fill _ _ _).symm.trans p.user_eq
  have hpassword : fill passwordHoles = password :=
    (Edit.apply_eq_fill _ _ _).symm.trans p.password_eq
  by_cases hhole : none ∈ userHoles ++ passwordHoles
  · -- then the password is the marker, as no URL is opened
    by_contra hmark
    apply hopens
    have hsplit := p.holes_eq
    refine ⟨_, userHoles, passwordHoles, _, hsplit, ?_, ?_, ?_, ?_, hhole, ?_, ?_⟩
    · intro hnil
      rw [hnil] at huser
      exact hc.user_ne huser.symm
    · exact fun c hmem => hc.user_chars c (huser ▸ mem_fill_of_some hmem)
    · intro hnil
      rw [hnil] at hpassword
      exact hc.password_ne hpassword.symm
    · exact fun c hmem => hc.password_chars c (hpassword ▸ mem_fill_of_some hmem)
    · intro hnone
      rw [hnone] at hpassword
      exact hmark hpassword.symm
    · intro hsome
      rw [hsome, fill_some] at hpassword
      exact hmark hpassword.symm
  · -- nothing is cut, so the URL has been there before
    have hno : ∀ {es : List Edit} {piece : Text}, span es = piece.length →
        none ∉ apply [none] es (piece.map some) → apply redacted es piece = piece := by
      intro es piece hspan hnone
      refine Edit.apply_of_no_cut (fun n hn => ?_) hspan
      obtain ⟨fs₁, fs₂, rfl⟩ := List.append_of_mem hn
      obtain ⟨x, w, z, rfl, hx, rfl⟩ := Edit.exists_cut hspan
      apply hnone
      rw [List.map_append, Edit.apply_append _ _ _ _ _ (by rw [hx, List.length_map])]
      exact List.mem_append_right _ List.mem_cons_self
    have huser' := hno p.span_user fun hin => hhole (List.mem_append_left _ hin)
    have hpassword' := hno p.span_password fun hin => hhole (List.mem_append_right _ hin)
    have hcred : Credentials u p.userPiece p.passwordPiece := by
      rw [← huser', p.user_eq, ← hpassword', p.password_eq]
      exact hc
    rw [← h p.a p.userPiece p.passwordPiece p.after p.text_eq hcred, ← hpassword', p.password_eq]

theorem not_opens_of_urlsMarked {text : Text} (h : UrlsMarked u ((assignmentPass u).run text)) :
    ¬ Opens u (holes u text) := by
  rintro ⟨a, user, password, after, heq, huser, huserChars, hpassword, hchars, -, hhole, hmark⟩
  have hout : (assignmentPass u).run text =
      fill a ++ urlText (fill user) (fill password) (fill after) := by
    have hcolon : fill (some 58 :: (password ++ some 64 :: after)) =
        58 :: fill (password ++ some 64 :: after) := rfl
    have hat : fill (some 64 :: after) = 64 :: fill after := rfl
    rw [← fill_holes, heq, fill_append, fill_append, fill_append, hcolon,
      fill_append, hat, fill_some]
    rfl
  have hcred : Credentials u (fill user) (fill password) := by
    refine ⟨fill_ne_nil huser, fun c hc => ?_, fill_ne_nil hpassword, fun c hc => ?_⟩
    · rcases mem_fill hc with hc | hc
      · exact huserChars c hc
      · exact urlUser_redacted u c hc
    · rcases mem_fill hc with hc | hc
      · exact hchars c hc
      · exact urlPassword_redacted u c hc
  rcases fill_eq_redacted (h _ _ _ _ hout hcred) with hnone | hsome
  · exact hhole hnone
  · exact hmark hsome

/-! ## A password that is changed stays changed -/

/-- The last pattern does not bring back a password that the marker has replaced: a value goes on
over the marker and the `@` behind it. -/
theorem not_brought_back (hu : u.Tables) {a user password after z : Text}
    (hc : Credentials u user password) (hmark : password ≠ redacted)
    (hcount : ∀ c ∈ txt ":@", (a ++ urlText user redacted z).count c ≤
      (a ++ urlText user password after).count c) :
    (assignmentPass u).run (a ++ urlText user redacted z) ≠ a ++ urlText user password after := by
  intro hrun
  let before := a ++ (txt "://" ++ user)
  have htext : ∀ w x : Text, a ++ urlText user w x = before ++ ([58] ++ (w ++ ([64] ++ x))) := by
    intro w x
    simp [before, urlText]
  rw [htext, htext] at hrun hcount
  rw [(assignmentPass u).run_eq_apply] at hrun
  have hspan := (assignmentPass u).span_edits (before ++ ([58] ++ (redacted ++ ([64] ++ z))))
  obtain ⟨es₁, es₂, a₁, b₁, hes, htext₁, hspan₁, hspan₂, hleft, hright⟩ :=
    Edit.split_of_apply (apart_single (by decide : 58 ∈ txt "/:@")) hspan hrun
  -- no `:` is cut, so the one before the password is kept
  have hcolon : a₁ = before ∧ b₁ = redacted ++ ([64] ++ z) := by
    have hleft_le := Edit.count_apply_le (by decide : 58 ∉ redacted) hspan₁
    have hright_le := Edit.count_apply_le (by decide : 58 ∉ redacted) hspan₂
    have htotal := hcount 58 (by decide)
    rw [htext₁] at htotal
    rw [hleft] at hleft_le
    rw [hright] at hright_le
    have hsplit : before ++ 58 :: (redacted ++ ([64] ++ z)) = a₁ ++ 58 :: b₁ := htext₁
    have heq : before.count 58 = a₁.count 58 := by
      simp only [List.count_append] at htotal hright_le
      omega
    obtain ⟨rfl, rfl⟩ := append_cons_inj_of_count hsplit heq
    exact ⟨rfl, rfl⟩
  obtain ⟨rfl, rfl⟩ := hcolon
  obtain ⟨es₃, es₄, p, b₂, rfl, htext₂, hspan₃, hspan₄, hpassword, hafter⟩ :=
    Edit.split_of_apply (apart_single (by decide : 64 ∈ txt "/:@")) hspan₂ hright
  -- nor the `@` behind it
  obtain rfl : p = redacted := by
    have hleft_le := Edit.count_apply_le (by decide : 64 ∉ redacted) hspan₃
    have hright_le := Edit.count_apply_le (by decide : 64 ∉ redacted) hspan₄
    have htotal := hcount 64 (by decide)
    rw [hpassword] at hleft_le
    rw [hafter] at hright_le
    have hnone : password.count 64 = 0 := List.count_eq_zero.2 (not_mem_password hc (by decide))
    have hcounts := congrArg (List.count 64) htext₂
    have hsplit : redacted ++ 64 :: z = p ++ 64 :: b₂ := htext₂
    have hzero : p.count 64 = 0 := by
      simp only [List.count_append] at htotal hcounts
      omega
    have heq : redacted.count 64 = p.count 64 := by
      rw [hzero]
      decide
    exact (append_cons_inj_of_count hsplit heq).1.symm
  -- and between them no value ends
  apply hmark
  rw [← hpassword]
  refine Edit.apply_of_no_cut (fun n hn => ?_) hspan₃
  obtain ⟨fs₁, fs₂, rfl⟩ := List.append_of_mem hn
  obtain ⟨x, w, y, hpiece, hx, rfl⟩ := Edit.exists_cut hspan₃
  have hes' : (assignmentPass u).edits (before ++ ([58] ++ (redacted ++ ([64] ++ z)))) =
      (es₁ ++ ([keep] ++ fs₁)) ++ cut w.length :: (fs₂ ++ ([keep] ++ es₄)) := by
    rw [hes]
    simp
  have hspan' : span (es₁ ++ ([keep] ++ fs₁)) = (before ++ ([58] ++ x)).length := by
    have hkeep : span [keep] = 1 := rfl
    simp only [Edit.span_append, hspan₁, hkeep, hx, List.length_append, List.length_singleton]
  have htext' : before ++ ([58] ++ (redacted ++ ([64] ++ z))) =
      (before ++ ([58] ++ x)) ++ (w ++ (y ++ ([64] ++ z))) := by
    rw [hpiece]
    simp
  obtain ⟨-, hend⟩ := redactAssignment_cut hu hes' hspan' htext'
  cases y with
  | nil =>
    have hat : bareChar u 64 = true := by
      simp [bareChar, not_space_of_mem (u := u) (by decide : 64 ∈ txt "\"'=:,\x7d\\@[]/"), txt]
    rw [hend 64 rfl] at hat
    exact absurd hat Bool.false_ne_true
  | cons c y =>
    have hin := bareChar_redacted (u := u) c (by rw [hpiece]; simp)
    rw [hend c rfl] at hin
    exact absurd hin Bool.false_ne_true

/-- So a text that is the same after both had no other password. -/
theorem urlsMarked_of_again (hu : u.Tables) {text : Text}
    (h : (assignmentPass u).run ((urlPass u).run text) = text) : UrlsMarked u text := by
  by_cases hsame : (urlPass u).run text = text
  · rw [← hsame]
    exact urlsMarked_urlPass text
  · obtain ⟨a, user, password, after, z, hc, hmark, rfl, hout⟩ := exists_changed_from [] text hsame
    have hrun : (urlPass u).run (a ++ urlText user password after) =
        a ++ urlText user redacted z := hout
    have hcount : ∀ c ∈ txt ":@", (a ++ urlText user redacted z).count c ≤
        (a ++ urlText user password after).count c := by
      intro c hc
      have hout : c ∉ redacted := by
        have hkinds : ∀ c ∈ txt ":@", c ∉ redacted := by decide
        exact hkinds c hc
      rw [← hrun, (urlPass u).run_eq_apply]
      exact Edit.count_apply_le hout ((urlPass u).span_edits _)
    rw [hrun] at h
    exact absurd h (not_brought_back hu hc hmark hcount)

end url

/-! ## `scrub_text` twice -/

/-- The text that reaches the last pass. -/
def beforeAssignments (u : Unicode) (secrets : List Text) (text : Text) : Text :=
  (plainPasses u secrets).foldl (fun text p => p.run text) text

theorem scrubText_eq (u : Unicode) (secrets : List Text) (text : Text) :
    scrubText u secrets text = (assignmentPass u).run (beforeAssignments u secrets text) := by
  rw [scrubText, passes_eq, List.foldl_append, List.foldl_cons, List.foldl_nil, beforeAssignments]

/-- When all other kinds are hidden in the text, and then each assigned value in what is left is one
hole, a URL's user or password has one in it. -/
def OpensUrl (u : Unicode) (secrets : List Text) (text : Text) : Prop :=
  ∃ cs ss, Remains redacted (plainKinds u secrets) (cells text) cs ∧
    Reads (AssignedValue u) [] (chars cs) ss ∧ Opens u (holesOf ss)

theorem opensUrl_iff {u : Unicode} (hu : u.Tables) (secrets : List Text) (text : Text) :
    OpensUrl u secrets text ↔ Opens u (holes u (beforeAssignments u secrets text)) := by
  let cs := trace redacted ((plainPasses u secrets).map Pass.edits) (cells text)
  have hchars : chars cs = beforeAssignments u secrets text := by
    rw [chars_trace_passes, cells, Edit.chars_cellsFrom, beforeAssignments]
  have hhides : HidesThings (assignmentPass u).edits (AssignedValue u) :=
    (finds_assignedValue hu).hides
  have hholes : ∀ {ss}, Reads (AssignedValue u) [] (chars cs) ss →
      holes u (beforeAssignments u secrets text) = holesOf ss := by
    intro ss hss
    rw [← hchars, holes, hhides.edits_eq _ _ hss, hss.textOf_eq, Search.apply_editsOf]
  simp only [OpensUrl, remains_plainKinds hu]
  constructor
  · rintro ⟨_, ss, rfl, hss, hopens⟩
    rwa [hholes hss]
  · intro hopens
    obtain ⟨ss, hss⟩ := hhides.exists_reads (chars cs)
    exact ⟨cs, ss, rfl, hss, hholes hss ▸ hopens⟩

theorem urlsMarked_beforeAssignments {u : Unicode} (hu : u.Tables) (secrets : List Text)
    (text : Text) : UrlsMarked u (beforeAssignments u secrets text) := by
  rw [beforeAssignments, plainPasses, List.foldl_append]
  exact ((urlsMarked_urlPass _).run hu (wholeWord_awsKey hu)).run hu (wholeWord_githubToken hu)

/-- Of a scrubbed text only passwords of URLs are replaced. -/
theorem scrubText_of_scrubbed {u : Unicode} (hu : u.Tables) {secrets : List Text}
    (hsafe : ∀ v ∈ forms u secrets,
      plainSubstringLen ≤ v.length ∧ 91 ∉ v ∧ 93 ∉ v ∧ ¬ v <:+: redacted) (text : Text) :
    scrubText u secrets (scrubText u secrets text) =
      (assignmentPass u).run ((urlPass u).run (scrubText u secrets text)) := by
  let aws := awsKeyPattern u
  let github := githubTokenPattern u
  have haws : WholeWord u aws.regex := wholeWord_awsKey hu
  have hgithub : WholeWord u github.regex := wholeWord_githubToken hu
  have hgaws : Guarded u aws.regex := haws.guarded (carried_awsKey u)
  have hggithub : Guarded u github.regex := hgithub.guarded (carried_githubToken u)
  have hgauth := guarded_authorization hu
  have hwurl := walled_urlPass hu
  have hwassign := walled_assignmentPass hu
  let t₀ := ((exactPass u secrets).toList).foldl (fun text p => p.run text) text
  have hout : scrubText u secrets text = (assignmentPass u).run ((Pass.whole github).run
      ((Pass.whole aws).run
        ((urlPass u).run ((authorizationPass u).run (privateKeyPass.run t₀))))) := by
    rw [scrubText_eq, beforeAssignments, plainPasses, List.foldl_append]
    rfl
  -- what each pattern leaves, and each later one keeps
  have hkey : NoKey (scrubText u secrets text) := by
    rw [hout]
    exact (((((noKey_privateKeyPass t₀).run _).run _).run _).run _).run _
  have hauth : Settled (authorization u) (scrubText u secrets text) := by
    rw [hout]
    exact ((((settled_authorization hu _).run hwurl hgauth).run haws.walled hgauth).run
      hgithub.walled
      hgauth).run hwassign hgauth
  have hawsSettled : Settled aws.regex (scrubText u secrets text) := by
    rw [hout]
    exact ((settled_whole haws.walled hgaws _).run hgithub.walled hgaws).run hwassign hgaws
  have hgithubSettled : Settled github.regex (scrubText u secrets text) := by
    rw [hout]
    exact (settled_whole hgithub.walled hggithub _).run hwassign hggithub
  have hexact : ((exactPass u secrets).toList).foldl (fun text p => p.run text)
      (scrubText u secrets text) = scrubText u secrets text := by
    cases hp : exactPass u secrets with
    | none => rfl
    | some p =>
      refine run_of_settled (settled_exactPass hp fun v hv => ?_)
      obtain ⟨hlong, hopen, hclose, hpart⟩ := hsafe v hv
      exact ⟨hlong, not_infix_scrubText hv hlong (apart_redacted hopen hclose hpart) text⟩
  rw [scrubText_eq u secrets (scrubText u secrets text), beforeAssignments, plainPasses,
    List.foldl_append, hexact]
  simp only [List.foldl_cons, List.foldl_nil]
  have hkeyRun : privateKeyPass.run (scrubText u secrets text) = scrubText u secrets text :=
    run_of_settled hkey.settled
  have hauthRun : (authorizationPass u).run (scrubText u secrets text) = scrubText u secrets text :=
    run_of_settled hauth
  have hawsRun : (Pass.whole aws).run ((urlPass u).run (scrubText u secrets text)) =
      (urlPass u).run (scrubText u secrets text) :=
    run_of_settled (hawsSettled.run hwurl hgaws)
  have hgithubRun : (Pass.whole github).run ((urlPass u).run (scrubText u secrets text)) =
      (urlPass u).run (scrubText u secrets text) :=
    run_of_settled (hgithubSettled.run hwurl hggithub)
  rw [hkeyRun, hauthRun, hawsRun, hgithubRun]

theorem scrubText_again_iff (u : Unicode) (hu : u.Tables) (secrets : List Text)
    (hsafe : ∀ v ∈ forms u secrets,
      plainSubstringLen ≤ v.length ∧ 91 ∉ v ∧ 93 ∉ v ∧ ¬ v <:+: redacted) (text : Text) :
    scrubText u secrets (scrubText u secrets text) = scrubText u secrets text ↔
      ¬ OpensUrl u secrets text := by
  have hmarked := urlsMarked_beforeAssignments hu secrets text
  rw [scrubText_of_scrubbed hu hsafe, opensUrl_iff hu]
  constructor
  · intro h
    have := urlsMarked_of_again hu h
    rw [scrubText_eq] at this
    exact not_opens_of_urlsMarked this
  · intro hopens
    have hout : UrlsMarked u (scrubText u secrets text) := by
      rw [scrubText_eq]
      exact urlsMarked_of_not_opens hmarked hopens
    rw [run_of_urlsMarked hout, scrubText_eq, assignmentPass_again hu]

/-- Without `://` there is nothing to open. -/
theorem not_opens_of_no_url {u : Unicode} (hu : u.Tables) {secrets : List Text} {text : Text}
    (h : ¬ txt "://" <:+: text) : ¬ OpensUrl u secrets text := by
  rw [opensUrl_iff hu]
  rintro ⟨a, user, password, after, heq, -⟩
  have hscheme : Apart redacted (txt "://") :=
    apart_redacted (by decide) (by decide) (by decide)
  have hout : (assignmentPass u).run (beforeAssignments u secrets text) =
      fill a ++ (txt "://" ++ fill (user ++ some 58 :: (password ++ some 64 :: after))) := by
    rw [← fill_holes, heq, fill_append, fill_append, fill_some]
  have hin : txt "://" <:+: (assignmentPass u).run (beforeAssignments u secrets text) :=
    ⟨fill a, _, by rw [hout, List.append_assoc]⟩
  exact h (infix_of_infix_passes hscheme _ text ((assignmentPass u).infix_of_infix_run hscheme hin))

theorem scrubText_again_iff_token :
    scrubText ascii [txt "tokentokentoken"] (scrubText ascii [txt "tokentokentoken"]
        (txt "password: tokentokentoken, token: \"a b\"")) =
      scrubText ascii [txt "tokentokentoken"] (txt "password: tokentokentoken, token: \"a b\"") :=
  (scrubText_again_iff ascii tables_ascii [txt "tokentokentoken"] (by decide +kernel) _).2
    (not_opens_of_no_url tables_ascii (by decide))

/-- `://u:password="a/b"@h` is scrubbed to `://u:password="[REDACTED]"@h`, and that to
`://u:[REDACTED]@h`. -/
theorem scrubText_twice_differs :
    ¬ ∀ (u : Unicode) (secrets : List Text) (text : Text), u.Tables →
      (∀ v ∈ forms u secrets,
        plainSubstringLen ≤ v.length ∧ 91 ∉ v ∧ 93 ∉ v ∧ ¬ v <:+: redacted) →
      scrubText u secrets (scrubText u secrets text) = scrubText u secrets text := by
  intro h
  have honce : scrubText ascii [] (txt "://u:password=\"a/b\"@h") =
      txt "://u:password=\"[REDACTED]\"@h" := by decide +kernel
  have htwice : scrubText ascii [] (txt "://u:password=\"[REDACTED]\"@h") =
      txt "://u:[REDACTED]@h" := by decide +kernel
  have hsame := h ascii [] (txt "://u:password=\"a/b\"@h") tables_ascii (by decide +kernel)
  rw [honce, htwice] at hsame
  exact absurd hsame (by decide)

end AnsiDeck.Scrub
