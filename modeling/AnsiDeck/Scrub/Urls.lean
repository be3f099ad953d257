import AnsiDeck.Scrub.Settled

/-!
# Passwords of URLs

The pattern reads on from `://` in one way only (`Credentials`), and what its pass leaves has the
marker for every password.
-/

namespace AnsiDeck.Scrub

open Lib
open Lib.Edit (Apart apply cut keep span)
open Lib.Regex (Moves mem_run_plus_one)

/-! ## The credentials of a URL, read -/

/-- A user and a password as they stand between `://` and `@`. -/
structure Credentials (u : Unicode) (user password : Text) : Prop where
  user_ne : user ≠ []
  user_chars : ∀ c ∈ user, urlUser u c = true
  password_ne : password ≠ []
  password_chars : ∀ c ∈ password, urlPassword u c = true

/-- A URL from its `://` on. -/
def urlText (user password after : Text) : Text :=
  txt "://" ++ (user ++ 58 :: (password ++ 64 :: after))

def urlPre (u : Unicode) : Expr := chain [lits "://", .plus (.one (urlUser u)), oneOf ":"]

theorem urlCredentials_eq (u : Unicode) : urlCredentials u =
    .seq (.group .pre (urlPre u)) (.seq (.plus (.one (urlPassword u))) (.ahead (oneOf "@"))) := rfl

theorem not_urlUser_colon (u : Unicode) : urlUser u 58 = false := by
  simp [urlUser, txt]

theorem not_urlPassword_at (u : Unicode) : urlPassword u 64 = false := by
  simp [urlPassword, txt]

theorem mem_run_urlPre {u : Unicode} {s s' : Regex.Pos Nat Group} (h : s' ∈ (urlPre u).run s) :
    ∃ user, user ≠ [] ∧ (∀ c ∈ user, urlUser u c = true) ∧
      Moves s (txt "://" ++ (user ++ [58])) s' ∧ s'.groups = s.groups := by
  have hgroups := Regex.groups_run (urlPre u) rfl _ _ h
  obtain ⟨s₁, h₁, h⟩ := List.mem_flatMap.1 h
  obtain ⟨s₂, h₂, h₃⟩ := List.mem_flatMap.1 h
  obtain ⟨user, hne, hchars, hm₂, -⟩ := mem_run_plus_one.1 h₂
  obtain ⟨c, hc, hm₃, -⟩ := Regex.moves_one h₃
  obtain rfl : c = 58 := by
    have : c ∈ txt ":" := by simpa using hc
    exact List.mem_singleton.1 this
  exact ⟨user, hne, hchars, (Regex.moves_lit h₁).trans (hm₂.trans hm₃), hgroups⟩

theorem mem_run_ahead {s s' : Regex.Pos Nat Group}
    (h : s' ∈ (Regex.ahead (oneOf "@") : Expr).run s) :
    s' = s ∧ ∃ after, s.rest = 64 :: after := by
  obtain rfl := Regex.eq_of_mem_check h
  refine ⟨rfl, ?_⟩
  obtain ⟨before, rest, groups⟩ := s'
  cases rest with
  | nil => exact absurd h (by simp [Regex.run, oneOf, Regex.check])
  | cons c rest =>
    by_cases hc : c = 64
    · exact ⟨rest, by rw [hc]⟩
    · exact absurd h (by simp [Regex.run, oneOf, Regex.check, txt, hc])

theorem matchAt_of_url {u : Unicode} {user password : Text} (before after : Text)
    (h : Credentials u user password) :
    (urlCredentials u).matchAt before (urlText user password after) =
      some ⟨txt "://" ++ (user ++ [58]) ++ password, [(.pre, txt "://" ++ (user ++ [58]))]⟩ := by
  let pre := txt "://" ++ (user ++ [58])
  let start : Regex.Pos Nat Group := ⟨before, urlText user password after, []⟩
  let place : Regex.Pos Nat Group := ⟨pre.reverse ++ before, password ++ 64 :: after, []⟩
  have hmoves : Moves start pre place := ⟨by simp [start, place, pre, urlText], rfl⟩
  have hplace : place ∈ (urlPre u).run start := by
    have hlit : (lits "://" : Expr).run start =
        [⟨(txt "://").reverse ++ before, user ++ 58 :: (password ++ 64 :: after), []⟩] :=
      Regex.run_lit _ _ _ _
    apply List.mem_flatMap.2
    refine ⟨_, hlit ▸ List.mem_singleton_self _, ?_⟩
    apply List.mem_flatMap.2
    refine ⟨⟨user.reverse ++ ((txt "://").reverse ++ before), 58 :: (password ++ 64 :: after), []⟩,
      mem_run_plus_one.2 ⟨user, h.user_ne, h.user_chars, ⟨rfl, rfl⟩, rfl⟩, ?_⟩
    simp [chain, oneOf, Regex.run, txt, place, pre]
  have hgroup :
      (⟨pre.reverse ++ before, password ++ 64 :: after, [(.pre, pre)]⟩ : Regex.Pos Nat Group) ∈
      (Regex.group .pre (urlPre u)).run start := by
    apply List.mem_map.2
    refine ⟨place, hplace, ?_⟩
    rw [hmoves.upTo_eq]
  have huser : ((urlCredentials u).run start).head? =
      ((Regex.seq (.plus (.one (urlPassword u))) (.ahead (oneOf "@")) : Expr).run
        ⟨pre.reverse ++ before, password ++ 64 :: after, [(.pre, pre)]⟩).head? := by
    rw [urlCredentials_eq, Regex.run_seq]
    apply Regex.head_flatMap hgroup
    intro b hb _
    obtain ⟨m, hm, rfl⟩ := List.mem_map.1 hb
    obtain ⟨user₂, -, hchars, ⟨hrest, hbefore⟩, hgroups⟩ := mem_run_urlPre hm
    obtain ⟨before', rest', groups'⟩ := m
    simp only [start, urlText, List.append_assoc,
      List.append_cancel_left_eq] at hrest hbefore hgroups
    obtain ⟨rfl, htail⟩ := run_unique hrest h.user_chars hchars
      (by simpa using not_urlUser_colon u) (by simpa using not_urlUser_colon u)
    obtain ⟨-, rfl⟩ := List.cons.inj htail
    subst hbefore hgroups
    rw [hmoves.upTo_eq]
  have hpassword : ((Regex.seq (.plus (.one (urlPassword u))) (.ahead (oneOf "@")) : Expr).run
      ⟨pre.reverse ++ before, password ++ 64 :: after, [(.pre, pre)]⟩).head? =
        ((Regex.ahead (oneOf "@") : Expr).run
          ⟨password.reverse ++ (pre.reverse ++ before), 64 :: after, [(.pre, pre)]⟩).head? := by
    have hend : (⟨password.reverse ++ (pre.reverse ++ before), 64 :: after, [(.pre, pre)]⟩ :
        Regex.Pos Nat Group) ∈ (Regex.plus (.one (urlPassword u)) : Expr).run
          ⟨pre.reverse ++ before, password ++ 64 :: after, [(.pre, pre)]⟩ :=
      mem_run_plus_one.2 ⟨password, h.password_ne, h.password_chars, ⟨rfl, rfl⟩, rfl⟩
    rw [Regex.run_seq]
    apply Regex.head_flatMap hend
    intro m hm hne
    obtain ⟨password₂, -, hchars, ⟨hrest, hbefore⟩, hgroups⟩ := mem_run_plus_one.1 hm
    obtain ⟨s', hs'⟩ := List.exists_mem_of_ne_nil _ hne
    obtain ⟨-, after₂, hat⟩ := mem_run_ahead hs'
    obtain ⟨before', rest', groups'⟩ := m
    simp only at hrest hbefore hgroups hat
    subst hat
    obtain ⟨rfl, htail⟩ := run_unique hrest h.password_chars hchars
      (by simpa using not_urlPassword_at u) (by simpa using not_urlPassword_at u)
    rw [hbefore, hgroups, htail]
  have hahead : ((Regex.ahead (oneOf "@") : Expr).run
      ⟨password.reverse ++ (pre.reverse ++ before), 64 :: after, [(.pre, pre)]⟩).head? =
        some ⟨password.reverse ++ (pre.reverse ++ before), 64 :: after, [(.pre, pre)]⟩ := by
    simp [oneOf, Regex.run, Regex.check, txt]
  have hwhole : start.upTo ⟨password.reverse ++ (pre.reverse ++ before), 64 :: after,
      [(.pre, pre)]⟩ = pre ++ password :=
    Moves.upTo_eq ⟨by simp [start, pre, urlText], by simp [start]⟩
  rw [Regex.matchAt, huser, hpassword, hahead, Option.map_some, hwhole]

theorem url_of_matchAt {u : Unicode} {before rest : Text} {m : Found}
    (h : (urlCredentials u).matchAt before rest = some m) :
    ∃ user password after, Credentials u user password ∧ rest = urlText user password after := by
  obtain ⟨s', hs', -, -⟩ := Regex.matchAt_eq_some h
  obtain ⟨b, hb, hs'⟩ := List.mem_flatMap.1 hs'
  obtain ⟨m₀, hm₀, rfl⟩ := List.mem_map.1 hb
  obtain ⟨m₁, hm₁, hs'⟩ := List.mem_flatMap.1 hs'
  obtain ⟨user, huser, huserChars, hmoves, -⟩ := mem_run_urlPre hm₀
  obtain ⟨password, hpassword, hchars, hmoves₁, -⟩ := mem_run_plus_one.1 hm₁
  obtain ⟨-, after, hafter⟩ := mem_run_ahead hs'
  refine ⟨user, password, after, ⟨huser, huserChars, hpassword, hchars⟩, ?_⟩
  have hrest : rest = txt "://" ++ (user ++ [58]) ++ m₀.rest := hmoves.1
  have hrest₀ : m₀.rest = password ++ m₁.rest := hmoves₁.1
  rw [hrest, hrest₀, hafter]
  simp [urlText]

theorem walled_urlPass {u : Unicode} (hu : u.Tables) : Walled u (urlPass u) := by
  intro text es₁ es₂ a w b hes hspan htext
  rcases Lib.Pattern.edits_cases (urlPass u).spells hes hspan htext with
    ⟨hkeep, -⟩ | ⟨x, y, m, fs₁, fs₂, rfl, hm, hfs, hfspan, -⟩
  · exact absurd hkeep (by simp)
  obtain ⟨user, password, after, hc, hrest⟩ := url_of_matchAt hm
  have hmatch := matchAt_of_url x.reverse after hc
  rw [← hrest] at hmatch
  obtain rfl := Option.some.inj (hm.symm.trans hmatch)
  have hedits : editsKeepPrefix ⟨txt "://" ++ (user ++ [58]) ++ password,
      [(.pre, txt "://" ++ (user ++ [58]))]⟩ = fs₁ ++ cut w.length :: fs₂ := hfs
  simp only [editsKeepPrefix, Regex.Match.group, List.lookup_cons, beq_self_eq_true,
    Option.getD_some] at hedits
  obtain ⟨rfl, hcut, -⟩ := mem_replicate_append hedits (by simp) (by simp)
  rw [Edit.span_keeps] at hfspan
  have hlen : w.length = password.length := by
    simp only [Edit.cut.injEq, List.length_append] at hcut
    omega
  have hsplit : y ++ (w ++ b) = (txt "://" ++ (user ++ [58])) ++ (password ++ 64 :: after) := by
    rw [hrest]
    simp [urlText]
  obtain ⟨rfl, htail⟩ := List.append_inj hsplit hfspan.symm
  obtain ⟨rfl, rfl⟩ := List.append_inj htail hlen
  have hcolon : u.isWord 58 = false := isWord_sign hu (by decide)
  have hat : u.isWord 64 = false := isWord_sign hu (by decide)
  exact ⟨by simp [hcolon], by simp [hat]⟩

/-! ## Passwords of URLs -/

/-- No URL has a password but the marker. -/
def UrlsMarked (u : Unicode) (text : Text) : Prop :=
  ∀ a user password after, text = a ++ urlText user password after →
    Credentials u user password → password = redacted

theorem urlPassword_redacted (u : Unicode) : ∀ c ∈ redacted, urlPassword u c = true := by
  have hchars : ∀ c ∈ redacted, 33 ≤ c ∧ c ≤ 126 ∧ c ∉ txt "/@" := by decide
  intro c hc
  obtain ⟨hlow, hhigh, hmem⟩ := hchars c hc
  simp [urlPassword, u.space_printable c hlow hhigh, hmem]

theorem urlUser_redacted (u : Unicode) : ∀ c ∈ redacted, urlUser u c = true := by
  have hchars : ∀ c ∈ redacted, 33 ≤ c ∧ c ≤ 126 ∧ c ∉ txt "/:@" := by decide
  intro c hc
  obtain ⟨hlow, hhigh, hmem⟩ := hchars c hc
  simp [urlUser, u.space_printable c hlow hhigh, hmem]

section url

variable {u : Unicode}

theorem not_mem_user {user password : Text} (h : Credentials u user password) {c : Nat}
    (hc : c ∈ txt "/:@") : c ∉ user := by
  intro hmem
  have := h.user_chars c hmem
  simp [urlUser, hc] at this

theorem not_mem_password {user password : Text} (h : Credentials u user password) {c : Nat}
    (hc : c ∈ txt "/@") : c ∉ password := by
  intro hmem
  have := h.password_chars c hmem
  simp [urlPassword, hc] at this

theorem urlPass_none {before rest : Text} {c : Nat}
    (h : (urlCredentials u).matchAt before (c :: rest) = none) :
    (urlPass u).pattern.subFrom keepPrefix before (c :: rest) 0 =
      c :: (urlPass u).pattern.subFrom keepPrefix (c :: before) rest 0 :=
  Lib.Pattern.subFrom_none h

theorem urlPass_url {before user password after : Text} (h : Credentials u user password) :
    (urlPass u).pattern.subFrom keepPrefix before (urlText user password after) 0 =
      txt "://" ++ (user ++ 58 :: (redacted ++ (urlPass u).pattern.subFrom keepPrefix
        ((txt "://" ++ (user ++ [58]) ++ password).reverse ++ before) (64 :: after) 0)) := by
  let m : Found := ⟨txt "://" ++ (user ++ [58]) ++ password, [(.pre, txt "://" ++ (user ++ [58]))]⟩
  have htext : urlText user password after = m.text ++ 64 :: after := by
    simp [urlText, m]
  have hm : (urlPass u).pattern.regex.matchAt before (m.text ++ 64 :: after) = some m :=
    htext ▸ matchAt_of_url _ _ h
  have hrepl : keepPrefix m = txt "://" ++ (user ++ 58 :: redacted) := by
    simp [keepPrefix, m, Regex.Match.group]
  rw [htext, Lib.Pattern.subFrom_some hm, hrepl]
  simp [m]

theorem url_induction {motive : Text → Text → Prop} (nil : ∀ before, motive before [])
    (keep : ∀ before c rest, (urlCredentials u).matchAt before (c :: rest) = none →
      motive (c :: before) rest → motive before (c :: rest))
    (found : ∀ before user password after, Credentials u user password →
      motive ((txt "://" ++ (user ++ [58]) ++ password).reverse ++ before) (64 :: after) →
      motive before (urlText user password after)) :
    ∀ before rest, motive before rest := by
  apply (urlPass u).pattern.sub_induction nil keep
  intro before m rest hm ih
  obtain ⟨user, password, after, hc, heq⟩ := url_of_matchAt hm
  have hmatch := matchAt_of_url before after hc
  rw [← heq] at hmatch
  obtain rfl := Option.some.inj (hm.symm.trans hmatch)
  have hsplit : txt "://" ++ (user ++ [58]) ++ password ++ rest =
      txt "://" ++ (user ++ [58]) ++ password ++ 64 :: after := by
    rw [heq]
    simp [urlText]
  obtain rfl := List.append_cancel_left hsplit
  rw [heq]
  exact found before user password after hc ih

theorem head_urlPass (before rest : Text) :
    ((urlPass u).pattern.subFrom keepPrefix before rest 0).head? = rest.head? := by
  induction before, rest using url_induction (u := u) with
  | nil before => rfl
  | keep before c rest h _ =>
    rw [urlPass_none h]
    rfl
  | found before user password after h _ =>
    rw [urlPass_url h]
    rfl

/-- Up to an `@`, a text in which no `:` has a slash behind it is left as it is. -/
theorem split_password {w : Text} : ∀ {before rest out : Text},
    ¬ txt ":/" <:+: w ++ [64] →
    (urlPass u).pattern.subFrom keepPrefix before rest 0 = w ++ 64 :: out →
      ∃ rest', rest = w ++ 64 :: rest' := by
  induction w with
  | nil =>
    intro before rest out _ h
    have hhead : rest.head? = some 64 := by rw [← head_urlPass before rest, h]; rfl
    exact List.head?_eq_some_iff.1 hhead
  | cons c w ih =>
    intro before rest out hslash h
    have hhead : rest.head? = some c := by rw [← head_urlPass before rest, h]; rfl
    obtain ⟨r, rfl⟩ := List.head?_eq_some_iff.1 hhead
    cases hm : (urlCredentials u).matchAt before (c :: r) with
    | none =>
      rw [urlPass_none hm] at h
      have hslash' : ¬ txt ":/" <:+: w ++ [64] :=
        fun hin => hslash (hin.trans (List.suffix_cons c _).isInfix)
      obtain ⟨rest', rfl⟩ := ih hslash' (List.cons.inj h).2
      exact ⟨rest', rfl⟩
    | some m =>
      -- a URL would go on with a slash
      obtain ⟨user, password, after, hc, heq⟩ := url_of_matchAt hm
      rw [heq, urlPass_url hc] at h
      have hlong : (txt ":/").length ≤ (c :: w ++ [64]).length := by simp [txt]
      have hbegin : txt ":/" <+: c :: w ++ 64 :: out := ⟨47 :: _, h⟩
      have hpre : txt ":/" <+: c :: w ++ [64] :=
        List.prefix_of_prefix_length_le hbegin ⟨out, by simp⟩ hlong
      exact absurd hpre.isInfix hslash

/-- Within a URL a slash only stands at its beginning. -/
theorem not_infix_slash {v : Text} (hv : 47 ∉ v) : ¬ txt ":/" <:+: 47 :: 47 :: v := by
  rintro ⟨x, y, h⟩
  have hx : x ++ 58 :: 47 :: y = 47 :: 47 :: v := by simpa [txt] using h
  cases x with
  | nil => exact absurd (List.cons.inj hx).1 (by decide)
  | cons c x =>
    obtain ⟨-, hx⟩ := List.cons.inj hx
    cases x with
    | nil => exact absurd (List.cons.inj hx).1 (by decide)
    | cons d x =>
      obtain ⟨-, hx⟩ := List.cons.inj hx
      exact hv (hx ▸ by simp)

theorem urlsMarked_urlPass_from (before rest : Text) :
    UrlsMarked u ((urlPass u).pattern.subFrom keepPrefix before rest 0) := by
  induction before, rest using url_induction (u := u) with
  | nil before =>
    intro a user password after h _
    have hnil : [] = a ++ urlText user password after := h
    exact absurd (congrArg List.length hnil) (by simp [urlText, txt])
  | keep before c rest h ih =>
    rw [urlPass_none h]
    intro a user password after heq hc
    cases a with
    | cons d a => exact ih a user password after (List.cons.inj heq).2 hc
    | nil =>
      -- the URL was there before, at a place where none is found
      let w := 47 :: 47 :: (user ++ 58 :: password)
      have hout : (urlPass u).pattern.subFrom keepPrefix (c :: before) rest 0 =
          w ++ 64 :: after := by
        have htail : (urlPass u).pattern.subFrom keepPrefix (c :: before) rest 0 =
            47 :: 47 :: (user ++ 58 :: (password ++ 64 :: after)) := (List.cons.inj heq).2
        rw [htail]
        simp [w]
      have hcolon : c = 58 := (List.cons.inj heq).1
      have hslash : ¬ txt ":/" <:+: w ++ [64] := by
        have huser : 47 ∉ user := not_mem_user hc (by decide)
        have hpassword : 47 ∉ password := not_mem_password hc (by decide)
        have hv : 47 ∉ user ++ 58 :: password ++ [64] := by simp [huser, hpassword]
        exact not_infix_slash hv
      obtain ⟨rest', rfl⟩ := split_password hslash hout
      have hurl : c :: (w ++ 64 :: rest') = urlText user password rest' := by
        rw [hcolon]
        simp [w, urlText, txt]
      rw [hurl, matchAt_of_url _ _ hc] at h
      exact absurd h (by simp)
  | found before user password after hc ih =>
    rw [urlPass_url hc]
    let before' := (txt "://" ++ (user ++ [58]) ++ password).reverse ++ before
    obtain ⟨z, hz⟩ := List.head?_eq_some_iff.1 (head_urlPass (u := u) before' (64 :: after))
    let w := txt "://" ++ (user ++ 58 :: redacted)
    intro a user₂ password₂ after₂ heq hc₂
    have heq : w ++ 64 :: z = a ++ urlText user₂ password₂ after₂ := by
      rw [← heq, ← hz]
      simp [w, before']
    rcases List.append_eq_append_iff.1 heq with ⟨a', rfl, htail⟩ | ⟨t, ht, htail⟩
    · exact ih a' user₂ password₂ after₂ (hz.trans htail) hc₂
    · cases a with
      | nil =>
        obtain rfl : w = t := ht
        have hsplit : user ++ 58 :: (redacted ++ 64 :: z) =
            user₂ ++ 58 :: (password₂ ++ 64 :: after₂) := by
          have hcancel : txt "://" ++ (user₂ ++ 58 :: (password₂ ++ 64 :: after₂)) =
              txt "://" ++ (user ++ 58 :: (redacted ++ 64 :: z)) := by
            rw [← List.nil_append (txt "://" ++ (user₂ ++ 58 :: (password₂ ++ 64 :: after₂)))]
            exact heq.symm.trans (by simp [w])
          exact (List.append_cancel_left hcancel).symm
        obtain ⟨-, hrest⟩ := run_unique hsplit hc.user_chars hc₂.user_chars
          (by simpa using not_urlUser_colon u) (by simpa using not_urlUser_colon u)
        obtain ⟨rfl, -⟩ := run_unique (List.cons.inj hrest).2 (urlPassword_redacted u)
          hc₂.password_chars (by simpa using not_urlPassword_at u)
          (by simpa using not_urlPassword_at u)
        rfl
      | cons d a =>
        cases t with
        | nil =>
          have hhead : urlText user₂ password₂ after₂ = 64 :: z := htail
          exact absurd (List.cons.inj hhead).1 (by decide)
        | cons e t =>
          -- no other URL begins before the marker ends
          have huser : 47 ∉ user := not_mem_user hc (by decide)
          have hv : 47 ∉ user ++ 58 :: redacted ++ [64] := by
            have hmark : 47 ∉ redacted := by decide
            simp [huser, hmark]
          have hin : txt ":/" <:+: 47 :: 47 :: (user ++ 58 :: redacted ++ [64]) := by
            have hlong : (txt ":/").length ≤ (e :: t ++ [64]).length := by simp [txt]
            have hpre : txt ":/" <+: e :: t ++ [64] :=
              List.prefix_of_prefix_length_le ⟨47 :: _, htail⟩ ⟨z, by simp⟩ hlong
            have hsuffix : e :: t ++ [64] <:+ 47 :: 47 :: (user ++ 58 :: redacted ++ [64]) := by
              refine ⟨a, ?_⟩
              have hw : 47 :: 47 :: (user ++ 58 :: redacted) = a ++ e :: t := (List.cons.inj ht).2
              calc a ++ (e :: t ++ [64]) = (a ++ e :: t) ++ [64] := by simp
                _ = 47 :: 47 :: (user ++ 58 :: redacted ++ [64]) := by rw [← hw]; simp
            exact hpre.isInfix.trans hsuffix.isInfix
          exact absurd hin (not_infix_slash hv)

theorem urlsMarked_urlPass (text : Text) : UrlsMarked u ((urlPass u).run text) :=
  urlsMarked_urlPass_from [] text

/-- The first password that the pass changes. -/
theorem exists_changed_from (before rest : Text) :
    (urlPass u).pattern.subFrom keepPrefix before rest 0 ≠ rest →
      ∃ a user password after z, Credentials u user password ∧ password ≠ redacted ∧
        rest = a ++ urlText user password after ∧
        (urlPass u).pattern.subFrom keepPrefix before rest 0 = a ++ urlText user redacted z := by
  induction before, rest using url_induction (u := u) with
  | nil before => exact fun h => absurd rfl h
  | keep before c rest h ih =>
    rw [urlPass_none h]
    intro hne
    obtain ⟨a, user, password, after, z, hc, hmark, rfl, hout⟩ :=
      ih fun heq => hne (by rw [heq])
    exact ⟨c :: a, user, password, after, z, hc, hmark, rfl, by rw [hout]; rfl⟩
  | found before user password after hc ih =>
    rw [urlPass_url hc]
    intro hne
    let before' := (txt "://" ++ (user ++ [58]) ++ password).reverse ++ before
    by_cases hmark : password = redacted
    · subst hmark
      have hrest : (urlPass u).pattern.subFrom keepPrefix before' (64 :: after) 0 ≠
          64 :: after := by
        intro heq
        apply hne
        rw [heq]
        rfl
      obtain ⟨a, user₂, password₂, after₂, z, hc₂, hmark₂, heq, hout⟩ := ih hrest
      refine ⟨txt "://" ++ (user ++ 58 :: (redacted ++ a)), user₂, password₂, after₂, z, hc₂,
        hmark₂, ?_, ?_⟩
      · rw [urlText, heq]
        simp
      · rw [hout]
        simp
    · obtain ⟨z, hz⟩ := List.head?_eq_some_iff.1 (head_urlPass (u := u) before' (64 :: after))
      refine ⟨[], user, password, after, z, hc, hmark, rfl, ?_⟩
      rw [hz]
      rfl

theorem run_of_urlsMarked {text : Text} (h : UrlsMarked u text) : (urlPass u).run text = text := by
  by_contra hne
  obtain ⟨a, user, password, after, z, hc, hmark, heq, -⟩ := exists_changed_from [] text hne
  exact hmark (h a user password after heq hc)

end url

end AnsiDeck.Scrub
