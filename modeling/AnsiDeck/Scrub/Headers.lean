import AnsiDeck.Scrub.Settled

/-!
# The authorization header

What its pattern finds: the word, the sign and a scheme (`AuthPre`), then a token as far as it goes.
The pass keeps the first part, and no header with a token can begin within it.
-/

namespace AnsiDeck.Scrub

open Lib
open Lib.Edit (Apart apply cut keep span)
open Lib.Regex (Carried Moves SameEdge mem_run_many_one mem_run_plus_one)

/-! ## Reading it -/

def authPre (u : Unicode) : Expr :=
  chain [edge u, anyCase u "authorization", edge u, .many (space u), oneOf "=:", .many (space u),
    .alt (anyCase u "bearer") (anyCase u "basic"), .plus (space u)]

theorem authorization_eq (u : Unicode) : authorization u =
    .seq (.group .pre (authPre u)) (.plus (.one isTokenChar)) := rfl

/-- The header up to its token, by the characters of its parts: which words they are makes no
difference here. -/
structure AuthPre (u : Unicode) (key space : Text) (sign : Nat) (space' scheme space'' : Text) :
    Prop where
  key_long : 10 < key.length
  key_head : ∀ c ∈ key.head?, isLetter c = true
  key_chars : ∀ c ∈ key, u.isAlnum c = true
  space : ∀ c ∈ space, u.isSpace c = true
  sign : sign ∈ txt "=:"
  space' : ∀ c ∈ space', u.isSpace c = true
  scheme_ne : scheme ≠ []
  scheme_chars : ∀ c ∈ scheme, u.isAlnum c = true
  space_ne : space'' ≠ []
  space'' : ∀ c ∈ space'', u.isSpace c = true

def authText (key space : Text) (sign : Nat) (space' scheme space'' : Text) : Text :=
  key ++ (space ++ sign :: (space' ++ (scheme ++ space'')))

theorem alnum_of_sameLetter {u : Unicode} (hu : u.Tables) {w v : Text}
    (h : List.Forall₂ (fun c x => u.sameLetter c x = true) w v) (hv : ∀ x ∈ v, isLetter x = true) :
    ∀ c ∈ w, u.isAlnum c = true := by
  induction h with
  | nil => simp
  | cons hc _ ih =>
    obtain ⟨hx, hv⟩ := List.forall_mem_cons.1 hv
    exact List.forall_mem_cons.2 ⟨hu.same_letter _ _ hx hc, ih hv⟩

theorem mem_run_authPre {u : Unicode} (hu : u.Tables) {s s' : Regex.Pos Nat Group}
    (h : s' ∈ (authPre u).run s) :
    ∃ key space sign space' scheme space'', AuthPre u key space sign space' scheme space'' ∧
      Moves s (authText key space sign space' scheme space'') s' := by
  obtain ⟨s₁, h₁, h⟩ := List.mem_flatMap.1 h
  obtain ⟨s₂, h₂, h⟩ := List.mem_flatMap.1 h
  obtain ⟨s₃, h₃, h⟩ := List.mem_flatMap.1 h
  obtain ⟨s₄, h₄, h⟩ := List.mem_flatMap.1 h
  obtain ⟨s₅, h₅, h⟩ := List.mem_flatMap.1 h
  obtain ⟨s₆, h₆, h⟩ := List.mem_flatMap.1 h
  obtain ⟨s₇, h₇, h₈⟩ := List.mem_flatMap.1 h
  obtain ⟨rfl, -⟩ := mem_run_edge h₁
  obtain ⟨key, hm₂, hkey⟩ := Regex.moves_litBy h₂
  obtain ⟨rfl, -⟩ := mem_run_edge h₃
  obtain ⟨space, hspace, hm₄, -⟩ := mem_run_many_one.1 h₄
  obtain ⟨sign, hsign, hm₅, -⟩ := Regex.moves_one h₅
  obtain ⟨space', hspace', hm₆, -⟩ := mem_run_many_one.1 h₆
  obtain ⟨space'', hne, hspace'', hm₈, -⟩ := mem_run_plus_one.1 h₈
  obtain ⟨scheme, hm₇, hscheme, hschemeChars⟩ : ∃ scheme, Moves s₆ scheme s₇ ∧ scheme ≠ [] ∧
      ∀ c ∈ scheme, u.isAlnum c = true := by
    have hword : ∀ v : String, txt v ≠ [] → (∀ x ∈ txt v, isLetter x = true) →
        s₇ ∈ (anyCase u v : Expr).run s₆ → ∃ scheme, Moves s₆ scheme s₇ ∧ scheme ≠ [] ∧
          ∀ c ∈ scheme, u.isAlnum c = true := by
      intro v hne hletters h
      obtain ⟨w, hm, hw⟩ := Regex.moves_litBy h
      refine ⟨w, hm, ?_, alnum_of_sameLetter hu hw hletters⟩
      rintro rfl
      exact hne (List.forall₂_nil_left_iff.1 hw)
    rcases List.mem_append.1 h₇ with h₇ | h₇
    · exact hword "bearer" (by decide) (by decide) h₇
    · exact hword "basic" (by decide) (by decide) h₇
  have hlen : key.length = 13 := hkey.length_eq
  have hhead : ∀ c ∈ key.head?, isLetter c = true := by
    intro c hc
    obtain ⟨w, rfl⟩ := List.head?_eq_some_iff.1 hc
    have hfirst := (List.forall₂_cons.1 hkey).1
    exact hu.same_a c hfirst
  refine ⟨key, space, sign, space', scheme, space'', ?_,
    hm₂.trans (hm₄.trans (hm₅.trans (hm₆.trans (hm₇.trans hm₈))))⟩
  exact ⟨by omega, hhead, alnum_of_sameLetter hu hkey (by decide), hspace, by simpa using hsign,
    hspace', hscheme, hschemeChars, hne, hspace''⟩

theorem carried_authPre (u : Unicode) : Carried u.isWord (authPre u) := by
  have hword : ∀ s : String, Carried u.isWord (anyCase u s : Expr) :=
    fun s => Regex.carried_litBy _ _ _
  exact ⟨rfl, hword _, rfl, trivial, trivial, trivial, ⟨hword _, hword _⟩, trivial, trivial⟩

theorem not_bracket_of_alnum {u : Unicode} {w : Text} (h : ∀ c ∈ w, u.isAlnum c = true) :
    91 ∉ w ∧ 93 ∉ w := by
  constructor
  · intro hmem
    have := h 91 hmem
    rw [u.alnum_punctuation 91 (by decide)] at this
    exact absurd this Bool.false_ne_true
  · intro hmem
    have := h 93 hmem
    rw [u.alnum_punctuation 93 (by decide)] at this
    exact absurd this Bool.false_ne_true

theorem not_bracket_of_space {u : Unicode} {w : Text} (h : ∀ c ∈ w, u.isSpace c = true) :
    91 ∉ w ∧ 93 ∉ w := by
  constructor
  · intro hmem
    have := h 91 hmem
    rw [u.space_printable 91 (by decide) (by decide)] at this
    exact absurd this Bool.false_ne_true
  · intro hmem
    have := h 93 hmem
    rw [u.space_printable 93 (by decide) (by decide)] at this
    exact absurd this Bool.false_ne_true

section auth

variable {u : Unicode} {key space space' scheme space'' : Text} {sign : Nat}

theorem AuthPre.apart (h : AuthPre u key space sign space' scheme space'') {c : Nat}
    (hc : isTokenChar c = true) :
    Apart redacted (authText key space sign space' scheme space'' ++ [c]) := by
  have hsign : 91 ≠ sign ∧ 93 ≠ sign := by
    have := h.sign
    revert this
    simp [txt]
    omega
  have htoken : 91 ≠ c ∧ 93 ≠ c := by
    constructor
    · rintro rfl
      exact absurd hc (by decide)
    · rintro rfl
      exact absurd hc (by decide)
  have hkey := not_bracket_of_alnum h.key_chars
  have hspace := not_bracket_of_space h.space
  have hspace' := not_bracket_of_space h.space'
  have hscheme := not_bracket_of_alnum h.scheme_chars
  have hspace'' := not_bracket_of_space h.space''
  apply apart_of_long
  · have := h.key_long
    simp only [authText, List.length_append]
    omega
  · simp [authText, hkey, hspace, hsign, hspace', hscheme, hspace'', htoken]
  · simp [authText, hkey, hspace, hsign, hspace', hscheme, hspace'', htoken]

theorem AuthPre.head (h : AuthPre u key space sign space' scheme space'') (t : Text) :
    ∃ c w, key = c :: w ∧ isLetter c = true ∧
      (authText key space sign space' scheme space'' ++ t).head? = some c := by
  cases key with
  | nil => exact absurd h.key_long (by simp)
  | cons c w => exact ⟨c, w, rfl, h.key_head c rfl, rfl⟩

end auth

/-- A header with the first character of its token is one wherever it stands as a word. -/
theorem exists_authText {u : Unicode} (hu : u.Tables) {before rest : Text}
    (h : (authorization u).run ⟨before, rest, []⟩ ≠ []) :
    ∃ key space sign space' scheme space'' c t, AuthPre u key space sign space' scheme space'' ∧
      isTokenChar c = true ∧ rest = authText key space sign space' scheme space'' ++ [c] ++ t ∧
      ∀ before' t', SameEdge u.isWord before before' →
        (authorization u).run
          ⟨before', authText key space sign space' scheme space'' ++ [c] ++ t', []⟩ ≠ [] := by
  obtain ⟨s', hs'⟩ := List.exists_mem_of_ne_nil _ h
  obtain ⟨b, hb, hs'⟩ := List.mem_flatMap.1 hs'
  obtain ⟨m, hm, rfl⟩ := List.mem_map.1 hb
  obtain ⟨key, space, sign, space', scheme, space'', hauth, hmoves⟩ := mem_run_authPre hu hm
  have hgroups : m.groups = [] :=
    Regex.groups_run _ (Regex.plain_of_carried (carried_authPre u)) _ _ hm
  obtain ⟨w, hne, hw, hmoves', -⟩ := mem_run_plus_one.1 hs'
  obtain ⟨c, w, rfl⟩ := List.exists_cons_of_ne_nil hne
  have hc := hw c List.mem_cons_self
  obtain ⟨before₁, rest₁, groups₁⟩ := m
  have hrest₁ : rest₁ = c :: (w ++ s'.rest) := hmoves'.1
  obtain ⟨hrest, hbefore⟩ := hmoves
  simp only at hgroups hrest hbefore
  subst hrest₁ hgroups hbefore
  refine ⟨key, space, sign, space', scheme, space'', c, w ++ s'.rest, hauth, hc,
    by rw [hrest]; simp, fun before' t' hedge => ?_⟩
  rw [hrest] at hm
  have hedge' : SameEdge u.isWord (c :: (w ++ s'.rest)) (c :: t') := rfl
  have hplace := Regex.carries_run _ (carried_authPre u) hedge hedge' hm
  have hassoc : authText key space sign space' scheme space'' ++ [c] ++ t' =
      authText key space sign space' scheme space'' ++ c :: t' := by simp
  rw [hassoc]
  have htoken : ∀ (before : Text) (groups : List (Group × Text)),
      ⟨c :: before, t', groups⟩ ∈ (Regex.plus (.one isTokenChar)).run ⟨before, c :: t', groups⟩ :=
    fun before groups =>
      mem_run_plus_one.2 ⟨[c], List.cons_ne_nil _ _, by simpa using hc, ⟨rfl, rfl⟩, rfl⟩
  exact List.ne_nil_of_mem (List.mem_flatMap.2 ⟨_, List.mem_map.2 ⟨_, hplace, rfl⟩, htoken _ _⟩)

theorem guarded_authorization {u : Unicode} (hu : u.Tables) : Guarded u (authorization u) := by
  intro before rest h
  obtain ⟨key, space, sign, space', scheme, space'', c, t, hauth, hc, hrest, hagain⟩ :=
    exists_authText hu h
  obtain ⟨d, w, -, hd, hhead⟩ := hauth.head [c]
  refine ⟨_, t, hrest, hauth.apart hc, ?_, fun before' t' hedge _ => hagain before' t' hedge⟩
  rw [hhead]
  exact isWord_alnum hu (.inl hd)

/-- A header does not go on within another: behind the scheme of that one is only white space. -/
theorem not_infix_authText {u : Unicode} (hu : u.Tables)
    {key space space' scheme space'' key₂ space₂ space₂' scheme₂ space₂'' : Text}
    {sign sign₂ c : Nat}
    (h : AuthPre u key space sign space' scheme space'')
    (h₂ : AuthPre u key₂ space₂ sign₂ space₂' scheme₂ space₂'') (hc : isTokenChar c = true) :
    ¬ authText key space sign space' scheme space'' ++ [c] <:+:
      authText key₂ space₂ sign₂ space₂' scheme₂ space₂'' := by
  rintro ⟨x, y, heq⟩
  have hsignEq : ∀ {e : Nat}, e ∈ txt "=:" → e = 61 ∨ e = 58 := by
    intro e he
    revert he
    simp [txt]
  have hsignAlnum : ∀ {e : Nat}, e ∈ txt "=:" → u.isAlnum e = false := by
    intro e he
    rcases hsignEq he with rfl | rfl
    · exact hu.alnum_ascii 61 (by decide)
    · exact hu.alnum_ascii 58 (by decide)
  have hsignSpace : ∀ {e : Nat}, e ∈ txt "=:" → u.isSpace e = false := by
    intro e he
    rcases hsignEq he with rfl | rfl
    · exact not_space_of_mem (by decide)
    · exact not_space_of_mem (by decide)
  have halnumSpace : ∀ {d : Nat}, u.isAlnum d = true → u.isSpace d = false := by
    intro d hd
    apply Bool.eq_false_iff.2
    intro hs
    rw [hu.space_alnum d hs] at hd
    exact absurd hd Bool.false_ne_true
  have hcSpace : u.isSpace c = false := by
    apply u.space_printable
    · simp only [isTokenChar, isLetter, isUpper, isLower, isDigit, Bool.or_eq_true,
        Bool.and_eq_true, decide_eq_true_eq] at hc
      rcases hc with (hc | hc) | hc
      · omega
      · omega
      · have hlow : ∀ c ∈ txt "._~+/=-", 33 ≤ c := by decide
        exact hlow c hc
    · simp only [isTokenChar, isLetter, isUpper, isLower, isDigit, Bool.or_eq_true,
        Bool.and_eq_true, decide_eq_true_eq] at hc
      rcases hc with (hc | hc) | hc
      · omega
      · omega
      · have hhigh : ∀ c ∈ txt "._~+/=-", c ≤ 126 := by decide
        exact hhigh c hc
  -- the sign of the inner header is the sign of the outer one, as no other character is a sign
  have hsplit : (x ++ (key ++ space)) ++ sign :: (space' ++ (scheme ++ (space'' ++ c :: y))) =
      (key₂ ++ space₂) ++ sign₂ :: (space₂' ++ (scheme₂ ++ space₂'')) := by
    simpa [authText] using heq
  have hother : ∀ d, u.isAlnum d = true ∨ u.isSpace d = true → d ∉ txt "=:" := by
    intro d hd hmem
    rcases hd with hd | hd
    · rw [hsignAlnum hmem] at hd
      exact absurd hd Bool.false_ne_true
    · rw [hsignSpace hmem] at hd
      exact absurd hd Bool.false_ne_true
  have hbefore : sign ∉ key₂ ++ space₂ := by
    intro hmem
    rcases List.mem_append.1 hmem with hmem | hmem
    · exact hother sign (.inl (h₂.key_chars sign hmem)) h.sign
    · exact hother sign (.inr (h₂.space sign hmem)) h.sign
  have hafter : sign ∉ space₂' ++ (scheme₂ ++ space₂'') := by
    intro hmem
    simp only [List.mem_append] at hmem
    rcases hmem with hmem | hmem | hmem
    · exact hother sign (.inr (h₂.space' sign hmem)) h.sign
    · exact hother sign (.inl (h₂.scheme_chars sign hmem)) h.sign
    · exact hother sign (.inr (h₂.space'' sign hmem)) h.sign
  have htail : space' ++ (scheme ++ (space'' ++ c :: y)) = space₂' ++ (scheme₂ ++ space₂'') := by
    rcases List.append_eq_append_iff.1 hsplit with ⟨v, hv, hrest⟩ | ⟨v, hv, hrest⟩
    · cases v with
      | nil => exact (List.cons.inj hrest).2
      | cons e v =>
        obtain ⟨rfl, -⟩ := List.cons.inj hrest
        exact absurd (by rw [hv]; simp) hbefore
    · cases v with
      | nil => exact (List.cons.inj hrest).2.symm
      | cons e v =>
        obtain ⟨-, hrest⟩ := List.cons.inj hrest
        exact absurd (by rw [hrest]; simp) hafter
  -- then white space, the scheme, white space: the token is in what is white space
  have hschemeHead : ∀ {v t : Text}, v ≠ [] → (∀ d ∈ v, u.isAlnum d = true) →
      ∀ d ∈ (v ++ t).head?, u.isSpace d = false := by
    intro v t hne hv d hd
    obtain ⟨e, v, rfl⟩ := List.exists_cons_of_ne_nil hne
    obtain rfl : e = d := by simpa using hd
    exact halnumSpace (hv e List.mem_cons_self)
  obtain ⟨-, hschemes⟩ := run_unique htail h.space' h₂.space'
    (hschemeHead h.scheme_ne h.scheme_chars)
    (hschemeHead h₂.scheme_ne h₂.scheme_chars)
  have hspaceHead : ∀ {v t : Text}, v ≠ [] → (∀ d ∈ v, u.isSpace d = true) →
      ∀ d ∈ (v ++ t).head?, u.isAlnum d = false := by
    intro v t hne hv d hd
    obtain ⟨e, v, rfl⟩ := List.exists_cons_of_ne_nil hne
    obtain rfl : e = d := by simpa using hd
    exact hu.space_alnum e (hv e List.mem_cons_self)
  obtain ⟨-, hspaces⟩ := run_unique hschemes h.scheme_chars h₂.scheme_chars
    (hspaceHead h.space_ne h.space'') (by simpa using hspaceHead (t := []) h₂.space_ne h₂.space'')
  have hin := h₂.space'' c (by rw [← hspaces]; simp)
  rw [hcSpace] at hin
  exact absurd hin Bool.false_ne_true

/-- What a match is: a header and the whole of its token. -/
theorem auth_of_matchAt {u : Unicode} (hu : u.Tables) {before rest : Text} {m : Found}
    (h : (authorization u).matchAt before rest = some m) :
    ∃ key space sign space' scheme space'' token after,
      AuthPre u key space sign space' scheme space'' ∧
      rest = authText key space sign space' scheme space'' ++ (token ++ after) ∧ token ≠ [] ∧
      (∀ c ∈ after.head?, isTokenChar c = false) ∧
      m = ⟨authText key space sign space' scheme space'' ++ token,
        [(.pre, authText key space sign space' scheme space'')]⟩ := by
  obtain ⟨s', hs', rfl⟩ := Option.map_eq_some_iff.1 h
  rw [authorization_eq, Regex.run_seq, List.head?_flatMap] at hs'
  obtain ⟨b, hb, htoken⟩ := List.exists_of_findSome?_eq_some hs'
  obtain ⟨m, hm, rfl⟩ := List.mem_map.1 hb
  obtain ⟨token, hne, -, hmoves, hend, hgroups⟩ := Regex.exists_of_head_plus_one htoken
  obtain ⟨key, space, sign, space', scheme, space'', hauth, hpre⟩ := mem_run_authPre hu hm
  have hplain : m.groups = [] :=
    Regex.groups_run _ (Regex.plain_of_carried (carried_authPre u)) _ _ hm
  refine ⟨key, space, sign, space', scheme, space'', token, s'.rest, hauth, ?_, hne, hend, ?_⟩
  · have hrest : rest = authText key space sign space' scheme space'' ++ m.rest := hpre.1
    have hrest' : m.rest = token ++ s'.rest := hmoves.1
    rw [hrest, hrest']
  · have htoken : Moves m token s' := hmoves
    have hwhole :
        Moves ⟨before, rest, []⟩ (authText key space sign space' scheme space'' ++ token) s' :=
      hpre.trans htoken
    rw [hwhole.upTo_eq, hgroups, hpre.upTo_eq, hplain]

/-- Behind what the pass cuts, no token goes on. -/
theorem authorization_cut {u : Unicode} (hu : u.Tables) {text a w b : Text} {es₁ es₂ : List Edit}
    (hes : (authorizationPass u).edits text = es₁ ++ cut w.length :: es₂)
    (hspan : span es₁ = a.length) (htext : text = a ++ (w ++ b)) :
    ∀ c ∈ b.head?, isTokenChar c = false := by
  rcases Lib.Pattern.edits_cases (authorizationPass u).spells hes hspan htext with
    ⟨hkeep, -⟩ | ⟨x, y, m, fs₁, fs₂, rfl, hm, hfs, hfspan, -⟩
  · exact absurd hkeep (by simp)
  obtain ⟨key, space, sign, space', scheme, space'', token, after, -, hrest, -, hend, rfl⟩ :=
    auth_of_matchAt hu hm
  have hedits : editsKeepPrefix ⟨authText key space sign space' scheme space'' ++ token,
      [(.pre, authText key space sign space' scheme space'')]⟩ = fs₁ ++ cut w.length :: fs₂ := hfs
  simp only [editsKeepPrefix, Regex.Match.group, List.lookup_cons, beq_self_eq_true,
    Option.getD_some] at hedits
  obtain ⟨rfl, hcut, -⟩ := mem_replicate_append hedits (by simp) (by simp)
  rw [Edit.span_keeps] at hfspan
  have hlen : w.length = token.length := by
    simp only [Edit.cut.injEq, List.length_append] at hcut
    omega
  obtain ⟨rfl, htail⟩ := List.append_inj hrest hfspan.symm
  obtain ⟨rfl, rfl⟩ := List.append_inj htail hlen
  exact hend

/-- A run of kept characters ends where something is cut. -/
theorem keeps_le_of_prefix {j n : Nat} {es es' : List Edit} : ∀ {k : Nat},
    List.replicate j keep ++ cut n :: es <+: List.replicate k keep ++ es' → k ≤ j := by
  induction j with
  | zero =>
    intro k h
    cases k with
    | zero => exact Nat.le_refl 0
    | succ k =>
      obtain ⟨heq, -⟩ := List.cons_prefix_cons.1 h
      exact absurd heq (by simp)
  | succ j ih =>
    intro k h
    cases k with
    | zero => exact Nat.zero_le _
    | succ k =>
      rw [List.replicate_succ, List.replicate_succ, List.cons_append, List.cons_append] at h
      exact Nat.succ_le_succ (ih (List.cons_prefix_cons.1 h).2)

theorem keep_of_replicate {j n : Nat} {fs₁ fs₂ : List Edit}
    (h : List.replicate j keep ++ [cut n] = fs₁ ++ keep :: fs₂) :
    ∃ k, span fs₁ + k + 1 = j ∧ fs₂ = List.replicate k keep ++ [cut n] := by
  rcases List.append_eq_append_iff.1 h with ⟨gs, rfl, hgs⟩ | ⟨gs, hgs, hrest⟩
  · cases gs with
    | nil => exact absurd (List.cons.inj hgs).1 (by simp)
    | cons g gs => exact absurd (List.cons.inj hgs).2 (by simp)
  · cases gs with
    | nil => exact absurd (List.cons.inj hrest).1 (by simp)
    | cons g gs =>
      obtain ⟨rfl, hfs₂⟩ := List.cons.inj hrest
      obtain ⟨hlen, hfs₁, hgs'⟩ := List.replicate_eq_append_iff.1 hgs
      refine ⟨gs.length, ?_, ?_⟩
      · rw [hfs₁, Edit.span_keeps, ← hlen]
        simp [Nat.add_assoc]
      · rw [List.length_cons, List.replicate_succ] at hgs'
        rw [← (List.cons.inj hgs').2]
        exact hfs₂

/-- The pass leaves no header with a token. -/
theorem settled_authorization {u : Unicode} (hu : u.Tables) (text : Text) :
    Settled (authorization u) ((authorizationPass u).run text) := by
  intro left rest hout
  by_contra hne
  obtain ⟨key, space, sign, space', scheme, space'', c, right, hauth, hc, rfl, hagain⟩ :=
    exists_authText hu hne
  let w := authText key space sign space' scheme space'' ++ [c]
  have hapart : Apart redacted w := hauth.apart hc
  rw [(authorizationPass u).run_eq_apply] at hout
  obtain ⟨es₁, es₂, a, b, hes, htext, hspan, -, hleft, -⟩ :=
    Edit.split_of_apply hapart ((authorizationPass u).span_edits text) hout
  -- no token goes on where the header begins, so the character before it was there before
  have hedge : SameEdge u.isWord left.reverse a.reverse := by
    refine sameEdge_before (fun es₁ es₂ x y z hes hspan htext heq => ?_) hapart.ne_nil hes htext
      hspan hleft
    obtain ⟨d, v, -, hd, hhead⟩ := hauth.head [c]
    have htoken := authorization_cut hu hes hspan htext d (heq.trans hhead)
    rw [isTokenChar, hd] at htoken
    exact absurd htoken (by simp)
  have hfound := hagain a.reverse b hedge
  obtain ⟨d, v, hw⟩ := List.exists_cons_of_ne_nil hapart.ne_nil
  rw [hw, List.length_cons, List.replicate_succ, List.cons_append] at hes
  rcases Lib.Pattern.edits_cases (authorizationPass u).spells hes hspan htext with
    ⟨-, hnone⟩ | ⟨x, y, m, fs₁, fs₂, rfl, hm, hfs, hfspan, hprefix⟩
  · exact hfound (Regex.matchAt_eq_none.1 hnone)
  -- within another match the whole word is kept, so it is in what is kept of that match
  obtain ⟨key₂, space₂, sign₂, space₂', scheme₂, space₂'', token, after, hauth₂,
      hrest, -, -, rfl⟩ :=
    auth_of_matchAt hu hm
  have hedits : editsKeepPrefix ⟨authText key₂ space₂ sign₂ space₂' scheme₂ space₂'' ++ token,
      [(.pre, authText key₂ space₂ sign₂ space₂' scheme₂ space₂'')]⟩ = fs₁ ++ keep :: fs₂ := hfs
  simp only [editsKeepPrefix, Regex.Match.group, List.lookup_cons, beq_self_eq_true,
    Option.getD_some] at hedits
  obtain ⟨k, hk, rfl⟩ := keep_of_replicate hedits
  have hv := keeps_le_of_prefix hprefix
  have hlen : (y ++ w).length ≤ (authText key₂ space₂ sign₂ space₂' scheme₂ space₂'').length := by
    rw [List.length_append, hw, List.length_cons, ← hk, hfspan]
    omega
  have hpre : y ++ w <+: authText key₂ space₂ sign₂ space₂' scheme₂ space₂'' :=
    List.prefix_of_prefix_length_le ⟨b, by rw [List.append_assoc, hrest]⟩ ⟨_, rfl⟩ hlen
  exact not_infix_authText hu hauth hauth₂ hc ((List.suffix_append y w).isInfix.trans hpre.isInfix)

end AnsiDeck.Scrub
