import AnsiDeck.Lib.RegexLocal
import AnsiDeck.Scrub.Patterns

/-!
# The assignment pattern, read

What the last of the patterns finds, without its backtracking: a secret-looking name between two
places where no name goes on, then the sign, then a value up to its end (`Reading`).
-/

namespace AnsiDeck.Scrub

open Lib
open Lib.Regex (Moves Within mem_run_many_one mem_run_plus_one)

/-- What the tables say of the characters the patterns name: on ASCII they are as written, white
space is no letter, and only letters have other cases. -/
structure Unicode.Tables (u : Unicode) : Prop where
  alnum_ascii : ∀ c, c < 128 → u.isAlnum c = (isLetter c || isDigit c)
  space_alnum : ∀ c, u.isSpace c = true → u.isAlnum c = false
  same_refl : ∀ c, u.sameLetter c c = true
  same_letter : ∀ c x, isLetter x = true → u.sameLetter c x = true → u.isAlnum c = true
  same_a : ∀ c, u.sameLetter c 97 = true → isLetter c = true
  same_other : ∀ c x, x < 128 → isLetter x = false → u.sameLetter c x = true → c = x

theorem tables_ascii : ascii.Tables where
  alnum_ascii := fun c _ => rfl
  space_alnum := by
    intro c hc
    simp only [ascii, isUpper, isLower, isDigit, Bool.or_eq_true, Bool.and_eq_true,
      decide_eq_true_eq] at hc
    simp only [ascii, isUpper, isLower, isDigit, Bool.or_eq_false_iff, Bool.and_eq_false_iff,
      decide_eq_false_iff_not]
    omega
  same_refl := by
    intro c
    simp [ascii]
  same_letter := by
    intro c x hx h
    simp only [ascii, isLetter, isUpper, isLower, isDigit, Bool.or_eq_true, Bool.and_eq_true,
      decide_eq_true_eq] at hx h ⊢
    omega
  same_a := by
    intro c h
    simp only [ascii, isLetter, isUpper, isLower, Bool.or_eq_true, Bool.and_eq_true,
      decide_eq_true_eq] at h ⊢
    omega
  same_other := by
    intro c x _ hx h
    simp only [ascii, isLetter, isUpper, isLower, Bool.or_eq_true, Bool.and_eq_true,
      Bool.or_eq_false_iff, Bool.and_eq_false_iff, decide_eq_true_eq, decide_eq_false_iff_not]
      at hx h
    omega

/-! ## Characters of names -/

section chars

variable {u : Unicode}

theorem nameChar_of_mem {c x : Nat} (hx : x ∈ alnumChars ++ txt "_-")
    (h : u.sameLetter c x = true) : nameChar u c = true :=
  List.any_eq_true.2 ⟨x, hx, h⟩

theorem nameChar_of_alnum {c : Nat} (h : alnumAnyCase u c = true) : nameChar u c = true := by
  obtain ⟨x, hx, hc⟩ := List.any_eq_true.1 h
  exact nameChar_of_mem (List.mem_append_left _ hx) hc

theorem nameChar_cases (hu : u.Tables) {c : Nat} (h : nameChar u c = true) :
    u.isAlnum c = true ∨ c = 95 ∨ c = 45 := by
  obtain ⟨x, hx, hc⟩ := List.any_eq_true.1 h
  have hkinds : ∀ x ∈ alnumChars ++ txt "_-",
      x < 128 ∧ (isLetter x = true ∨ isLetter x = false ∧
        (isDigit x = true ∨ x = 95 ∨ x = 45)) := by
    decide
  obtain ⟨hlt, hletter | ⟨hother, hx⟩⟩ := hkinds x hx
  · exact .inl (hu.same_letter c x hletter hc)
  · obtain rfl := hu.same_other c x hlt hother hc
    rcases hx with hdigit | hsign
    · left
      rw [hu.alnum_ascii c hlt, hdigit, Bool.or_true]
    · exact .inr hsign

/-- The characters around names, signs and values. -/
theorem not_nameChar (hu : u.Tables) {c : Nat} (h : c ∈ txt "\"'=:,\x7d\\@[]/ ") :
    nameChar u c = false := by
  have hkinds : ∀ c ∈ txt "\"'=:,\x7d\\@[]/ ",
      c < 128 ∧ (isLetter c || isDigit c) = false ∧ c ≠ 95 ∧ c ≠ 45 := by
    decide
  obtain ⟨hlt, hother, hund, hhyphen⟩ := hkinds c h
  apply Bool.eq_false_iff.2
  intro hname
  rcases nameChar_cases hu hname with halnum | rfl | rfl
  · rw [hu.alnum_ascii c hlt, hother] at halnum
    exact absurd halnum Bool.false_ne_true
  · exact hund rfl
  · exact hhyphen rfl

theorem not_nameChar_space (hu : u.Tables) {c : Nat} (h : u.isSpace c = true) :
    nameChar u c = false := by
  apply Bool.eq_false_iff.2
  intro hname
  rcases nameChar_cases hu hname with halnum | rfl | rfl
  · rw [hu.space_alnum c h] at halnum
    exact absurd halnum Bool.false_ne_true
  · rw [u.space_printable 95 (by decide) (by decide)] at h
    exact absurd h Bool.false_ne_true
  · rw [u.space_printable 45 (by decide) (by decide)] at h
    exact absurd h Bool.false_ne_true

theorem bareChar_of_nameChar (hu : u.Tables) {c : Nat} (h : nameChar u c = true) :
    bareChar u c = true := by
  have hspace : u.isSpace c = false := by
    apply Bool.eq_false_iff.2
    intro hs
    rw [not_nameChar_space hu hs] at h
    exact absurd h Bool.false_ne_true
  have hmem : c ∉ txt "\"',\x7d\\" := by
    intro hc
    rw [not_nameChar hu (by revert hc; simp [txt]; omega)] at h
    exact absurd h Bool.false_ne_true
  simp [bareChar, hspace, hmem]

theorem not_space_of_mem {c : Nat} (h : c ∈ txt "\"'=:,\x7d\\@[]/") : u.isSpace c = false := by
  have hrange : ∀ c ∈ txt "\"'=:,\x7d\\@[]/", 33 ≤ c ∧ c ≤ 126 := by decide
  obtain ⟨hlow, hhigh⟩ := hrange c h
  exact u.space_printable c hlow hhigh

end chars

/-! ## Names -/

/-- `secretName` behind its first condition. -/
def nameBody (u : Unicode) : Expr :=
  chain [.many (.one (nameChar u)),
    .alts (anyCase u "password") [anyCase u "passwd", anyCase u "secret", anyCase u "token",
      chain [anyCase u "api", .opt (oneOf "_-"), anyCase u "key"]],
    .many (chain [oneOf "_-", .notAhead (locationPart u), .plus (.one (alnumAnyCase u))]),
    .notAhead (.one (nameChar u))]

theorem secretName_eq (u : Unicode) :
    secretName u = .seq (.notBehind (nameChar u)) (nameBody u) := rfl

theorem within_anyCase {u : Unicode} {s : String} (h : txt s ⊆ alnumChars ++ txt "_-") :
    Within (nameChar u) (anyCase u s : Expr) := by
  apply Regex.within_litBy
  intro x hx c hc
  exact nameChar_of_mem (h hx) hc

theorem within_nameBody {u : Unicode} (hu : u.Tables) : Within (nameChar u) (nameBody u) := by
  have hsep : Within (nameChar u) (oneOf "_-" : Expr) := by
    intro c hc
    have hmem : c ∈ txt "_-" := by simpa using hc
    exact nameChar_of_mem (List.mem_append_right _ hmem) (hu.same_refl c)
  have halnum : Within (nameChar u) (Regex.one (alnumAnyCase u) : Expr) :=
    fun c hc => nameChar_of_alnum hc
  have hname : Within (nameChar u) (Regex.one (nameChar u) : Expr) := fun c hc => hc
  have hapi : Within (nameChar u)
      (chain [anyCase u "api", .opt (oneOf "_-"), anyCase u "key"] : Expr) :=
    ⟨within_anyCase (by decide), ⟨hsep, trivial⟩, within_anyCase (by decide)⟩
  have hwords : Within (nameChar u) (Regex.alts (anyCase u "password") [anyCase u "passwd",
      anyCase u "secret", anyCase u "token",
      chain [anyCase u "api", .opt (oneOf "_-"), anyCase u "key"]] : Expr) := by
    refine ⟨within_anyCase (by decide), within_anyCase (by decide), within_anyCase (by decide),
      within_anyCase (by decide), hapi⟩
  have hlocation : Within (nameChar u) (locationPart u) := by
    refine ⟨⟨within_anyCase (by decide), within_anyCase (by decide), within_anyCase (by decide),
      within_anyCase (by decide), within_anyCase (by decide)⟩, halnum⟩
  exact ⟨hname, hwords, ⟨hsep, hlocation, halnum, halnum⟩, hname⟩

/-- A run of name characters that is a secret-looking name as a whole. -/
structure SecretName (u : Unicode) (name : Text) : Prop where
  chars : ∀ c ∈ name, nameChar u c = true
  found : (nameBody u).run ⟨[], name, []⟩ ≠ []

theorem SecretName.ne_nil {u : Unicode} {name : Text} (h : SecretName u name) : name ≠ [] := by
  rintro rfl
  obtain ⟨s', hs'⟩ := List.exists_mem_of_ne_nil _ h.found
  have := Regex.minLen_le _ _ _ hs'
  simp [nameBody, chain, Regex.minLen, Regex.alts, anyCase, Regex.litBy, txt] at this

/-- The last condition of a name. -/
theorem rest_of_nameBody {u : Unicode} {name : Text} (hname : ∀ c ∈ name, nameChar u c = true)
    {s' : Regex.Pos Nat Group} (h : s' ∈ (nameBody u).run ⟨[], name, []⟩) :
    s' = ⟨name.reverse, [], []⟩ := by
  obtain ⟨w, hrest, hbefore⟩ := Regex.moves_run _ _ _ h
  have hgroups := Regex.groups_run (nameBody u) rfl _ _ h
  obtain ⟨s₁, -, h⟩ := List.mem_flatMap.1 h
  obtain ⟨s₂, -, h⟩ := List.mem_flatMap.1 h
  obtain ⟨s₃, -, h⟩ := List.mem_flatMap.1 h
  have hlast : s' ∈ (Regex.notAhead (.one (nameChar u)) : Expr).run s₃ := h
  obtain rfl := Regex.eq_of_mem_check hlast
  obtain ⟨before, rest, groups⟩ := s'
  simp only at hrest hbefore hgroups
  have hnil : rest = [] := by
    cases rest with
    | nil => rfl
    | cons c rest =>
      have hc : nameChar u c = true := hname c (by rw [hrest]; simp)
      exact absurd hlast (by simp [Regex.run, Regex.check, hc])
  subst hnil hgroups
  rw [List.append_nil] at hrest hbefore
  rw [hbefore, hrest]

theorem mem_run_secretName {u : Unicode} (hu : u.Tables) {before name after : Text}
    {groups : List (Group × Text)} (hname : ∀ c ∈ name, nameChar u c = true)
    (hafter : ∀ c ∈ after.head?, nameChar u c = false) {s' : Regex.Pos Nat Group} :
    s' ∈ (secretName u).run ⟨before, name ++ after, groups⟩ ↔
      before.head?.any (nameChar u) = false ∧ SecretName u name ∧
        s' = ⟨name.reverse ++ before, after, groups⟩ := by
  have hbody : (nameBody u).run (Regex.Pos.into before after groups ⟨[], name, []⟩) =
      ((nameBody u).run ⟨[], name, []⟩).map (Regex.Pos.into before after groups) :=
    Regex.run_into hafter (nameBody u) (within_nameBody hu) ⟨[], name, []⟩ hname
  have hplace : (⟨before, name ++ after, groups⟩ : Regex.Pos Nat Group) =
      Regex.Pos.into before after groups ⟨[], name, []⟩ := rfl
  have hrun : s' ∈ (secretName u).run ⟨before, name ++ after, groups⟩ ↔
      before.head?.any (nameChar u) = false ∧
        s' ∈ (nameBody u).run ⟨before, name ++ after, groups⟩ := by
    rw [secretName_eq, Regex.run]
    cases h : before.head?.any (nameChar u) <;> simp [Regex.run, Regex.check, h]
  rw [hrun, hplace, hbody]
  refine and_congr_right fun _ => ?_
  constructor
  · intro h
    obtain ⟨s, hs, rfl⟩ := List.mem_map.1 h
    refine ⟨⟨hname, List.ne_nil_of_mem hs⟩, ?_⟩
    rw [rest_of_nameBody hname hs]
    rfl
  · rintro ⟨hsecret, rfl⟩
    obtain ⟨s, hs⟩ := List.exists_mem_of_ne_nil _ hsecret.found
    apply List.mem_map.2
    refine ⟨s, hs, ?_⟩
    rw [rest_of_nameBody hname hs]
    rfl

/-! ## Signs and values -/

/-- What stands between a name and its value: a quote that ends the name, the sign, white space. -/
structure Gap (u : Unicode) (quote space : Text) (sign : Nat) (space' : Text) : Prop where
  quote : quote = [] ∨ ∃ c ∈ txt "\"'", quote = [c]
  space : ∀ c ∈ space, u.isSpace c = true
  sign : sign ∈ txt "=:"
  space' : ∀ c ∈ space', u.isSpace c = true

/-- The value that the text begins with, as far as it goes when `after` is behind it. -/
inductive IsValue (u : Unicode) : Text → Text → Prop
  | quoted (q : Nat) (body after : Text) : q ∈ txt "\"'" → q ∉ body → 92 ∉ body →
      IsValue u (q :: (body ++ [q])) after
  | bare (value after : Text) : value ≠ [] → (∀ c ∈ value, bareChar u c = true) →
      (∀ c ∈ after.head?, bareChar u c = false) → IsValue u value after

def gapRegex (u : Unicode) : Expr :=
  chain [.opt (oneOf "\"'"), .many (space u), oneOf "=:", .many (space u)]

def gapText (quote space : Text) (sign : Nat) (space' : Text) : Text :=
  quote ++ (space ++ sign :: space')

theorem mem_run_gapRegex {u : Unicode} {s s' : Regex.Pos Nat Group} :
    s' ∈ (gapRegex u).run s ↔ ∃ quote space sign space', Gap u quote space sign space' ∧
      Moves s (gapText quote space sign space') s' ∧ s'.groups = s.groups := by
  constructor
  · intro h
    obtain ⟨s₁, h₁, h⟩ := List.mem_flatMap.1 h
    obtain ⟨s₂, h₂, h⟩ := List.mem_flatMap.1 h
    obtain ⟨s₃, h₃, h₄⟩ := List.mem_flatMap.1 h
    obtain ⟨w₂, hw₂, hm₂, hg₂⟩ := mem_run_many_one.1 h₂
    obtain ⟨e, he, hm₃, hg₃⟩ := Regex.moves_one h₃
    obtain ⟨w₄, hw₄, hm₄, hg₄⟩ := mem_run_many_one.1 h₄
    have hsign : e ∈ txt "=:" := by simpa using he
    rcases List.mem_append.1 h₁ with h₁ | h₁
    · obtain ⟨q, hq, hm₁, hg₁⟩ := Regex.moves_one h₁
      have hquote : q ∈ txt "\"'" := by simpa using hq
      exact ⟨[q], w₂, e, w₄, ⟨.inr ⟨q, hquote, rfl⟩, hw₂, hsign, hw₄⟩,
        hm₁.trans (hm₂.trans (hm₃.trans hm₄)), by rw [hg₄, hg₃, hg₂, hg₁]⟩
    · obtain rfl := List.mem_singleton.1 h₁
      exact ⟨[], w₂, e, w₄, ⟨.inl rfl, hw₂, hsign, hw₄⟩, hm₂.trans (hm₃.trans hm₄),
        by rw [hg₄, hg₃, hg₂]⟩
  · rintro ⟨quote, space, sign, space', ⟨hquote, hspace, hsign, hspace'⟩, ⟨hrest, hbefore⟩, hgroups⟩
    obtain ⟨before, rest, groups⟩ := s
    simp only at hrest hbefore hgroups
    subst hrest
    let tail := space ++ sign :: (space' ++ s'.rest)
    have hfirst : (⟨quote.reverse ++ before, tail, groups⟩ : Regex.Pos Nat Group) ∈
        (Regex.opt (oneOf "\"'") : Expr).run ⟨before, quote ++ tail, groups⟩ := by
      rcases hquote with rfl | ⟨q, hq, rfl⟩
      · exact List.mem_append_right _ (List.mem_singleton_self _)
      · apply List.mem_append_left
        simp [oneOf, Regex.run, hq]
    have hassoc : gapText quote space sign space' ++ s'.rest = quote ++ tail := by
      simp [gapText, tail]
    rw [hassoc]
    apply List.mem_flatMap.2
    refine ⟨_, hfirst, ?_⟩
    apply List.mem_flatMap.2
    refine ⟨⟨space.reverse ++ (quote.reverse ++ before), sign :: (space' ++ s'.rest), groups⟩,
      mem_run_many_one.2 ⟨space, hspace, ⟨rfl, rfl⟩, rfl⟩, ?_⟩
    apply List.mem_flatMap.2
    refine ⟨⟨sign :: (space.reverse ++ (quote.reverse ++ before)), space' ++ s'.rest, groups⟩,
      by simp [oneOf, Regex.run, hsign], ?_⟩
    apply mem_run_many_one.2
    exact ⟨space', hspace', ⟨rfl, by simp [hbefore, gapText]⟩, hgroups⟩

theorem quoted_eq (q : Nat) : quoted q =
    .seq (.one (· = q)) (.seq (.many (.one fun c => c ≠ q && c ≠ 92)) (.one (· = q))) := rfl

theorem run_quoted_nil {q : Nat} {s : Regex.Pos Nat Group} (h : ∀ c ∈ s.rest.head?, c ≠ q) :
    (quoted q).run s = [] := by
  have hfirst : (Regex.one (· = q) : Expr).run s = [] := by
    obtain ⟨before, rest, groups⟩ := s
    cases rest with
    | nil => rfl
    | cons c rest => simp [Regex.run, h c rfl]
  rw [quoted_eq, Regex.run_seq, hfirst, List.flatMap_nil]

theorem mem_run_quoted {q : Nat} {s s' : Regex.Pos Nat Group} (h : s' ∈ (quoted q).run s) :
    ∃ body, q ∉ body ∧ 92 ∉ body ∧ Moves s (q :: (body ++ [q])) s' := by
  obtain ⟨s₁, h₁, h⟩ := List.mem_flatMap.1 h
  obtain ⟨s₂, h₂, h₃⟩ := List.mem_flatMap.1 h
  obtain ⟨a, ha, hm₁, -⟩ := Regex.moves_one h₁
  obtain ⟨body, hbody, hm₂, -⟩ := mem_run_many_one.1 h₂
  obtain ⟨b, hb, hm₃, -⟩ := Regex.moves_one h₃
  obtain rfl : a = q := by simpa using ha
  obtain rfl : b = a := by simpa using hb
  refine ⟨body, fun hmem => ?_, fun hmem => ?_, hm₁.trans (hm₂.trans hm₃)⟩
  · exact absurd (hbody b hmem) (by simp)
  · exact absurd (hbody 92 hmem) (by simp)

theorem head_run_quoted {q : Nat} {body : Text} (before after : Text)
    (groups : List (Group × Text)) (hq : q ∉ body) (hslash : 92 ∉ body) :
    ((quoted q).run ⟨before, q :: (body ++ [q]) ++ after, groups⟩).head? =
      some ⟨(q :: (body ++ [q])).reverse ++ before, after, groups⟩ := by
  have hfirst : (Regex.one (· = q) : Expr).run ⟨before, q :: (body ++ [q]) ++ after, groups⟩ =
      [⟨q :: before, body ++ q :: after, groups⟩] := by
    simp [Regex.run]
  have hbody : ∀ c ∈ body, (decide (c ≠ q) && decide (c ≠ 92)) = true := by
    intro c hc
    have hcq : c ≠ q := fun h => hq (h ▸ hc)
    have hcs : c ≠ 92 := fun h => hslash (h ▸ hc)
    simp [hcq, hcs]
  -- the loop can only stop before the closing quote
  have hloop : (⟨body.reverse ++ q :: before, q :: after, groups⟩ : Regex.Pos Nat Group) ∈
      (Regex.many (.one fun c => c ≠ q && c ≠ 92) : Expr).run
        ⟨q :: before, body ++ q :: after, groups⟩ :=
    mem_run_many_one.2 ⟨body, hbody, ⟨rfl, rfl⟩, rfl⟩
  have hrun : ((quoted q).run ⟨before, q :: (body ++ [q]) ++ after, groups⟩).head? =
      ((Regex.one (· = q) : Expr).run ⟨body.reverse ++ q :: before, q :: after, groups⟩).head? := by
    rw [quoted_eq, Regex.run_seq, hfirst, List.flatMap_cons, List.flatMap_nil, List.append_nil,
      Regex.run_seq]
    apply Regex.head_flatMap hloop
    intro m hm hne
    obtain ⟨w, hw, ⟨hrest, hbefore⟩, hgroups⟩ := mem_run_many_one.1 hm
    obtain ⟨before', rest', groups'⟩ := m
    obtain ⟨s', hs'⟩ := List.exists_mem_of_ne_nil _ hne
    obtain ⟨d, hd, hmove, -⟩ := Regex.moves_one hs'
    obtain rfl : d = q := by simpa using hd
    have hsplit : body ++ d :: after = w ++ d :: s'.rest := by
      have := hmove.1
      simp only at this hrest
      rw [hrest, this]
      rfl
    have hwd : d ∉ w := fun hmem => absurd (hw d hmem) (by simp)
    obtain ⟨rfl, -⟩ := append_cons_inj_of_count hsplit
      (by rw [List.count_eq_zero.2 hq, List.count_eq_zero.2 hwd])
    simp only at hrest hbefore hgroups
    rw [hbefore, hgroups, List.append_cancel_left hrest.symm]
  rw [hrun]
  simp [Regex.run]

theorem assignedValue_eq (u : Unicode) : assignedValue u =
    .alt (quoted 34) (.alt (quoted 39) (.plus (.one (bareChar u)))) := rfl

theorem quote_cases {q : Nat} (h : q ∈ txt "\"'") : q = 34 ∨ q = 39 := by
  revert h
  simp [txt]

theorem not_bareChar_quote {u : Unicode} {q : Nat} (h : q ∈ txt "\"'") : bareChar u q = false := by
  rcases quote_cases h with rfl | rfl
  · simp [bareChar, txt]
  · simp [bareChar, txt]

theorem not_bareChar_backslash (u : Unicode) : bareChar u 92 = false := by
  simp [bareChar, txt]

theorem head_run_assignedValue {u : Unicode} {value after : Text} (before : Text)
    (groups : List (Group × Text)) (h : IsValue u value after) :
    ((assignedValue u).run ⟨before, value ++ after, groups⟩).head? =
      some ⟨value.reverse ++ before, after, groups⟩ := by
  rw [assignedValue_eq, Regex.run, Regex.run]
  cases h with
  | quoted q body after hq hbody hslash =>
    have hfound := head_run_quoted before after groups hbody hslash
    rcases quote_cases hq with rfl | rfl
    · rw [List.head?_append, hfound]
      rfl
    · rw [run_quoted_nil (by simp), List.nil_append, List.head?_append, hfound]
      rfl
  | bare value after hne hvalue hafter =>
    obtain ⟨c, rest, rfl⟩ := List.exists_cons_of_ne_nil hne
    have hquote : ∀ q ∈ txt "\"'", c ≠ q := by
      rintro q hq rfl
      have := hvalue c List.mem_cons_self
      rw [not_bareChar_quote hq] at this
      exact absurd this Bool.false_ne_true
    have hdouble : (quoted 34).run ⟨before, c :: rest ++ after, groups⟩ = [] :=
      run_quoted_nil (by simpa using hquote 34 (by decide))
    have hsingle : (quoted 39).run ⟨before, c :: rest ++ after, groups⟩ = [] :=
      run_quoted_nil (by simpa using hquote 39 (by decide))
    rw [hdouble, hsingle, List.nil_append, List.nil_append]
    exact Regex.head_run_plus_one hafter groups hne hvalue before

theorem isValue_of_head {u : Unicode} {s s' : Regex.Pos Nat Group}
    (h : ((assignedValue u).run s).head? = some s') :
    ∃ value, Moves s value s' ∧ IsValue u value s'.rest := by
  have hquoted : ∀ q ∈ txt "\"'", s' ∈ (quoted q).run s →
      ∃ value, Moves s value s' ∧ IsValue u value s'.rest := by
    intro q hq hs'
    obtain ⟨body, hbody, hslash, hmoves⟩ := mem_run_quoted hs'
    exact ⟨_, hmoves, .quoted q body _ hq hbody hslash⟩
  rw [assignedValue_eq, Regex.run, Regex.run, List.head?_append, List.head?_append] at h
  cases hdouble : ((quoted 34).run s).head? with
  | some t =>
    rw [hdouble] at h
    obtain rfl : t = s' := by simpa using h
    exact hquoted 34 (by decide) (List.mem_of_mem_head? hdouble)
  | none =>
    rw [hdouble] at h
    cases hsingle : ((quoted 39).run s).head? with
    | some t =>
      rw [hsingle] at h
      obtain rfl : t = s' := by simpa using h
      exact hquoted 39 (by decide) (List.mem_of_mem_head? hsingle)
    | none =>
      rw [hsingle] at h
      have hbare : ((Regex.plus (.one (bareChar u)) : Expr).run s).head? = some s' := by
        simpa using h
      obtain ⟨value, hne, hvalue, hmoves, hend, -⟩ := Regex.exists_of_head_plus_one hbare
      exact ⟨value, hmoves, .bare value _ hne hvalue hend⟩

/-! ## Readings -/

/-- An assignment, with the text around it. -/
structure Reading (u : Unicode) (before name quote space : Text) (sign : Nat)
    (space' value after : Text) : Prop where
  edge : before.head?.any (nameChar u) = false
  name : SecretName u name
  gap : Gap u quote space sign space'
  value : IsValue u value after

theorem assignment_eq (u : Unicode) : assignment u =
    .seq (.group .pre (.seq (secretName u) (gapRegex u))) (.group .val (assignedValue u)) := rfl

/-- A value does not begin with white space. -/
theorem not_space_of_value {u : Unicode} {value after : Text} (h : IsValue u value after) :
    ∀ c ∈ (value ++ after).head?, u.isSpace c = false := by
  intro c hc
  cases h with
  | quoted q body after hq _ _ =>
    obtain rfl : q = c := by simpa using hc
    apply not_space_of_mem
    rcases quote_cases hq with rfl | rfl
    · decide
    · decide
  | bare value after hne hvalue _ =>
    obtain ⟨d, rest, rfl⟩ := List.exists_cons_of_ne_nil hne
    obtain rfl : d = c := by simpa using hc
    have := hvalue d List.mem_cons_self
    simp only [bareChar, Bool.and_eq_true, Bool.not_eq_true'] at this
    exact this.1

theorem head_gapText {u : Unicode} {quote space : Text} {sign : Nat} {space' rest : Text}
    (hu : u.Tables) (h : Gap u quote space sign space') :
    ∀ c ∈ (gapText quote space sign space' ++ rest).head?, nameChar u c = false := by
  intro c hc
  rcases h.quote with rfl | ⟨q, hq, rfl⟩
  · cases space with
    | nil =>
      obtain rfl : sign = c := by simpa [gapText] using hc
      apply not_nameChar hu
      have := h.sign
      revert this
      simp [txt]
      omega
    | cons d space =>
      obtain rfl : d = c := by simpa [gapText] using hc
      exact not_nameChar_space hu (h.space d List.mem_cons_self)
  · obtain rfl : q = c := by simpa [gapText] using hc
    apply not_nameChar hu
    rcases quote_cases hq with rfl | rfl
    · decide
    · decide

/-- Two signs at the beginning of a text, with white space up to where it ends. -/
theorem gap_unique {u : Unicode} {quote space space' quote₂ space₂ space₂' t t₂ : Text}
    {sign sign₂ : Nat} (h : Gap u quote space sign space') (h₂ : Gap u quote₂ space₂ sign₂ space₂')
    (ht : ∀ c ∈ t.head?, u.isSpace c = false) (ht₂ : ∀ c ∈ t₂.head?, u.isSpace c = false)
    (heq : gapText quote space sign space' ++ t = gapText quote₂ space₂ sign₂ space₂' ++ t₂) :
    gapText quote space sign space' = gapText quote₂ space₂ sign₂ space₂' ∧ t = t₂ := by
  have hsign : ∀ {e : Nat}, e ∈ txt "=:" → u.isSpace e = false ∧ e ∉ txt "\"'" := by
    intro e he
    have hcases : e = 61 ∨ e = 58 := by
      revert he
      simp [txt]
    rcases hcases with rfl | rfl
    · exact ⟨not_space_of_mem (by decide), by decide⟩
    · exact ⟨not_space_of_mem (by decide), by decide⟩
  have hquote : ∀ {q : Nat}, q ∈ txt "\"'" → u.isSpace q = false := by
    intro q hq
    rcases quote_cases hq with rfl | rfl
    · exact not_space_of_mem (by decide)
    · exact not_space_of_mem (by decide)
  -- behind the quotes: white space, the sign, white space
  have htail : ∀ {a a' b b' x y : Text} {e f : Nat}, (∀ c ∈ a, u.isSpace c = true) →
      (∀ c ∈ b, u.isSpace c = true) → (∀ c ∈ a', u.isSpace c = true) →
      (∀ c ∈ b', u.isSpace c = true) → e ∈ txt "=:" → f ∈ txt "=:" →
      (∀ c ∈ x.head?, u.isSpace c = false) → (∀ c ∈ y.head?, u.isSpace c = false) →
      a ++ e :: (a' ++ x) = b ++ f :: (b' ++ y) → a = b ∧ e = f ∧ a' = b' ∧ x = y := by
    intro a a' b b' x y e f ha hb ha' hb' he hf hx hy h
    obtain ⟨rfl, hrest⟩ := run_unique h ha hb (by simpa using (hsign he).1)
      (by simpa using (hsign hf).1)
    obtain ⟨rfl, hspaces⟩ := List.cons.inj hrest
    obtain ⟨rfl, rfl⟩ := run_unique hspaces ha' hb' hx hy
    exact ⟨rfl, rfl, rfl, rfl⟩
  -- a quote is neither white space nor the sign, so both begin with one or none does
  have hclash : ∀ {q : Nat} {a : Text} {e : Nat} {x y : Text}, q ∈ txt "\"'" →
      (∀ c ∈ a, u.isSpace c = true) → e ∈ txt "=:" → q :: x = a ++ e :: y → False := by
    intro q a e x y hq ha he h
    cases a with
    | nil =>
      obtain ⟨rfl, -⟩ := List.cons.inj h
      exact (hsign he).2 hq
    | cons d a =>
      obtain ⟨rfl, -⟩ := List.cons.inj h
      have := ha q List.mem_cons_self
      rw [hquote hq] at this
      exact absurd this Bool.false_ne_true
  simp only [gapText, List.append_assoc, List.cons_append] at heq
  rcases h.quote with rfl | ⟨q, hq, rfl⟩
  · rcases h₂.quote with rfl | ⟨q₂, hq₂, rfl⟩
    · obtain ⟨rfl, rfl, rfl, rfl⟩ :=
        htail h.space h₂.space h.space' h₂.space' h.sign h₂.sign ht ht₂ heq
      exact ⟨rfl, rfl⟩
    · exact (hclash hq₂ h.space h.sign heq.symm).elim
  · rcases h₂.quote with rfl | ⟨q₂, hq₂, rfl⟩
    · exact (hclash hq h₂.space h₂.sign heq).elim
    · obtain ⟨rfl, hrest⟩ := List.cons.inj heq
      obtain ⟨rfl, rfl, rfl, rfl⟩ :=
        htail h.space h₂.space h.space' h₂.space' h.sign h₂.sign ht ht₂ hrest
      exact ⟨rfl, rfl⟩

/-- Where a name with a sign ends, and no other place in front of a value. -/
theorem place_unique {u : Unicode} (hu : u.Tables)
    {before name quote space space' value after : Text}
    {sign : Nat} (h : Reading u before name quote space sign space' value after)
    {m : Regex.Pos Nat Group}
    (hm : m ∈ (Regex.seq (secretName u) (gapRegex u)).run
      ⟨before, name ++ (gapText quote space sign space' ++ (value ++ after)), []⟩)
    (hvalue : ∀ c ∈ m.rest.head?, u.isSpace c = false) :
    m = ⟨(name ++ gapText quote space sign space').reverse ++ before, value ++ after, []⟩ := by
  obtain ⟨m₁, hm₁, hm⟩ := List.mem_flatMap.1 hm
  obtain ⟨-, -, rfl⟩ := (mem_run_secretName hu h.name.chars (head_gapText hu h.gap)).1 hm₁
  obtain ⟨quote₂, space₂, sign₂, space₂', hgap₂, ⟨hrest, hbefore⟩, hgroups⟩ :=
    mem_run_gapRegex.1 hm
  obtain ⟨hgap, htail⟩ := gap_unique h.gap hgap₂ (not_space_of_value h.value) hvalue hrest
  obtain ⟨before', rest', groups'⟩ := m
  simp only at hbefore hgroups htail
  rw [hbefore, hgroups, ← htail, ← hgap, List.reverse_append, List.append_assoc]

theorem matchAt_of_reading {u : Unicode} (hu : u.Tables)
    {before name quote space space' value after : Text} {sign : Nat}
    (h : Reading u before name quote space sign space' value after) :
    (assignment u).matchAt before (name ++ (gapText quote space sign space' ++ (value ++ after))) =
      some ⟨name ++ gapText quote space sign space' ++ value,
        [(.val, value), (.pre, name ++ gapText quote space sign space')]⟩ := by
  let pre := name ++ gapText quote space sign space'
  let start : Regex.Pos Nat Group :=
    ⟨before, name ++ (gapText quote space sign space' ++ (value ++ after)), []⟩
  let place : Regex.Pos Nat Group := ⟨pre.reverse ++ before, value ++ after, []⟩
  have hmoves : Moves start pre place := ⟨by simp [start, place, pre], rfl⟩
  have hplace : place ∈ (Regex.seq (secretName u) (gapRegex u)).run start := by
    apply List.mem_flatMap.2
    refine ⟨_, (mem_run_secretName hu h.name.chars (head_gapText hu h.gap)).2
      ⟨h.edge, h.name, rfl⟩, ?_⟩
    apply mem_run_gapRegex.2
    exact ⟨quote, space, sign, space', h.gap, ⟨rfl, by simp [place, pre]⟩, rfl⟩
  have hgroup : (⟨pre.reverse ++ before, value ++ after, [(.pre, pre)]⟩ : Regex.Pos Nat Group) ∈
      (Regex.group .pre (.seq (secretName u) (gapRegex u))).run start := by
    apply List.mem_map.2
    refine ⟨place, hplace, ?_⟩
    rw [hmoves.upTo_eq]
  have hfirst : ((assignment u).run start).head? =
      ((Regex.group .val (assignedValue u)).run
        ⟨pre.reverse ++ before, value ++ after, [(.pre, pre)]⟩).head? := by
    rw [assignment_eq, Regex.run_seq]
    apply Regex.head_flatMap hgroup
    intro b hb hne
    obtain ⟨m, hm, rfl⟩ := List.mem_map.1 hb
    -- from there a value is found, so the place is the only one
    have hsome : (assignedValue u).run { m with groups := (.pre, start.upTo m) :: m.groups } ≠
        [] := by
      intro hnil
      apply hne
      rw [Regex.run, hnil, List.map_nil]
    obtain ⟨s', hs'⟩ := Option.ne_none_iff_exists'.1 (mt List.head?_eq_none_iff.1 hsome)
    obtain ⟨v, hv, hvalue⟩ := isValue_of_head hs'
    have hspace : ∀ c ∈ m.rest.head?, u.isSpace c = false := by
      rw [show m.rest = v ++ s'.rest from hv.1]
      exact not_space_of_value hvalue
    obtain rfl := place_unique hu h hm hspace
    rw [hmoves.upTo_eq]
  have hvalue := head_run_assignedValue (pre.reverse ++ before) [(Group.pre, pre)] h.value
  have hup : Regex.Pos.upTo
      (⟨pre.reverse ++ before, value ++ after, [(.pre, pre)]⟩ : Regex.Pos Nat Group)
      ⟨value.reverse ++ (pre.reverse ++ before), after, [(.pre, pre)]⟩ = value :=
    Moves.upTo_eq ⟨rfl, rfl⟩
  have hrun : ((assignment u).run start).head? =
      some ⟨value.reverse ++ (pre.reverse ++ before), after, [(.val, value), (.pre, pre)]⟩ := by
    rw [hfirst, Regex.run, List.head?_map, hvalue, Option.map_some, hup]
  have hwhole : start.upTo ⟨value.reverse ++ (pre.reverse ++ before), after,
      [(.val, value), (.pre, pre)]⟩ = pre ++ value :=
    Moves.upTo_eq ⟨by simp [start, pre], by simp [start]⟩
  rw [Regex.matchAt, hrun, Option.map_some, hwhole]

theorem reading_of_matchAt {u : Unicode} (hu : u.Tables) {before rest : Text} {m : Found}
    (h : (assignment u).matchAt before rest = some m) :
    ∃ name quote space sign space' value after,
      Reading u before name quote space sign space' value after ∧
        rest = name ++ (gapText quote space sign space' ++ (value ++ after)) := by
  obtain ⟨s', hs', -⟩ := Option.map_eq_some_iff.1 h
  rw [assignment_eq, Regex.run_seq, List.head?_flatMap] at hs'
  obtain ⟨b, hb, hvalue⟩ := List.exists_of_findSome?_eq_some hs'
  obtain ⟨m₀, hm₀, rfl⟩ := List.mem_map.1 hb
  rw [Regex.run, List.head?_map] at hvalue
  obtain ⟨s₂, hs₂, -⟩ := Option.map_eq_some_iff.1 hvalue
  obtain ⟨value, hmoves, hisvalue⟩ := isValue_of_head hs₂
  obtain ⟨m₁, hm₁, hgap⟩ := List.mem_flatMap.1 hm₀
  obtain ⟨name, t, rfl, hname, ht⟩ := exists_run (nameChar u) rest
  obtain ⟨hedge, hsecret, rfl⟩ := (mem_run_secretName hu hname ht).1 hm₁
  obtain ⟨quote, space, sign, space', hgap, hmoves₂, -⟩ := mem_run_gapRegex.1 hgap
  refine ⟨name, quote, space, sign, space', value, s₂.rest, ⟨hedge, hsecret, hgap, hisvalue⟩, ?_⟩
  have ht : t = gapText quote space sign space' ++ m₀.rest := hmoves₂.1
  have hrest : m₀.rest = value ++ s₂.rest := hmoves.1
  rw [ht, hrest]

end AnsiDeck.Scrub
