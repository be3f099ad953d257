import AnsiDeck.Lib.RegexWords
import AnsiDeck.Scrub.Kinds

/-!
# The scrubber's expressions find them

Each of the scrubber's passes makes the edits that hide the things of its kind: every match is such
a thing, where one stands there is a match, and no two begin at one place. So what the passes leave
of a text, one after the other, is what is left when the kinds are hidden (`left_iff`).
-/

namespace AnsiDeck.Scrub

open Lib
open Lib.Edit (Cell apply cells chars inserted keep trace)
open Lib.Pattern (Finds cutWhole)
open Lib.Regex (Moves Reaches mem_run_iff reaches_alt reaches_alts reaches_atEnd reaches_boundary
  reaches_lit reaches_litBy reaches_many reaches_many_one reaches_notAhead reaches_notAhead_one
  reaches_notBehind reaches_one reaches_opt reaches_plus_one reaches_seq reaches_times_one
  run_ne_nil_iff)
open Lib.Search (HidesThings Remains editsOf textOf)
open Lib.Stretch (hide leave)

/-! ## Forms -/

/-- The forms are sorted by length, the longest first. -/
theorem sorted_forms (u : Unicode) (secrets : List Text) :
    (forms u secrets).Pairwise fun v w => w.length ≤ v.length := by
  have htotal : Std.Total fun v w : Text => w.length ≤ v.length := ⟨fun v w => Nat.le_total _ _⟩
  have htrans : IsTrans Text fun v w => w.length ≤ v.length := ⟨fun _ _ _ h h' => Nat.le_trans h' h⟩
  exact List.pairwise_insertionSort _ _

section

variable {u : Unicode} {secrets : List Text} {gs : List (Group × Text)} {before w rest : Text}

theorem plain_formRegex (u : Unicode) (v : Text) : (formRegex u v).plain = true := by
  unfold formRegex
  split
  · exact Regex.plain_lit v
  · simp [Regex.plain, Regex.plain_lit]

/-- A short form is found only where no letter or digit is beside it. -/
theorem reaches_formRegex {v : Text} :
    Reaches gs (formRegex u v) before w rest ↔ w = v ∧ Hideable u v before rest := by
  unfold formRegex Hideable
  split
  · next hlong => simp [reaches_lit, hlong]
  · next hshort =>
    rw [reaches_seq rfl, or_iff_right hshort]
    simp only [reaches_seq (Regex.plain_lit v), reaches_notBehind,
      reaches_notAhead_one, reaches_lit]
    constructor
    · rintro ⟨_, _, rfl, ⟨rfl, hbefore⟩, _, _, rfl, rfl, rfl, hafter⟩
      exact ⟨List.append_nil _, hbefore, hafter⟩
    · rintro ⟨rfl, hbefore, hafter⟩
      exact ⟨[], w, rfl, ⟨rfl, hbefore⟩, w, [], (List.append_nil w).symm, rfl, rfl, hafter⟩

/-- A form is found where it stands. -/
theorem run_formRegex_ne_nil {v text : Text} : (formRegex u v).run ⟨before, text, gs⟩ ≠ [] ↔
    ∃ rest, text = v ++ rest ∧ Hideable u v before rest := by
  rw [run_ne_nil_iff (plain_formRegex u v)]
  simp only [reaches_formRegex]
  constructor
  · rintro ⟨_, rest, rfl, rfl, hplace⟩
    exact ⟨rest, rfl, hplace⟩
  · rintro ⟨rest, rfl, hplace⟩
    exact ⟨v, rest, rfl, rfl, hplace⟩

/-- The first alternative that finds something is the longest form. -/
theorem finds_forms {p : Lib.Pattern Nat Group} (hp : exactRegex u secrets = some p) :
    p.Finds cutWhole (FormAt u secrets) := by
  unfold exactRegex at hp
  split at hp
  · cases hp
  · next v vs hforms =>
    obtain rfl := Option.some.inj hp
    constructor
    · intro before text m hm
      obtain ⟨s', hs', rfl⟩ := Option.map_eq_some_iff.1 hm
      obtain ⟨l₁, q, l₂, hl, hnone, hq⟩ := Regex.head_run_alts hs'
      rw [← List.map_cons, ← hforms] at hl
      obtain ⟨a₁, a₂, hsplit, rfl, ha₂⟩ := List.map_eq_append_iff.1 hl
      obtain ⟨form, a₃, rfl, rfl, -⟩ := List.map_eq_cons_iff.1 ha₂
      obtain ⟨w, rest, rfl, rfl, hw⟩ :=
        (mem_run_iff (plain_formRegex u form)).1 (List.mem_of_mem_head? hq)
      obtain ⟨rfl, hplace⟩ := reaches_formRegex.1 hw
      have hmem : w ∈ forms u secrets := by
        rw [hsplit]
        exact List.mem_append_right _ List.mem_cons_self
      have hup : Regex.Pos.upTo ⟨before, w ++ rest, []⟩
          (⟨w.reverse ++ before, rest, []⟩ : Regex.Pos Nat Group) = w := Moves.upTo_eq ⟨rfl, rfl⟩
      refine ⟨[hide w], rest, .form hmem hplace ?_, by simp, by simp [hup], by simp [cutWhole, hup]⟩
      intro x rest' hx heq hxplace
      rw [hsplit] at hx
      rcases List.mem_append.1 hx with hx | hx
      · -- it comes before `w` and finds nothing
        have hnil := hnone _ (List.mem_map_of_mem hx)
        exact absurd hnil (run_formRegex_ne_nil.2 ⟨rest', heq, hxplace⟩)
      · have hsorted := sorted_forms u secrets
        rw [hsplit] at hsorted
        rcases List.mem_cons.1 hx with rfl | hx
        · exact Nat.le_refl _
        · exact (List.pairwise_cons.1 (List.pairwise_append.1 hsorted).2.1).1 x hx
    · rintro before thing after h
      cases h with
      | @form _ form _ hv hplace _ =>
        have hrun : (formRegex u form).run ⟨before, form ++ after, []⟩ ≠ [] :=
          run_formRegex_ne_nil.2 ⟨after, rfl, hplace⟩
        obtain ⟨s', hs'⟩ := List.exists_mem_of_ne_nil _ hrun
        rw [hforms] at hv
        refine Regex.matchAt_ne_none (Regex.mem_run_alts ?_ (by simpa using hs'))
        rw [← List.map_cons]
        exact List.mem_map_of_mem hv
    · rintro before _ after _ after' ⟨hv, hplace, hlongest⟩ ⟨hw, hplace', hlongest'⟩ heq
      simp only [Search.textOf_cons, Search.text_hide, Search.textOf_nil, List.append_nil] at heq
      have hlen := Nat.le_antisymm (hlongest' _ _ hv heq.symm hplace) (hlongest _ _ hw heq hplace')
      obtain ⟨rfl, -⟩ := List.append_inj heq hlen
      rfl

/-! ## Keys and tokens that are words -/

/-- A pass that replaces whole matches, the words its expression reaches. -/
theorem finds_whole {p : Lib.Pattern Nat Group} {kind : Kind} (hplain : p.regex.plain = true)
    (hkind : ∀ before thing after,
      kind before thing after ↔ ∃ w, thing = [hide w] ∧ Reaches [] p.regex before w after)
    (hsharp : ∀ {before w after w' after'}, Reaches [] p.regex before w after →
      Reaches [] p.regex before w' after' → w ++ after = w' ++ after' → w = w') :
    p.Finds cutWhole kind := by
  constructor
  · intro before text m hm
    obtain ⟨s', hs', rfl⟩ := Option.map_eq_some_iff.1 hm
    obtain ⟨w, rest, rfl, rfl, hw⟩ := (mem_run_iff hplain).1 (List.mem_of_mem_head? hs')
    have hup : Regex.Pos.upTo ⟨before, w ++ rest, []⟩
        (⟨w.reverse ++ before, rest, []⟩ : Regex.Pos Nat Group) = w := Moves.upTo_eq ⟨rfl, rfl⟩
    exact ⟨[hide w], rest, (hkind _ _ _).2 ⟨w, rfl, hw⟩, by simp, by simp [hup], by
      simp [cutWhole, hup]⟩
  · intro before thing after h
    obtain ⟨w, rfl, hw⟩ := (hkind _ _ _).1 h
    refine mt Regex.matchAt_eq_none.1 ((run_ne_nil_iff hplain).2 ⟨w, after, by simp, hw⟩)
  · intro before thing after thing' after' h h' heq
    obtain ⟨w, rfl, hw⟩ := (hkind _ _ _).1 h
    obtain ⟨w', rfl, hw'⟩ := (hkind _ _ _).1 h'
    rw [hsharp hw hw' (by simpa using heq)]

/-- At the first character of a word is an edge when none is before it. -/
theorem edge_first (rest : Text) {w : Text} (hne : w ≠ []) (hw : ∀ c ∈ w, u.isWord c = true) :
    before.head?.any u.isWord ≠ (w ++ rest).head?.any u.isWord ↔
      before.head?.any u.isWord = false := by
  obtain ⟨c, w, rfl⟩ := List.exists_cons_of_ne_nil hne
  have hc : ((c :: w) ++ rest).head?.any u.isWord = true := hw c List.mem_cons_self
  rw [hc, ne_eq, Bool.not_eq_true]

/-- And at its last one when none is behind it. -/
theorem edge_last (before : Text) {w : Text} (hne : w ≠ []) (hw : ∀ c ∈ w, u.isWord c = true) :
    (w.reverse ++ before).head?.any u.isWord ≠ rest.head?.any u.isWord ↔
      rest.head?.any u.isWord = false := by
  obtain ⟨front, c, rfl⟩ := (List.eq_nil_or_concat w).resolve_left hne
  have hc : ((front.concat c).reverse ++ before).head?.any u.isWord = true := by
    simpa using hw c (by simp)
  rw [hc, ne_comm, ne_eq, Bool.not_eq_true]

/-- An AWS key is one word. -/
theorem isWord_akia (hu : u.Tables) {key : Text}
    (hkey : ∀ c ∈ key, (isDigit c || isUpper c) = true) :
    ∀ c ∈ txt "AKIA" ++ key, u.isWord c = true := by
  intro c hc
  have hupper : isUpper c = true → u.isWord c = true :=
    fun h => isWord_alnum hu (.inl (isLetter_of_upper h))
  rcases List.mem_append.1 hc with hc | hc
  · have hall : ∀ c ∈ txt "AKIA", isUpper c = true := by decide
    exact hupper (hall c hc)
  · rcases Bool.or_eq_true_iff.1 (hkey c hc) with hdigit | hletter
    · exact isWord_alnum hu (.inr hdigit)
    · exact hupper hletter

theorem reaches_awsKey (hu : u.Tables) : Reaches gs (awsKey u) before w rest ↔
    ∃ key, w = txt "AKIA" ++ key ∧ key.length = 16 ∧ (∀ c ∈ key, (isDigit c || isUpper c) = true) ∧
      Clear u before rest := by
  have hchain : awsKey u = .seq (edge u) (.seq (lits "AKIA")
      (.seq (.times 16 (.one fun c => isDigit c || isUpper c)) (edge u))) := rfl
  rw [hchain]
  simp (disch := exact id rfl) only [edge, lits, reaches_seq, reaches_boundary, reaches_lit,
    reaches_times_one]
  constructor
  · rintro ⟨_, _, rfl, ⟨rfl, hbefore⟩, _, _, rfl, rfl, key, _, rfl, ⟨hlen, hkey⟩, rfl, hafter⟩
    have hword := isWord_akia hu hkey
    simp only [List.append_nil, List.nil_append, List.reverse_nil,
      List.append_assoc] at hbefore hafter ⊢
    rw [← List.append_assoc, edge_first _ (by simp [txt]) hword] at hbefore
    rw [← List.append_assoc, ← List.reverse_append, edge_last _ (by simp [txt]) hword] at hafter
    exact ⟨key, rfl, hlen, hkey, hbefore, hafter⟩
  · rintro ⟨key, rfl, hlen, hkey, hbefore, hafter⟩
    have hword := isWord_akia hu hkey
    refine ⟨[], _, rfl, ⟨rfl, (edge_first _ (by simp [txt]) hword).2 hbefore⟩, _, key, rfl, rfl,
      key, [], (List.append_nil key).symm, ⟨hlen, hkey⟩, rfl, ?_⟩
    rw [← List.append_assoc, ← List.reverse_append]
    exact (edge_last _ (by simp [txt]) hword).2 hafter

/-- All AWS keys have the same length. -/
theorem finds_awsKey (hu : u.Tables) : (awsKeyPattern u).Finds cutWhole (AwsKey u) := by
  refine finds_whole rfl (fun before thing after => ?_) fun h h' heq => ?_
  · constructor
    · rintro ⟨hlen, hkey, hclear⟩
      exact ⟨_, rfl, (reaches_awsKey hu).2 ⟨_, rfl, hlen, hkey, hclear⟩⟩
    · rintro ⟨w, rfl, hw⟩
      obtain ⟨key, rfl, hlen, hkey, hclear⟩ := (reaches_awsKey hu).1 hw
      exact .key hlen hkey hclear
  · obtain ⟨key, rfl, hlen, -⟩ := (reaches_awsKey hu).1 h
    obtain ⟨key', rfl, hlen', -⟩ := (reaches_awsKey hu).1 h'
    exact (List.append_inj heq (by simp [hlen, hlen'])).1

/-- A GitHub token is one word. -/
theorem isWord_github (hu : u.Tables) {use : Nat} {token : Text} (huse : use ∈ txt "pousr")
    (htoken : ∀ c ∈ token, (isLetter c || isDigit c) = true) :
    ∀ c ∈ txt "gh" ++ use :: 95 :: token, u.isWord c = true := by
  have hchar : ∀ c, (isLetter c || isDigit c) = true → u.isWord c = true :=
    fun c hc => isWord_alnum hu (Bool.or_eq_true_iff.1 hc)
  intro c hc
  simp only [List.mem_append, List.mem_cons] at hc
  rcases hc with hc | rfl | rfl | hc
  · have hall : ∀ c ∈ txt "gh", (isLetter c || isDigit c) = true := by decide
    exact hchar c (hall c hc)
  · have hall : ∀ c ∈ txt "pousr", (isLetter c || isDigit c) = true := by decide
    exact hchar c (hall c huse)
  · simp [Unicode.isWord]
  · exact hchar c (htoken c hc)

/-- The expression asks for 20 characters and then goes on as far as there are any, up to an
edge. -/
theorem reaches_githubToken (hu : u.Tables) : Reaches gs (githubToken u) before w rest ↔
    ∃ use token, w = txt "gh" ++ use :: 95 :: token ∧ use ∈ txt "pousr" ∧ 20 ≤ token.length ∧
      (∀ c ∈ token, (isLetter c || isDigit c) = true) ∧ Clear u before rest := by
  let char : Expr := .one fun c => isLetter c || isDigit c
  have hchain : githubToken u = .seq (edge u)
    (.seq (lits "gh") (.seq (oneOf "pousr") (.seq (oneOf "_")
      (.seq (.times 20 char) (.seq (.many char) (edge u)))))) := rfl
  rw [hchain]
  simp (disch := exact id rfl) only [edge, lits, oneOf, char, reaches_seq, reaches_boundary,
    reaches_lit, reaches_one, reaches_times_one, reaches_many_one]
  constructor
  · rintro ⟨_, _, rfl, ⟨rfl, hbefore⟩, _, _, rfl, rfl, _, _, rfl, ⟨use, rfl, huse⟩, _, _, rfl,
      ⟨sep, rfl, hsep⟩, first, _, rfl, ⟨hlen, hfirst⟩, more, _, rfl, hmore, rfl, hafter⟩
    have huse : use ∈ txt "pousr" := of_decide_eq_true huse
    obtain rfl : sep = 95 := List.mem_singleton.1 (of_decide_eq_true hsep : sep ∈ txt "_")
    have htoken : ∀ c ∈ first ++ more, (isLetter c || isDigit c) = true :=
      fun c hc => (List.mem_append.1 hc).elim (hfirst c) (hmore c)
    have hword := isWord_github hu huse htoken
    refine ⟨use, first ++ more, by simp, huse, by simp [hlen], htoken, ?_, ?_⟩
    · refine (edge_first rest (by simp [txt]) hword).1 ?_
      simpa using hbefore
    · refine (edge_last before (by simp [txt]) hword).1 ?_
      simpa using hafter
  · rintro ⟨use, token, rfl, huse, hlen, htoken, hbefore, hafter⟩
    have hword := isWord_github hu huse htoken
    refine ⟨[], _, rfl, ⟨rfl, (edge_first _ (by simp [txt]) hword).2 hbefore⟩, _, _, rfl, rfl,
      [use], _, rfl, ⟨use, rfl, decide_eq_true huse⟩, [95], token, rfl, ⟨95, rfl, by decide⟩,
      token.take 20, token.drop 20,
      (List.take_append_drop 20 token).symm,
      ⟨by simpa using hlen, fun c hc => htoken c (List.mem_of_mem_take hc)⟩, token.drop 20, [],
      (List.append_nil _).symm, fun c hc => htoken c (List.mem_of_mem_drop hc), rfl, ?_⟩
    have hlast := (edge_last before (by simp [txt]) hword).2 hafter
    have hback : (token.drop 20).reverse ++ (token.take 20).reverse = token.reverse := by
      rw [← List.reverse_append, List.take_append_drop]
    rw [← List.append_assoc, hback]
    simpa using hlast

/-- A token ends where its word does. -/
theorem finds_githubToken (hu : u.Tables) :
    (githubTokenPattern u).Finds cutWhole (GithubToken u) := by
  refine finds_whole rfl (fun before thing after => ?_) fun {before w after w' after'} h h' heq =>
    ?_
  · constructor
    · rintro ⟨huse, hlen, htoken, hclear⟩
      exact ⟨_, rfl, (reaches_githubToken hu).2 ⟨_, _, rfl, huse, hlen, htoken, hclear⟩⟩
    · rintro ⟨w, rfl, hw⟩
      obtain ⟨use, token, rfl, huse, hlen, htoken, hclear⟩ := (reaches_githubToken hu).1 hw
      exact .token huse hlen htoken hclear
  · obtain ⟨use, token, rfl, huse, -, htoken, -, hafter⟩ := (reaches_githubToken hu).1 h
    obtain ⟨use', token', rfl, huse', -, htoken', -, hafter'⟩ := (reaches_githubToken hu).1 h'
    -- a word's end is where no word character follows
    have hend : ∀ {text : Text}, text.head?.any u.isWord = false → ∀ c ∈ text.head?,
        u.isWord c = false := by
      intro text htext c hc
      rw [hc] at htext
      exact htext
    exact (run_unique heq (isWord_github hu huse htoken)
      (isWord_github hu huse' htoken') (hend hafter)
      (hend hafter')).1

/-! ## Private keys -/

/-- What ends a private key: its last line, or the end of the text. -/
def keyTail : Expr := .alt (.seq (lits "-----END ") privateKeyLabel) .atEnd

theorem reaches_privateKeyLabel : Reaches gs privateKeyLabel before w rest ↔
    ∃ label, (∀ c ∈ label, isLabelChar c = true) ∧ w = label ++ txt "PRIVATE KEY-----" := by
  rw [privateKeyLabel_eq]
  simp (disch := exact id rfl) only [lits, reaches_seq, reaches_many_one, reaches_lit]
  constructor
  · rintro ⟨label, _, rfl, hlabel, rfl⟩
    exact ⟨label, hlabel, rfl⟩
  · rintro ⟨label, hlabel, rfl⟩
    exact ⟨label, _, rfl, hlabel, rfl⟩

theorem reaches_keyTail : Reaches gs keyTail before w rest ↔
    (∃ label, (∀ c ∈ label, isLabelChar c = true) ∧ w = keyFooter label) ∨ w = [] ∧ rest = [] := by
  unfold keyTail
  simp (disch := exact id rfl) only [lits, reaches_alt, reaches_seq, reaches_atEnd, reaches_lit,
    reaches_privateKeyLabel]
  refine or_congr_left ?_
  constructor
  · rintro ⟨_, _, rfl, rfl, label, hlabel, rfl⟩
    exact ⟨label, hlabel, rfl⟩
  · rintro ⟨label, hlabel, rfl⟩
    exact ⟨_, _, rfl, rfl, label, hlabel, rfl⟩

theorem run_keyTail_ne_nil {text : Text} :
    keyTail.run ⟨before, text, gs⟩ ≠ [] ↔ EndsKey text ∨ text = [] := by
  rw [run_ne_nil_iff rfl]
  simp only [reaches_keyTail]
  constructor
  · rintro ⟨_, rest, rfl, ⟨label, hlabel, rfl⟩ | ⟨rfl, rfl⟩⟩
    · exact .inl ⟨label, rest, hlabel, rfl⟩
    · exact .inr rfl
  · rintro (⟨label, rest, hlabel, rfl⟩ | rfl)
    · exact ⟨_, rest, rfl, .inl ⟨label, hlabel, rfl⟩⟩
    · exact ⟨[], [], rfl, .inr ⟨rfl, rfl⟩⟩

/-- The label of a line, and what is behind the line. -/
theorem keyLine_inj {label label' rest rest' : Text} (hlabel : ∀ c ∈ label, isLabelChar c = true)
    (hlabel' : ∀ c ∈ label', isLabelChar c = true)
    (h : label ++ (txt "PRIVATE KEY-----" ++ rest) = label' ++ (txt "PRIVATE KEY-----" ++ rest')) :
    label = label' ∧ rest = rest' := by
  -- a line's label goes on to its last five hyphens
  have hline : txt "PRIVATE KEY-----" = txt "PRIVATE KEY" ++ txt "-----" := rfl
  have hwords : ∀ c ∈ txt "PRIVATE KEY", isLabelChar c = true := by decide
  have hchars : ∀ {label : Text}, (∀ c ∈ label, isLabelChar c = true) →
      ∀ c ∈ label ++ txt "PRIVATE KEY", isLabelChar c = true := by
    intro label hlabel c hc
    exact (List.mem_append.1 hc).elim (hlabel c) (hwords c)
  have hend : ∀ rest : Text, ∀ c ∈ (txt "-----" ++ rest).head?, isLabelChar c = false := by
    intro rest c hc
    obtain rfl : 45 = c := by simpa [txt] using hc
    decide
  rw [hline, List.append_assoc, List.append_assoc, ← List.append_assoc,
    ← List.append_assoc label'] at h
  obtain ⟨hlabels, htails⟩ := run_unique h (hchars hlabel) (hchars hlabel') (hend rest) (hend rest')
  exact ⟨List.append_cancel_right hlabels, List.append_cancel_left htails⟩

theorem keyHeader_inj {label label' rest rest' : Text} (hlabel : ∀ c ∈ label, isLabelChar c = true)
    (hlabel' : ∀ c ∈ label', isLabelChar c = true)
    (h : keyHeader label ++ rest = keyHeader label' ++ rest') : label = label' ∧ rest = rest' := by
  simp only [keyHeader, List.append_assoc] at h
  exact keyLine_inj hlabel hlabel' (List.append_cancel_left h)

theorem keyFooter_inj {label label' rest rest' : Text} (hlabel : ∀ c ∈ label, isLabelChar c = true)
    (hlabel' : ∀ c ∈ label', isLabelChar c = true)
    (h : keyFooter label ++ rest = keyFooter label' ++ rest') : label = label' ∧ rest = rest' := by
  simp only [keyFooter, List.append_assoc] at h
  exact keyLine_inj hlabel hlabel' (List.append_cancel_left h)

/-- No last line begins within a body that goes on to the first one. -/
theorem body_le {body last after body' text : Text} (hlast : ∀ c ∈ last, isLabelChar c = true)
    (hfirst : ∀ x y, body' = x ++ y → y ≠ [] → ¬ EndsKey (y ++ text))
    (h : body ++ (keyFooter last ++ after) = body' ++ text) : body'.length ≤ body.length := by
  rcases List.append_eq_append_iff.1 h with ⟨y, rfl, htail⟩ | ⟨y, rfl, -⟩
  · by_cases hy : y = []
    · simp [hy]
    · exact absurd ⟨last, after, hlast, htail.symm⟩ (hfirst body y rfl hy)
  · simp

/-- Two keys that begin at one place are the same: the body of each goes on to the first last
line. -/
theorem sharp_privateKey {before after before' after' : Text} {thing thing' : List (Stretch Nat)}
    (h : PrivateKey before thing after) (h' : PrivateKey before' thing' after')
    (heq : textOf thing ++ after = textOf thing' ++ after') : thing = thing' := by
  cases h with
  | @whole _ label body last _ hlabel hlast hfirst =>
    cases h' with
    | @whole _ label' body' last' _ hlabel' hlast' hfirst' =>
      simp only [Search.textOf_cons, Search.text_hide, Search.textOf_nil, List.append_nil,
        List.append_assoc] at heq
      obtain ⟨rfl, hbodies⟩ := keyHeader_inj hlabel hlabel' heq
      have hlen := Nat.le_antisymm (body_le hlast' hfirst hbodies.symm)
        (body_le hlast hfirst' hbodies)
      obtain ⟨rfl, hends⟩ := List.append_inj hbodies hlen
      obtain ⟨rfl, -⟩ := keyFooter_inj hlast hlast' hends
      rfl
    | @endless _ label' body' hlabel' hnone =>
      simp only [Search.textOf_cons, Search.text_hide, Search.textOf_nil, List.append_nil,
        List.append_assoc] at heq
      obtain ⟨rfl, rfl⟩ := keyHeader_inj hlabel hlabel' heq
      exact absurd ⟨last, after, hlast, rfl⟩ (hnone body _ rfl)
  | @endless _ label body hlabel hnone =>
    cases h' with
    | @whole _ label' body' last' _ hlabel' hlast' hfirst' =>
      simp only [Search.textOf_cons, Search.text_hide, Search.textOf_nil, List.append_nil,
        List.append_assoc] at heq
      obtain ⟨rfl, rfl⟩ := keyHeader_inj hlabel hlabel' heq
      exact absurd ⟨last', after', hlast', rfl⟩ (hnone body' _ rfl)
    | @endless _ label' body' hlabel' hnone' =>
      simp only [Search.textOf_cons, Search.text_hide, Search.textOf_nil, List.append_nil] at heq
      rw [heq]

/-- The lazy loop stops at the first place where the tail is found, which the end of the text
always is. -/
theorem finds_privateKey :
    Finds (⟨privateKey, solid_privateKey⟩ : Lib.Pattern Nat Group) cutWhole PrivateKey := by
  constructor
  · intro before text m hm
    obtain ⟨s', hs', rfl⟩ := Option.map_eq_some_iff.1 hm
    have hs' : ((Regex.seq (lits "-----BEGIN ")
        (.seq privateKeyLabel (.seq (.manyLazy (.one fun _ => true)) keyTail)) : Expr).run
          ⟨before, text, []⟩).head? = some s' := hs'
    rw [Regex.run_seq, List.head?_flatMap] at hs'
    obtain ⟨m₁, hm₁, hs'⟩ := List.exists_of_findSome?_eq_some hs'
    obtain ⟨_, t, rfl, rfl, hbegin⟩ := (mem_run_iff rfl).1 hm₁
    obtain rfl := reaches_lit.1 hbegin
    rw [Regex.run_seq, List.head?_flatMap] at hs'
    obtain ⟨m₂, hm₂, hs'⟩ := List.exists_of_findSome?_eq_some hs'
    obtain ⟨_, t, rfl, rfl, hlabel⟩ := (mem_run_iff rfl).1 hm₂
    obtain ⟨label, hchars, rfl⟩ := reaches_privateKeyLabel.1 hlabel
    obtain ⟨body, y, s'', rfl, hhead, htail, hnone⟩ := Regex.head_run_lazy
      (fun before => run_keyTail_ne_nil.2 (.inr rfl) : ∀ before, keyTail.run ⟨before, [], []⟩ ≠ [])
      t
      ((label ++ txt "PRIVATE KEY-----").reverse ++ ((txt "-----BEGIN ").reverse ++ before))
    obtain rfl := Option.some.inj (hhead.symm.trans hs')
    obtain ⟨w, after, rfl, rfl, hw⟩ := (mem_run_iff rfl).1 (List.mem_of_mem_head? htail)
    have hup : Regex.Pos.upTo ⟨before, txt "-----BEGIN " ++ ((label ++ txt "PRIVATE KEY-----") ++
          (body ++ (w ++ after))), []⟩
        (⟨w.reverse ++ (body.reverse ++ ((label ++ txt "PRIVATE KEY-----").reverse ++
          ((txt "-----BEGIN ").reverse ++ before))), after, []⟩ : Regex.Pos Nat Group) =
        keyHeader label ++ (body ++ w) :=
      Moves.upTo_eq ⟨by simp [keyHeader], by simp [keyHeader]⟩
    refine ⟨[hide (keyHeader label ++ (body ++ w))], after, ?_, by simp [keyHeader],
      hup.trans (by simp), (congrArg (fun w : Text => [Edit.cut w.length]) hup).trans (by simp)⟩
    rcases reaches_keyTail.1 hw with ⟨last, hlast, rfl⟩ | ⟨rfl, rfl⟩
    · refine .whole hchars hlast fun x z hbody hz hends => ?_
      exact absurd (hnone x z hbody hz) (run_keyTail_ne_nil.2 (.inl hends))
    · rw [List.append_nil]
      refine .endless hchars fun x z hbody hends => ?_
      by_cases hz : z = []
      · obtain ⟨last, rest, -, hnil⟩ := hends
        rw [hz] at hnil
        exact absurd hnil (by simp [keyFooter, txt])
      · refine absurd (hnone x z hbody hz) (run_keyTail_ne_nil.2 (.inl ?_))
        rwa [List.append_nil, List.append_nil]
  · intro before thing after h
    cases h with
    | whole hlabel _ _ =>
      simpa using mt Regex.matchAt_eq_none.1 (run_privateKey_ne_nil hlabel before _)
    | endless hlabel _ =>
      simpa using mt Regex.matchAt_eq_none.1 (run_privateKey_ne_nil hlabel before _)
  · exact sharp_privateKey

/-! ## What follows a prefix that stays -/

/-- The pass leaves the first group and cuts the rest. -/
theorem editsKeepPrefix_eq (pre w : Text) :
    editsKeepPrefix ⟨pre ++ w, [(.pre, pre)]⟩ = editsOf [leave pre, hide w] := by
  simp [editsKeepPrefix, Regex.Match.group]

/-- A user has no colon and a password no at sign, so there is one way to read credentials. -/
theorem finds_urlPassword : (urlPass u).pattern.Finds editsKeepPrefix (UrlPassword u) := by
  have hmatch : ∀ before {user password after}, Credentials u user password →
      (urlPass u).pattern.regex.matchAt before
          ((txt "://" ++ (user ++ [58])) ++ (password ++ 64 :: after)) =
        some ⟨txt "://" ++ (user ++ [58]) ++ password, [(.pre, txt "://" ++ (user ++ [58]))]⟩ := by
    intro before user password after h
    have hurl := matchAt_of_url before after h
    have htext : urlText user password after =
        (txt "://" ++ (user ++ [58])) ++ (password ++ 64 :: after) := by simp [urlText]
    rwa [htext] at hurl
  constructor
  · intro before text m hm
    obtain ⟨user, password, after, h, rfl⟩ := url_of_matchAt hm
    obtain rfl := Option.some.inj ((matchAt_of_url before after h).symm.trans hm)
    exact ⟨_, 64 :: after, .password h, by simp [urlText], by simp, editsKeepPrefix_eq _ _⟩
  · rintro before _ _ ⟨h⟩
    rw [Option.ne_none_iff_exists']
    exact ⟨_, by simpa using hmatch before h⟩
  · rintro before _ _ _ _ ⟨h⟩ ⟨h'⟩ heq
    simp only [Search.textOf_cons, Search.text_leave, Search.text_hide, Search.textOf_nil,
      List.append_nil, List.append_assoc] at heq
    obtain ⟨rfl, htail⟩ := run_unique (List.append_cancel_left heq) h.user_chars h'.user_chars
      (by simpa using not_urlUser_colon u) (by simpa using not_urlUser_colon u)
    obtain ⟨rfl, -⟩ := run_unique (List.append_cancel_left htail) h.password_chars h'.password_chars
      (by simpa using not_urlPassword_at u) (by simpa using not_urlPassword_at u)
    rfl

/-- Each character is one of the word's, in either case. -/
theorem exists_of_spelled {word : String} {w : Text} (h : Spelled u word w) :
    ∀ c ∈ w, ∃ x ∈ txt word, u.sameLetter c x = true := by
  unfold Spelled at h
  generalize txt word = v at h
  induction h with
  | nil => exact fun c hc => absurd hc List.not_mem_nil
  | @cons c x w v hsame _ ih =>
    intro d hd
    rcases List.mem_cons.1 hd with rfl | hd
    · exact ⟨x, List.mem_cons_self, hsame⟩
    · obtain ⟨y, hy, hsame⟩ := ih d hd
      exact ⟨y, List.mem_cons_of_mem _ hy, hsame⟩

theorem alnum_of_spelled (hu : u.Tables) {word : String} {w : Text} (h : Spelled u word w)
    (hword : ∀ x ∈ txt word, isLetter x = true) : ∀ c ∈ w, u.isAlnum c = true :=
  alnum_of_sameLetter hu h hword

/-- `bearer` and `basic` are letters. -/
theorem Header.scheme_spec (hu : u.Tables) {key space space' scheme space'' : Text} {sign : Nat}
    (h : Header u key space sign space' scheme space'') :
    scheme ≠ [] ∧ ∀ c ∈ scheme, u.isAlnum c = true := by
  rcases h.scheme with hscheme | hscheme
  · exact ⟨List.ne_nil_of_length_pos (by rw [hscheme.length_eq]; decide),
      alnum_of_spelled hu hscheme (by decide)⟩
  · exact ⟨List.ne_nil_of_length_pos (by rw [hscheme.length_eq]; decide),
      alnum_of_spelled hu hscheme (by decide)⟩

/-- So is `authorization`. -/
theorem Header.key_spec (hu : u.Tables) {key space space' scheme space'' : Text} {sign : Nat}
    (h : Header u key space sign space' scheme space'') :
    key ≠ [] ∧ ∀ c ∈ key, u.isAlnum c = true :=
  ⟨List.ne_nil_of_length_pos (by rw [h.key.length_eq]; decide),
    alnum_of_spelled hu h.key (by decide)⟩

theorem isWord_of_alnum {c : Nat} (h : u.isAlnum c = true) : u.isWord c = true := by
  simp [Unicode.isWord, h]

/-- Behind the header's word is no word character. -/
theorem gap_head (hu : u.Tables) {space : Text} {sign : Nat}
    (hspace : ∀ c ∈ space, u.isSpace c = true)
    (hsign : sign ∈ txt "=:") (rest : Text) :
    (space ++ sign :: rest).head?.any u.isWord = false := by
  cases space with
  | nil =>
    have hsign' : sign ∈ txt "=:@/,\x7d\\\"'" := by
      revert hsign
      simp [txt]
      omega
    exact isWord_sign hu hsign'
  | cons c space => exact isWord_space hu (hspace c List.mem_cons_self)

/-- The expression's first group is a header up to its token. -/
theorem reaches_authPre (hu : u.Tables) : Reaches gs (authPre u) before w rest ↔
    before.head?.any u.isWord = false ∧ ∃ key space sign space' scheme space'',
      Header u key space sign space' scheme space'' ∧
        w = authText key space sign space' scheme space'' := by
  have hchain : authPre u = .seq (edge u) (.seq (anyCase u "authorization") (.seq (edge u)
      (.seq (.many (space u)) (.seq (oneOf "=:") (.seq (.many (space u))
        (.seq (.alt (anyCase u "bearer") (anyCase u "basic")) (.plus (space u)))))))) := rfl
  rw [hchain]
  simp (disch := exact id rfl) only [edge, anyCase, space, oneOf, reaches_seq, reaches_boundary,
    reaches_litBy, reaches_many_one, reaches_one, reaches_alt, reaches_plus_one]
  constructor
  · rintro ⟨_, _, rfl, ⟨rfl, hbefore⟩, key, _, rfl, hkey, _, _, rfl, ⟨rfl, -⟩, space, _, rfl,
      hspace, _, _, rfl, ⟨sign, rfl, hsign⟩, space', _, rfl, hspace', scheme, space'', rfl,
      hscheme, hne, hspace''⟩
    have h : Header u key space sign space' scheme space'' :=
      ⟨hkey, hspace, of_decide_eq_true hsign, hspace', hscheme, hne, hspace''⟩
    obtain ⟨hkeyne, hkeychars⟩ := h.key_spec hu
    refine ⟨?_, key, space, sign, space', scheme, space'', h, by simp [authText]⟩
    refine (edge_first rest hkeyne fun c hc => isWord_of_alnum (hkeychars c hc)).1 ?_
    obtain ⟨d, key, rfl⟩ := List.exists_cons_of_ne_nil hkeyne
    simpa using hbefore
  · rintro ⟨hbefore, key, space, sign, space', scheme, space'', h, rfl⟩
    obtain ⟨hkeyne, hkeychars⟩ := h.key_spec hu
    have hword : ∀ c ∈ key, u.isWord c = true := fun c hc => isWord_of_alnum (hkeychars c hc)
    refine ⟨[], _, rfl, ⟨rfl, ?_⟩, key, _, rfl, h.key, [], _, rfl, ⟨rfl, ?_⟩, space, _, rfl,
      h.space, [sign], _, rfl, ⟨sign, rfl, decide_eq_true h.sign⟩, space', _, rfl, h.space', scheme,
      space'', rfl, h.scheme,
      h.space_ne, h.space''⟩
    · have hedge := (edge_first (space ++ sign :: (space' ++ (scheme ++ space'')) ++ rest)
        hkeyne hword).2 hbefore
      simpa [authText] using hedge
    · have hedge := gap_head hu h.space h.sign (space' ++ (scheme ++ space'') ++ rest)
      refine (edge_last _ hkeyne hword).2 ?_
      simpa using hedge

/-- Tokens are made of printable characters. -/
theorem not_space_of_token {c : Nat} (hc : isTokenChar c = true) : u.isSpace c = false := by
  have hrange : ∀ c ∈ txt "._~+/=-", 33 ≤ c ∧ c ≤ 126 := by decide
  simp only [isTokenChar, isLetter, isUpper, isLower, isDigit, Bool.or_eq_true, Bool.and_eq_true,
    decide_eq_true_eq] at hc
  rcases hc with (hc | hc) | hc
  · exact u.space_printable c (by omega) (by omega)
  · exact u.space_printable c (by omega) (by omega)
  · exact u.space_printable c (hrange c hc).1 (hrange c hc).2

/-- There is one way to read a header with a token: its parts are runs of characters that the
part behind has none of. -/
theorem Header.inj (hu : u.Tables) {key space space' scheme space'' token after : Text} {sign : Nat}
    {key₂ space₂ space₂' scheme₂ space₂'' token₂ after₂ : Text} {sign₂ : Nat}
    (h : Header u key space sign space' scheme space'')
    (h₂ : Header u key₂ space₂ sign₂ space₂' scheme₂ space₂'')
    (hne : token ≠ []) (htoken : ∀ c ∈ token, isTokenChar c = true)
    (hne₂ : token₂ ≠ []) (htoken₂ : ∀ c ∈ token₂, isTokenChar c = true)
    (heq : authText key space sign space' scheme space'' ++ (token ++ after) =
      authText key₂ space₂ sign₂ space₂' scheme₂ space₂'' ++ (token₂ ++ after₂)) :
    authText key space sign space' scheme space'' =
      authText key₂ space₂ sign₂ space₂' scheme₂ space₂'' ∧
      token ++ after = token₂ ++ after₂ := by
  have hsign : ∀ {sign : Nat}, sign ∈ txt "=:" → u.isSpace sign = false := by
    intro sign hsign
    exact not_space_of_mem (by revert hsign; simp [txt]; omega)
  have halnum : ∀ {c : Nat}, u.isAlnum c = true → u.isSpace c = false := by
    intro c hc
    refine Bool.eq_false_iff.2 fun hspace => ?_
    rw [hu.space_alnum c hspace] at hc
    cases hc
  have hhead : ∀ {p : Nat → Bool} {v t : Text}, v ≠ [] → (∀ c ∈ v, p c = false) →
      ∀ c ∈ (v ++ t).head?, p c = false := by
    intro p v t hne hv c hc
    obtain ⟨d, v, rfl⟩ := List.exists_cons_of_ne_nil hne
    obtain rfl : d = c := by simpa using hc
    exact hv d List.mem_cons_self
  simp only [authText, List.append_assoc, List.cons_append] at heq
  obtain ⟨hscheme, hchars⟩ := h.scheme_spec hu
  obtain ⟨hscheme₂, hchars₂⟩ := h₂.scheme_spec hu
  obtain ⟨hkey, h₁⟩ := List.append_inj heq (by rw [h.key.length_eq, h₂.key.length_eq])
  obtain ⟨hspace, h₁⟩ := run_unique h₁ h.space h₂.space (by simpa using hsign h.sign)
    (by simpa using hsign h₂.sign)
  obtain ⟨hsigns, h₁⟩ := List.cons.inj h₁
  obtain ⟨hspace', h₁⟩ := run_unique h₁ h.space' h₂.space'
    (hhead hscheme fun c hc => halnum (hchars c hc))
    (hhead hscheme₂ fun c hc => halnum (hchars₂ c hc))
  obtain ⟨hschemes, h₁⟩ := run_unique h₁ hchars hchars₂
    (hhead h.space_ne fun c hc => hu.space_alnum c (h.space'' c hc))
    (hhead h₂.space_ne fun c hc => hu.space_alnum c (h₂.space'' c hc))
  obtain ⟨hspace'', h₁⟩ := run_unique h₁ h.space'' h₂.space''
    (hhead hne fun c hc => not_space_of_token (htoken c hc))
    (hhead hne₂ fun c hc => not_space_of_token (htoken₂ c hc))
  rw [hkey, hspace, hsigns, hspace', hschemes, hspace'']
  exact ⟨rfl, h₁⟩

/-- The token is taken as far as it goes. -/
theorem finds_authToken (hu : u.Tables) :
    (authorizationPass u).pattern.Finds editsKeepPrefix (AuthToken u) := by
  constructor
  · intro before text m hm
    obtain ⟨s', hs', rfl⟩ := Option.map_eq_some_iff.1 hm
    have hs' : ((Regex.seq (.group .pre (authPre u)) (.plus (.one isTokenChar)) : Expr).run
        ⟨before, text, []⟩).head? = some s' := hs'
    rw [Regex.run_seq, List.head?_flatMap] at hs'
    obtain ⟨b, hb, htoken⟩ := List.exists_of_findSome?_eq_some hs'
    obtain ⟨place, hplace, rfl⟩ := List.mem_map.1 hb
    obtain ⟨w, t, rfl, rfl, hw⟩ :=
      (mem_run_iff (Regex.plain_of_carried (carried_authPre u))).1 hplace
    obtain ⟨hedge, key, space, sign, space', scheme, space'', hheader, rfl⟩ :=
      (reaches_authPre hu).1 hw
    obtain ⟨token, hne, hchars, ⟨hrest, hbefore⟩, hend, hgroups⟩ :=
      Regex.exists_of_head_plus_one htoken
    obtain ⟨before', after, groups⟩ := s'
    simp only at hrest hbefore hend hgroups
    subst hrest hbefore hgroups
    let pre := authText key space sign space' scheme space''
    have hpre : Regex.Pos.upTo ⟨before, pre ++ (token ++ after), []⟩
        (⟨pre.reverse ++ before, token ++ after, []⟩ : Regex.Pos Nat Group) = pre :=
      Moves.upTo_eq ⟨rfl, rfl⟩
    have hwhole : ∀ gs, Regex.Pos.upTo ⟨before, pre ++ (token ++ after), []⟩
        (⟨token.reverse ++ (pre.reverse ++ before), after, gs⟩ : Regex.Pos Nat Group)
        = pre ++ token :=
      fun gs => Moves.upTo_eq ⟨by simp, by simp⟩
    refine ⟨[leave pre, hide token], after, .token hedge hheader hne hchars hend, by simp [pre],
      (hwhole _).trans (by simp), ?_⟩
    rw [← editsKeepPrefix_eq]
    show editsKeepPrefix ⟨_, _⟩ = _
    rw [hwhole, hpre]
  · intro before thing after h
    cases h with
    | @token _ key space space' scheme space'' token _ sign hedge hheader hne htoken hend =>
      let pre := authText key space sign space' scheme space''
      have hpre : Reaches [] (authPre u) before pre (token ++ after) :=
        (reaches_authPre hu).2 ⟨hedge, key, space, sign, space', scheme, space'', hheader, rfl⟩
      have hgroup : (⟨pre.reverse ++ before, token ++ after, [(.pre, pre)]⟩ : Regex.Pos Nat Group) ∈
          (Regex.group .pre (authPre u)).run ⟨before, pre ++ (token ++ after), []⟩ := by
        refine List.mem_map.2 ⟨_, hpre, ?_⟩
        rw [Moves.upTo_eq (w := pre) ⟨rfl, rfl⟩]
      have htokens : Reaches [(Group.pre, pre)] (.plus (.one isTokenChar))
          (pre.reverse ++ before) token after :=
        reaches_plus_one.2 ⟨hne, htoken⟩
      have hrun : (authorization u).run ⟨before, pre ++ (token ++ after), []⟩ ≠ [] :=
        List.ne_nil_of_mem (List.mem_flatMap.2 ⟨_, hgroup, htokens⟩)
      have hmatch : (authorizationPass u).pattern.regex.matchAt before
          (pre ++ (token ++ after)) ≠ none :=
        mt Regex.matchAt_eq_none.1 hrun
      simpa [pre] using hmatch
  · rintro before _ _ _ _ ⟨hedge, hheader, hne, htoken, hend⟩
      ⟨hedge', hheader', hne', htoken', hend'⟩ heq
    simp only [Search.textOf_cons, Search.text_leave, Search.text_hide, Search.textOf_nil,
      List.append_nil, List.append_assoc] at heq
    obtain ⟨hpre, htail⟩ := hheader.inj hu hheader' hne htoken hne' htoken' heq
    obtain ⟨rfl, -⟩ := run_unique htail htoken htoken' hend hend'
    rw [hpre]

/-! ## Names that look like a secret's -/

/-- `_` and `-` are no letters or digits in either case, for any tables. -/
theorem not_alnum_sep (hu : u.Tables) {c : Nat} (hc : c ∈ txt "_-") : alnumAnyCase u c = false := by
  refine Bool.eq_false_iff.2 fun h => ?_
  obtain ⟨x, hx, hsame⟩ := List.any_eq_true.1 h
  have hkinds : ∀ x ∈ alnumChars, x < 128 ∧ (isLetter x = true ∨ isLetter x = false) ∧
      x ∉ txt "_-" := by
    decide
  obtain ⟨hlt, hletter | hother, hnot⟩ := hkinds x hx
  · have halnum := hu.same_letter c x hletter hsame
    have hascii : ∀ c ∈ txt "_-", c < 128 ∧ (isLetter c || isDigit c) = false := by decide
    rw [hu.alnum_ascii c (hascii c hc).1, (hascii c hc).2] at halnum
    cases halnum
  · exact hnot (hu.same_other c x hlt hother hsame ▸ hc)

/-- The words that say a location are letters. -/
theorem alnum_of_location {word : String} (hword : word ∈ ["file", "path", "dir", "id", "name"])
    {w : Text} (h : Spelled u word w) : ∀ c ∈ w, alnumAnyCase u c = true := by
  have hchars : ∀ word ∈ ["file", "path", "dir", "id", "name"], ∀ x ∈ txt word, x ∈ alnumChars := by
    decide
  intro c hc
  obtain ⟨x, hx, hsame⟩ := exists_of_spelled h c hc
  exact List.any_eq_true.2 ⟨x, hchars word hword x hx, hsame⟩

/-- A location is one of the words, and nothing more. -/
theorem reaches_locationPart : Reaches gs (locationPart u) before w rest ↔
    (∃ word ∈ ["file", "path", "dir", "id", "name"], Spelled u word w) ∧
      rest.head?.any (alnumAnyCase u) = false := by
  unfold locationPart
  simp (disch := exact id rfl) only [anyCase, reaches_seq, reaches_alts, reaches_notAhead_one,
    List.mem_cons, List.not_mem_nil, or_false, exists_eq_or_imp, exists_eq_left, reaches_litBy]
  constructor
  · rintro ⟨w, _, rfl, hword, rfl, hrest⟩
    rw [List.append_nil]
    exact ⟨hword, hrest⟩
  · rintro ⟨hword, hrest⟩
    exact ⟨w, [], (List.append_nil w).symm, hword, rfl, hrest⟩

/-- One turn of the loop in `_NAME` over the parts behind the secret's word. -/
def partRegex (u : Unicode) : Expr :=
  chain [oneOf "_-", .notAhead (locationPart u), .plus (.one (alnumAnyCase u))]

/-- Before what is no letter or digit, a part is one that says no location. -/
theorem reaches_partRegex (hrest : rest.head?.any (alnumAnyCase u) = false) :
    Reaches gs (partRegex u) before w rest ↔ NamePart u w := by
  have hchain : partRegex u = .seq (oneOf "_-")
      (.seq (.notAhead (locationPart u)) (.plus (.one (alnumAnyCase u)))) := rfl
  have hend : ∀ c ∈ rest.head?, alnumAnyCase u c = false := by
    intro c hc
    rw [hc] at hrest
    exact hrest
  rw [hchain]
  simp (disch := exact id rfl) only [oneOf, reaches_seq, reaches_one, reaches_notAhead,
    reaches_plus_one, reaches_locationPart]
  constructor
  · rintro ⟨_, _, rfl, ⟨sep, rfl, hsep⟩, _, w, rfl, ⟨rfl, hlocation⟩, hne, hw⟩
    exact .part (of_decide_eq_true hsep) hne hw fun word hword hspelled =>
      hlocation w rest rfl ⟨⟨word, hword, hspelled⟩, hrest⟩
  · intro h
    cases h with
    | @part sep w hsep hne hw hlocation =>
      refine ⟨[sep], w, rfl, ⟨sep, rfl, decide_eq_true hsep⟩, [], w, rfl, ⟨rfl, ?_⟩, hne, hw⟩
      rintro x y heq ⟨⟨word, hword, hspelled⟩, hy⟩
      have hyend : ∀ c ∈ y.head?, alnumAnyCase u c = false := by
        intro c hc
        rw [hc] at hy
        exact hy
      obtain ⟨rfl, -⟩ := run_unique heq hw (alnum_of_location hword hspelled) hend hyend
      exact hlocation word hword hspelled

/-- A part begins with a separator. -/
theorem NamePart.head (hu : u.Tables) {part : Text} (h : NamePart u part) (rest : Text) :
    (part ++ rest).head?.any (alnumAnyCase u) = false := by
  cases h with
  | part hsep _ _ _ => exact not_alnum_sep hu hsep

/-- The loop goes over parts, one after another, to the end of the name. -/
theorem reaches_parts (hu : u.Tables) : ∀ {w before : Text},
    Reaches gs (.many (partRegex u)) before w [] ↔
      ∃ parts : List Text, (∀ part ∈ parts, NamePart u part) ∧ w = parts.flatten := by
  suffices h : ∀ n (w before : Text), w.length ≤ n → (Reaches gs (.many (partRegex u)) before w [] ↔
      ∃ parts : List Text, (∀ part ∈ parts, NamePart u part) ∧ w = parts.flatten) from
    fun {w before} => h w.length w before (Nat.le_refl _)
  intro n
  -- on the length of what the loop goes over
  induction n with
  | zero =>
    intro w before hn
    obtain rfl := List.length_eq_zero_iff.1 (Nat.le_zero.1 hn)
    refine iff_of_true ?_ ⟨[], by simp, rfl⟩
    exact (Regex.reaches_many rfl).2 (.inl rfl)
  | succ n ih =>
    intro w before hn
    rw [Regex.reaches_many rfl]
    constructor
    · rintro (rfl | ⟨x, y, hx, rfl, hpart, hmore⟩)
      · exact ⟨[], by simp, rfl⟩
      · have hpos := List.length_pos_iff.2 hx
        rw [List.length_append] at hn
        obtain ⟨parts, hparts, rfl⟩ := (ih y _ (by omega)).1 hmore
        have hhead : (parts.flatten ++ []).head?.any (alnumAnyCase u) = false := by
          rw [List.append_nil]
          cases parts with
          | nil => rfl
          | cons part parts => exact (hparts part List.mem_cons_self).head hu _
        exact ⟨x :: parts, List.forall_mem_cons.2 ⟨(reaches_partRegex hhead).1 hpart, hparts⟩, rfl⟩
    · rintro ⟨parts, hparts, rfl⟩
      cases parts with
      | nil => exact .inl rfl
      | cons part parts =>
        obtain ⟨hpart, hparts⟩ := List.forall_mem_cons.1 hparts
        have hhead : (parts.flatten ++ []).head?.any (alnumAnyCase u) = false := by
          rw [List.append_nil]
          cases parts with
          | nil => rfl
          | cons next parts => exact (hparts next List.mem_cons_self).head hu _
        have hne : part ≠ [] := by
          cases hpart
          exact List.cons_ne_nil _ _
        have hpos := List.length_pos_iff.2 hne
        rw [List.flatten_cons, List.length_append] at hn
        exact .inr ⟨part, parts.flatten, hne, rfl, (reaches_partRegex hhead).2 hpart,
          (ih _ _ (by omega)).2 ⟨parts, hparts, rfl⟩⟩

/-- The alternatives of `_NAME`. -/
theorem reaches_secretWord :
    Reaches gs (.alts (anyCase u "password") [anyCase u "passwd", anyCase u "secret",
      anyCase u "token", chain [anyCase u "api", .opt (oneOf "_-"), anyCase u "key"]]) before w rest
        ↔ SecretWord u w := by
  have hchain : (chain [anyCase u "api", .opt (oneOf "_-"), anyCase u "key"] : Expr) =
      .seq (anyCase u "api") (.seq (.opt (oneOf "_-")) (anyCase u "key")) := rfl
  rw [hchain]
  simp (disch := exact id rfl) only [anyCase, oneOf, reaches_alts, reaches_seq, reaches_opt,
    reaches_one, List.mem_cons, List.not_mem_nil, or_false, exists_eq_or_imp,
    exists_eq_left, reaches_litBy]
  constructor
  · rintro (h | h | h | h | ⟨api, _, rfl, hapi, sep, key, rfl, hsep, hkey⟩)
    · exact .word "password" (by decide) h
    · exact .word "passwd" (by decide) h
    · exact .word "secret" (by decide) h
    · exact .word "token" (by decide) h
    · refine .apiKey hapi ?_ hkey
      rcases hsep with ⟨c, rfl, hc⟩ | rfl
      · exact .inr ⟨c, of_decide_eq_true hc, rfl⟩
      · exact .inl rfl
  · intro h
    cases h with
    | word word hword hw =>
      simp only [List.mem_cons, List.not_mem_nil, or_false] at hword
      rcases hword with rfl | rfl | rfl | rfl
      · exact .inl hw
      · exact .inr (.inl hw)
      · exact .inr (.inr (.inl hw))
      · exact .inr (.inr (.inr (.inl hw)))
    | apiKey hapi hsep hkey =>
      refine .inr (.inr (.inr (.inr ⟨_, _, rfl, hapi, _, _, rfl, ?_, hkey⟩)))
      rcases hsep with rfl | ⟨c, hc, rfl⟩
      · exact .inr rfl
      · exact .inl ⟨c, rfl, decide_eq_true hc⟩

theorem nameChar_of_spelled {word : String} {w : Text} (h : Spelled u word w)
    (hword : txt word ⊆ alnumChars ++ txt "_-") : ∀ c ∈ w, nameChar u c = true := by
  intro c hc
  obtain ⟨x, hx, hsame⟩ := exists_of_spelled h c hc
  exact nameChar_of_mem (hword hx) hsame

theorem nameChar_sep (hu : u.Tables) {c : Nat} (hc : c ∈ txt "_-") : nameChar u c = true :=
  nameChar_of_mem (List.mem_append_right _ hc) (hu.same_refl c)

/-- The secret's word is within the name. -/
theorem SecretWord.nameChar (hu : u.Tables) {w : Text} (h : SecretWord u w) :
    ∀ c ∈ w, nameChar u c = true := by
  cases h with
  | word word hword hw =>
    have hchars : ∀ word ∈ ["password", "passwd", "secret", "token"],
        txt word ⊆ alnumChars ++ txt "_-" := by decide
    exact nameChar_of_spelled hw (hchars word hword)
  | apiKey hapi hsep hkey =>
    intro c hc
    simp only [List.mem_append] at hc
    rcases hc with hc | hc | hc
    · exact nameChar_of_spelled hapi (by decide) c hc
    · rcases hsep with rfl | ⟨d, hd, rfl⟩
      · exact absurd hc List.not_mem_nil
      · obtain rfl := List.mem_singleton.1 hc
        exact nameChar_sep hu hd
    · exact nameChar_of_spelled hkey (by decide) c hc

theorem NamePart.nameChar (hu : u.Tables) {part : Text} (h : NamePart u part) :
    ∀ c ∈ part, nameChar u c = true := by
  cases h with
  | part hsep _ hw _ =>
    exact List.forall_mem_cons.2 ⟨nameChar_sep hu hsep, fun c hc => nameChar_of_alnum (hw c hc)⟩

/-- A name that looks like a secret's is a name. -/
theorem nameChar_of_secretLooking (hu : u.Tables) {name : Text} (h : SecretLooking u name) :
    ∀ c ∈ name, nameChar u c = true := by
  cases h with
  | name hfront hword hparts =>
    intro c hc
    simp only [List.mem_append, List.mem_flatten] at hc
    rcases hc with hc | hc | ⟨part, hpart, hc⟩
    · exact hfront c hc
    · exact hword.nameChar hu c hc
    · exact (hparts part hpart).nameChar hu c hc

/-- `_NAME` finds a secret's word with parts behind it that say no location, up to the end of the
name. -/
theorem secretName_iff (hu : u.Tables) {name : Text} :
    SecretName u name ↔ SecretLooking u name := by
  have hchain : nameBody u = .seq (.many (.one (nameChar u)))
      (.seq (.alts (anyCase u "password") [anyCase u "passwd", anyCase u "secret",
          anyCase u "token", chain [anyCase u "api", .opt (oneOf "_-"), anyCase u "key"]])
        (.seq (.many (partRegex u)) (.notAhead (.one (nameChar u))))) := rfl
  have hrun : (nameBody u).run ⟨[], name, []⟩ ≠ [] ↔ ∃ w rest front word more, name = w ++ rest ∧
      w = front ++ (word ++ more) ∧ (∀ c ∈ front, nameChar u c = true) ∧ SecretWord u word ∧
      Reaches [] (.many (partRegex u)) (word.reverse ++ (front.reverse ++ [])) more rest ∧
      rest.head?.any (nameChar u) = false := by
    rw [run_ne_nil_iff rfl, hchain]
    simp (disch := exact id rfl) only [reaches_seq, reaches_many_one, reaches_secretWord,
      reaches_notAhead_one]
    constructor
    · rintro ⟨_, rest, rfl, front, _, rfl, hfront, word, _, rfl, hword, more, _, rfl,
        hmore, rfl, hrest⟩
      exact ⟨_, rest, front, word, more, rfl, by simp, hfront, hword, hmore, hrest⟩
    · rintro ⟨_, rest, front, word, more, rfl, rfl, hfront, hword, hmore, hrest⟩
      exact ⟨_, rest, rfl, front, _, rfl, hfront, word, _, rfl, hword, more, [],
        (List.append_nil _).symm, hmore, rfl, hrest⟩
  constructor
  · rintro ⟨hchars, hfound⟩
    obtain ⟨_, rest, front, word, more, rfl, rfl, hfront, hword, hmore, hrest⟩ := hrun.1 hfound
    have hnil : rest = [] := by
      cases rest with
      | nil => rfl
      | cons c rest =>
        have hc : nameChar u c = false := hrest
        rw [hchars c (by simp)] at hc
        cases hc
    subst hnil
    obtain ⟨parts, hparts, rfl⟩ := (reaches_parts hu).1 hmore
    rw [List.append_nil]
    exact .name hfront hword hparts
  · intro h
    refine ⟨nameChar_of_secretLooking hu h, ?_⟩
    cases h with
    | @name front word parts hfront hword hparts =>
      exact hrun.2 ⟨_, [], front, word, _, (List.append_nil _).symm, rfl, hfront, hword,
        (reaches_parts hu).2 ⟨parts, hparts, rfl⟩, rfl⟩

/-! ## Assigned values -/

/-- The stretches of an assignment: what is in front of its value, and the value. -/
def assigned (pre value : Text) : List (Stretch Nat) :=
  if redacted <:+: value then [leave (pre ++ value)]
  else
    match openingQuote value with
    | [] => [leave pre, hide value]
    | q :: _ => [leave (pre ++ [q]), hide value.tail.dropLast, leave [q]]

/-- The marker has no quotes. -/
theorem infix_quoted {q : Nat} (hq : q ∈ txt "\"'") (body : Text) :
    redacted <:+: q :: (body ++ [q]) ↔ redacted <:+: body := by
  have hfirst : redacted.head? = some 91 := rfl
  have hlast : redacted.getLast? = some 93 := rfl
  constructor
  · intro h
    rcases List.infix_cons_iff.1 h with ⟨t, ht⟩ | h
    · have hhead := congrArg List.head? ht
      rw [List.head?_append, hfirst] at hhead
      obtain rfl : 91 = q := by simpa using hhead
      exact absurd hq (by decide)
    · rcases List.infix_concat_iff.1 h with ⟨t, ht⟩ | h
      · have hend := congrArg List.getLast? ht
        rw [List.getLast?_append, hlast] at hend
        obtain rfl : 93 = q := by simpa using hend
        exact absurd hq (by decide)
      · exact h
  · exact fun h => h.trans ⟨[q], [q], rfl⟩

/-- A quoted value opens with its quote. -/
theorem openingQuote_quoted {q : Nat} (hq : q ∈ txt "\"'") (rest : Text) :
    openingQuote (q :: rest) = [q] := by
  simp [openingQuote, hq]

/-- A bare value has none. -/
theorem openingQuote_bare {value : Text} (hne : value ≠ [])
    (hvalue : ∀ c ∈ value, bareChar u c = true) :
    openingQuote value = [] := by
  obtain ⟨c, rest, rfl⟩ := List.exists_cons_of_ne_nil hne
  have hc : c ∉ txt "\"'" := by
    intro hq
    have hbare := hvalue c List.mem_cons_self
    rw [not_bareChar_quote hq] at hbare
    exact absurd hbare Bool.false_ne_true
  simp [openingQuote, hc]

/-- An assigned value is one that is read. -/
theorem assignedValue_iff (hu : u.Tables) {thing : List (Stretch Nat)} {after : Text} :
    AssignedValue u before thing after ↔ ∃ name quote space sign space' value,
      Reading u before name quote space sign space' value after ∧
        thing = assigned (name ++ gapText quote space sign space') value := by
  constructor
  · intro h
    cases h with
    | marked hedge hname hgap hvalue hmark =>
      exact ⟨_, _, _, _, _, _, ⟨hedge, (secretName_iff hu).2 hname, hgap, hvalue⟩,
        (if_pos hmark).symm⟩
    | @quoted _ name quote space space' body _ sign q hedge hname hgap hq hbody hslash hmark =>
      refine ⟨name, quote, space, sign, space', q :: (body ++ [q]),
        ⟨hedge, (secretName_iff hu).2 hname, hgap, .quoted q body after hq hbody hslash⟩, ?_⟩
      rw [assigned, if_neg (mt (infix_quoted hq body).1 hmark), openingQuote_quoted hq]
      simp
    | bare hedge hname hgap hne hvalue hend hmark =>
      refine ⟨_, _, _, _, _, _,
        ⟨hedge, (secretName_iff hu).2 hname, hgap, .bare _ after hne hvalue hend⟩, ?_⟩
      rw [assigned, if_neg hmark, openingQuote_bare hne hvalue]
  · rintro ⟨name, quote, space, sign, space', value, h, rfl⟩
    have hname := (secretName_iff hu).1 h.name
    by_cases hmark : redacted <:+: value
    · rw [assigned, if_pos hmark]
      exact .marked h.edge hname h.gap h.value hmark
    · rw [assigned, if_neg hmark]
      cases h.value with
      | quoted q body after hq hbody hslash =>
        rw [openingQuote_quoted hq]
        have htail : (q :: (body ++ [q])).tail.dropLast = body := by simp
        rw [htail]
        exact .quoted h.edge hname h.gap hq hbody hslash (mt (infix_quoted hq body).2 hmark)
      | bare value after hne hvalue hend =>
        rw [openingQuote_bare hne hvalue]
        exact .bare h.edge hname h.gap hne hvalue hend hmark

/-- Nothing is lost between what is left and what is hidden. -/
theorem textOf_assigned {pre value after : Text} (h : IsValue u value after) :
    textOf (assigned pre value) = pre ++ value := by
  unfold assigned
  split
  · simp
  · cases h with
    | quoted q body after hq _ _ =>
      rw [openingQuote_quoted hq]
      simp
    | bare value after hne hvalue _ =>
      rw [openingQuote_bare hne hvalue]
      simp

/-- `_redact_assignment` keeps the quotes around what it hides, and a value that has the marker
already. -/
theorem editsOf_assigned {pre value after : Text} (h : IsValue u value after) :
    editsRedactAssignment ⟨pre ++ value, [(.val, value), (.pre, pre)]⟩ =
      editsOf (assigned pre value) := by
  have hother : (Group.pre == Group.val) = false := rfl
  have hval : (⟨pre ++ value, [(.val, value), (.pre, pre)]⟩ : Scrub.Found).group .val = value := rfl
  have hpre : (⟨pre ++ value, [(.val, value), (.pre, pre)]⟩ : Scrub.Found).group .pre = pre := rfl
  rw [editsRedactAssignment, hval, hpre, assigned]
  by_cases hmark : redacted <:+: value
  · simp [hmark]
  · simp only [hmark, if_false]
    cases h with
    | quoted q body after hq _ _ =>
      rw [openingQuote_quoted hq]
      simp
    | bare value after hne hvalue _ =>
      rw [openingQuote_bare hne hvalue]
      simp

/-- What a match is of is read in one way, by the text from its place on. -/
theorem finds_assignedValue (hu : u.Tables) :
    (assignmentPass u).pattern.Finds editsRedactAssignment (AssignedValue u) := by
  constructor
  · intro before rest m hm
    obtain ⟨name, quote, space, sign, space', value, after, h, rfl⟩ := reading_of_matchAt hu hm
    obtain rfl := Option.some.inj ((matchAt_of_reading hu h).symm.trans hm)
    refine ⟨_, after, (assignedValue_iff hu).2 ⟨_, _, _, _, _, _, h, rfl⟩, ?_, ?_, ?_⟩
    · simp [textOf_assigned h.value]
    · exact (textOf_assigned h.value).symm
    · exact editsOf_assigned h.value
  · intro before thing after h
    obtain ⟨name, quote, space, sign, space', value, hr, rfl⟩ := (assignedValue_iff hu).1 h
    have hmatch : (assignmentPass u).pattern.regex.matchAt before
        (name ++ (gapText quote space sign space' ++ (value ++ after))) = _ :=
        matchAt_of_reading hu hr
    simp [textOf_assigned hr.value, hmatch]
  · intro before thing after thing' after' h h' heq
    obtain ⟨name, quote, space, sign, space', value, hr, rfl⟩ := (assignedValue_iff hu).1 h
    obtain ⟨name₂, quote₂, space₂, sign₂, space₂', value₂, hr₂, rfl⟩ := (assignedValue_iff hu).1 h'
    rw [textOf_assigned hr.value, textOf_assigned hr₂.value, List.append_assoc, List.append_assoc,
      List.append_assoc, List.append_assoc] at heq
    have hmatch := matchAt_of_reading hu hr
    rw [heq, matchAt_of_reading hu hr₂] at hmatch
    obtain ⟨-, hgroups⟩ := Regex.Match.mk.inj (Option.some.inj hmatch)
    obtain ⟨hval, hpre⟩ := List.cons.inj hgroups
    obtain ⟨hpre, -⟩ := List.cons.inj hpre
    rw [(Prod.mk.inj hval).2, (Prod.mk.inj hpre).2]

/-! ## All of them -/

/-- Where there is nothing to hide, no form stands. -/
theorem hides_noForms (hnone : exactRegex u secrets = none) :
    HidesThings (fun text => List.replicate text.length Edit.keep) (FormAt u secrets) := by
  refine Search.hides_of_none fun before thing after h => ?_
  cases h with
  | form hv _ _ =>
    obtain ⟨p, hp, -⟩ := exactPass_finds hv
    simp [exactPass, hnone] at hp

/-- The five passes after the forms'. -/
theorem hides_plainKinds (hu : u.Tables) :
    List.Forall₂ HidesThings [privateKeyPass.edits, (authorizationPass u).edits, (urlPass u).edits,
        (Pass.whole (awsKeyPattern u)).edits, (Pass.whole (githubTokenPattern u)).edits]
      [PrivateKey, AuthToken u, UrlPassword u, AwsKey u, GithubToken u] :=
  .cons finds_privateKey.hides (.cons (finds_authToken hu).hides (.cons finds_urlPassword.hides
    (.cons (finds_awsKey hu).hides (.cons (finds_githubToken hu).hides .nil))))

/-- There is a pass for the forms when there are any. -/
theorem edits_plainPasses (u : Unicode) (secrets : List Text) :
    (plainPasses u secrets).map Pass.edits = (exactPass u secrets).toList.map Pass.edits ++
      [privateKeyPass.edits, (authorizationPass u).edits, (urlPass u).edits,
        (Pass.whole (awsKeyPattern u)).edits, (Pass.whole (githubTokenPattern u)).edits] :=
  List.map_append

/-- The kinds before the assigned values, and the edits that hide them. -/
theorem remains_plainKinds (hu : u.Tables) (secrets : List Text) (cs out : List (Cell Nat)) :
    Remains redacted (plainKinds u secrets) cs out ↔
      out = trace redacted ((plainPasses u secrets).map Pass.edits) cs := by
  rw [edits_plainPasses, exactPass]
  cases hexact : exactRegex u secrets with
  | none =>
    have hkeeps : apply (inserted redacted) (List.replicate (chars cs).length keep) cs = cs := by
      rw [Edit.length_chars]
      exact Edit.apply_keeps (inserted redacted) cs
    rw [plainKinds, Search.remains_iff (.cons (hides_noForms hexact) (hides_plainKinds hu)),
      Edit.trace_cons, hkeeps, Option.map_none, Option.toList_none, List.map_nil, List.nil_append]
  | some p =>
    rw [plainKinds, Search.remains_iff (.cons (finds_forms hexact).hides (hides_plainKinds hu)),
      Option.map_some, Option.toList_some, List.map_cons, List.map_nil, List.singleton_append]
    exact Iff.rfl

/-- The last pass. -/
theorem hides_assignedValue (hu : u.Tables) :
    List.Forall₂ HidesThings [(assignmentPass u).edits] [AssignedValue u] :=
  .cons (finds_assignedValue hu).hides .nil

/-- What the scrubber leaves of a text, and where it had stood. -/
theorem left_iff (hu : u.Tables) (secrets : List Text) (text : Text) (cs : List (Cell Nat)) :
    Left u secrets text cs ↔ cs = left u secrets text := by
  rw [Left, kinds, Search.remains_append]
  simp only [remains_plainKinds hu, Search.remains_iff (hides_assignedValue hu), exists_eq_left]
  rw [left, passes_eq, List.map_append, Edit.trace_append, List.map_cons, List.map_nil]

end

end AnsiDeck.Scrub
