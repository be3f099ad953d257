import AnsiDeck.Scrub.Assignments
import AnsiDeck.Scrub.ShortForms

/-!
# What a scrubbed text no longer has

A pattern of word characters (`Guarded`) finds nothing in a text it has been over, nor after a pass
that never puts a marker beside a word character (`Walled`): what it would find has stood there
before, between the same edges.
-/

namespace AnsiDeck.Scrub

open Lib
open Lib.Edit (Apart apply cut keep span)
open Lib.Regex (Carried Moves SameEdge mem_run_many_one mem_run_plus_one)

/-! ## The patterns by name -/

theorem solid_privateKey : 0 < privateKey.minLen := by decide

theorem solid_authorization (u : Unicode) : 0 < (authorization u).minLen :=
  Regex.minLen_seq_pos (by decide)

theorem solid_urlCredentials (u : Unicode) : 0 < (urlCredentials u).minLen :=
  Regex.minLen_seq_pos (by simp [Regex.minLen, Regex.plus])

theorem solid_awsKey (u : Unicode) : 0 < (awsKey u).minLen := by
  rw [minLen_awsKey]
  decide

theorem solid_githubToken (u : Unicode) : 0 < (githubToken u).minLen := by
  rw [minLen_githubToken]
  decide

theorem spells_authorization (u : Unicode) : Lib.Pattern.Spells
    ⟨authorization u, solid_authorization u⟩ redacted keepPrefix editsKeepPrefix :=
  spells_keepPrefix rfl _

theorem spells_urlCredentials (u : Unicode) : Lib.Pattern.Spells
    ⟨urlCredentials u, solid_urlCredentials u⟩ redacted keepPrefix editsKeepPrefix :=
  spells_keepPrefix rfl _

def privateKeyPass : Pass := .whole ⟨privateKey, solid_privateKey⟩

def authorizationPass (u : Unicode) : Pass :=
  ⟨⟨authorization u, solid_authorization u⟩, keepPrefix, editsKeepPrefix, spells_authorization u⟩

def urlPass (u : Unicode) : Pass :=
  ⟨⟨urlCredentials u, solid_urlCredentials u⟩, keepPrefix, editsKeepPrefix,
    spells_urlCredentials u⟩

def awsKeyPattern (u : Unicode) : Lib.Pattern Nat Group := ⟨awsKey u, solid_awsKey u⟩

def githubTokenPattern (u : Unicode) : Lib.Pattern Nat Group := ⟨githubToken u, solid_githubToken u⟩

theorem patterns_eq (u : Unicode) : patterns u = [privateKeyPass, authorizationPass u, urlPass u,
    .whole (awsKeyPattern u), .whole (githubTokenPattern u), assignmentPass u] := rfl

/-- The passes before the last one. -/
def plainPasses (u : Unicode) (secrets : List Text) : List Pass :=
  (exactPass u secrets).toList ++ [privateKeyPass, authorizationPass u, urlPass u,
    .whole (awsKeyPattern u), .whole (githubTokenPattern u)]

theorem passes_eq (u : Unicode) (secrets : List Text) :
    passes u secrets = plainPasses u secrets ++ [assignmentPass u] := by
  rw [passes, patterns_eq, plainPasses, List.append_assoc]
  rfl

/-! ## Texts without a match -/

def Settled (r : Expr) (text : Text) : Prop :=
  ∀ a b, text = a ++ b → r.run ⟨a.reverse, b, []⟩ = []

theorem run_of_settled {p : Pass} {text : Text} (h : Settled p.pattern.regex text) :
    p.run text = text := by
  apply Lib.Pattern.sub_of_matchAt_none
  intro a b hab
  rw [List.append_nil]
  exact Regex.matchAt_eq_none.2 (h a b hab)

/-- A match has a word in it that the pattern finds in every place with the same edges. -/
def Guarded (u : Unicode) (r : Expr) : Prop :=
  ∀ before rest, r.run ⟨before, rest, []⟩ ≠ [] → ∃ w t, rest = w ++ t ∧ Apart redacted w ∧
    w.head?.any u.isWord = true ∧
    ∀ before' t', SameEdge u.isWord before before' →
      (w.getLast?.any u.isWord = true → SameEdge u.isWord t t') →
      r.run ⟨before', w ++ t', []⟩ ≠ []

/-- What the pass cuts has no word character beside it. -/
def Walled (u : Unicode) (p : Pass) : Prop :=
  ∀ text es₁ es₂ a w b, p.edits text = es₁ ++ cut w.length :: es₂ → span es₁ = a.length →
    text = a ++ (w ++ b) → Clear u a.reverse b

/-- The character before a word that is left is the one that was there, if nothing is cut before
such a word. -/
theorem sameEdge_before {u : Unicode} {p : Pass} {text a w b left : Text} {es₁ es₂ : List Edit}
    (hcut : ∀ es₁ es₂ x y z, p.edits text = es₁ ++ cut y.length :: es₂ → span es₁ = x.length →
      text = x ++ (y ++ z) → z.head? ≠ w.head?)
    (hne : w ≠ []) (hes : p.edits text = es₁ ++ es₂) (htext : text = a ++ (w ++ b))
    (hspan : span es₁ = a.length) (hleft : apply redacted es₁ a = left) :
    SameEdge u.isWord left.reverse a.reverse := by
  rcases List.eq_nil_or_concat es₁ with rfl | ⟨es, e, rfl⟩
  · obtain rfl : a = [] := List.length_eq_zero_iff.1 hspan.symm
    rw [← hleft]
    rfl
  · rw [List.concat_eq_append] at hes hspan hleft
    rw [Edit.span_append] at hspan
    cases e with
    | keep =>
      obtain ⟨a', c, rfl⟩ : ∃ a' c, a = a' ++ [c] := by
        rcases List.eq_nil_or_concat a with rfl | ⟨a', c, rfl⟩
        · simp [span] at hspan
        · exact ⟨a', c, List.concat_eq_append⟩
      have hspan : span es = a'.length := by simpa [span] using hspan
      rw [Edit.apply_append _ _ _ _ _ hspan] at hleft
      rw [← hleft]
      simp [SameEdge, apply]
    | cut n =>
      obtain ⟨x, y, rfl, hx⟩ : ∃ x y, a = x ++ y ∧ span es = x.length := by
        refine ⟨a.take (span es), a.drop (span es), (List.take_append_drop _ _).symm, ?_⟩
        rw [List.length_take]
        omega
      have hy : n = y.length := by
        simp only [span, List.length_append] at hspan
        omega
      subst hy
      rw [List.append_assoc] at hes htext
      have hhead := hcut es _ x y (w ++ b) hes hx htext
      obtain ⟨c, w', rfl⟩ := List.exists_cons_of_ne_nil hne
      exact absurd rfl hhead

/-- The character behind a word that is left is the one that was there, if nothing is cut behind
such a word. -/
theorem sameEdge_after {u : Unicode} {p : Pass} {text a w b right : Text} {es₁ es₂ : List Edit}
    (hcut : ∀ es₁ es₂ x y z, p.edits text = es₁ ++ cut y.length :: es₂ → span es₁ = x.length →
      text = x ++ (y ++ z) → x.getLast? ≠ w.getLast?)
    (hne : w ≠ []) (hes : p.edits text = es₁ ++ es₂) (htext : text = a ++ (w ++ b))
    (hspan : span es₁ = (a ++ w).length) (hspan₂ : span es₂ = b.length)
    (hright : apply redacted es₂ b = right) : SameEdge u.isWord right b := by
  cases es₂ with
  | nil =>
    obtain rfl : b = [] := List.length_eq_zero_iff.1 hspan₂.symm
    rw [← hright]
    rfl
  | cons e es₂ =>
    cases e with
    | keep =>
      cases b with
      | nil => simp [span] at hspan₂
      | cons c b =>
        rw [← hright]
        rfl
    | cut n =>
      obtain ⟨y, z, rfl, rfl⟩ : ∃ y z, b = y ++ z ∧ n = y.length := by
        refine ⟨b.take n, b.drop n, (List.take_append_drop _ _).symm, ?_⟩
        rw [List.length_take]
        simp only [span] at hspan₂
        omega
      rw [← List.append_assoc] at htext
      have hlast := hcut es₁ es₂ (a ++ w) y z hes hspan htext
      rw [List.getLast?_append_of_ne_nil _ hne] at hlast
      exact absurd rfl hlast

/-- A word that is left has the edges it had. -/
theorem exists_kept {u : Unicode} {p : Pass} (hp : Walled u p) {text left w right : Text}
    (hw : Apart redacted w) (hfirst : w.head?.any u.isWord = true)
    (h : p.run text = left ++ (w ++ right)) :
    ∃ es₁ es₂ a b, p.edits text = es₁ ++ (List.replicate w.length keep ++ es₂) ∧
      text = a ++ (w ++ b) ∧ span es₁ = a.length ∧ SameEdge u.isWord left.reverse a.reverse ∧
      (w.getLast?.any u.isWord = true → SameEdge u.isWord right b) := by
  rw [p.run_eq_apply] at h
  obtain ⟨es₁, es₂, a, b, hes, htext, hspan₁, hspan₂, hleft, hright⟩ :=
    Edit.split_of_apply hw (p.span_edits text) h
  refine ⟨es₁, es₂, a, b, hes, htext, hspan₁, ?_, fun hlast => ?_⟩
  · refine sameEdge_before (fun es₁ es₂ x y z hes hspan htext heq => ?_) hw.ne_nil hes htext hspan₁
      hleft
    have hclear := (hp text es₁ es₂ x y z hes hspan htext).2
    rw [heq, hfirst] at hclear
    exact absurd hclear.symm Bool.false_ne_true
  · have hspan : span (es₁ ++ List.replicate w.length keep) = (a ++ w).length := by
      rw [Edit.span_append, Edit.span_keeps, hspan₁, List.length_append]
    rw [← List.append_assoc] at hes
    refine sameEdge_after (fun es₁ es₂ x y z hes hspan htext heq => ?_) hw.ne_nil hes htext hspan
      hspan₂ hright
    have hclear := (hp text es₁ es₂ x y z hes hspan htext).1
    rw [List.head?_reverse, heq, hlast] at hclear
    exact absurd hclear.symm Bool.false_ne_true

/-- A later pass makes no match. -/
theorem Settled.run {u : Unicode} {p : Pass} {r : Expr} {text : Text} (hp : Walled u p)
    (hr : Guarded u r) (h : Settled r text) : Settled r (p.run text) := by
  intro left rest hout
  by_contra hne
  obtain ⟨w, right, rfl, hapart, hfirst, hagain⟩ := hr _ _ hne
  obtain ⟨es₁, es₂, a, b, -, htext, -, hleft, hright⟩ := exists_kept hp hapart hfirst hout
  exact hagain a.reverse b hleft hright (h a (w ++ b) htext)

/-- Nor is a match left by the pass that replaces the matches. -/
theorem settled_whole {u : Unicode} {q : Lib.Pattern Nat Group} (hp : Walled u (.whole q))
    (hr : Guarded u q.regex) (text : Text) : Settled q.regex ((Pass.whole q).run text) := by
  intro left rest hout
  by_contra hne
  obtain ⟨w, right, rfl, hapart, hfirst, hagain⟩ := hr _ _ hne
  obtain ⟨es₁, es₂, a, b, hes, htext, hspan, hleft, hright⟩ := exists_kept hp hapart hfirst hout
  obtain ⟨c, w', rfl⟩ := List.exists_cons_of_ne_nil hapart.ne_nil
  rw [List.length_cons, List.replicate_succ, List.cons_append] at hes
  have hnone := Lib.Pattern.matchAt_of_keep hes hspan htext
  exact hagain a.reverse b hleft hright (Regex.matchAt_eq_none.1 hnone)

/-! ## Words between two edges -/

/-- A match is a long word of word characters, and no word goes on around it. -/
def WholeWord (u : Unicode) (r : Expr) : Prop :=
  ∀ s s', s' ∈ r.run s → ∃ w, Moves s w s' ∧ 10 < w.length ∧ (∀ c ∈ w, u.isWord c = true) ∧
    Clear u s.before s'.rest

theorem head_isWord {u : Unicode} {w : Text} (hne : w ≠ []) (hw : ∀ c ∈ w, u.isWord c = true) :
    w.head?.any u.isWord = true := by
  obtain ⟨c, w, rfl⟩ := List.exists_cons_of_ne_nil hne
  exact hw c List.mem_cons_self

theorem last_isWord {u : Unicode} {w : Text} (hne : w ≠ []) (hw : ∀ c ∈ w, u.isWord c = true) :
    w.getLast?.any u.isWord = true := by
  rw [List.getLast?_eq_some_getLast hne]
  exact hw _ (List.getLast_mem hne)

/-- A long text without brackets has nothing to do with the marker. -/
theorem apart_of_long {w : Text} (hlen : 10 < w.length) (hopen : 91 ∉ w) (hclose : 93 ∉ w) :
    Apart redacted w := by
  apply apart_redacted hopen hclose
  intro hin
  have := hin.length_le
  have hmark : redacted.length = 10 := rfl
  omega

theorem apart_of_isWord {u : Unicode} {w : Text} (hlen : 10 < w.length)
    (hw : ∀ c ∈ w, u.isWord c = true) : Apart redacted w := by
  apply apart_of_long hlen
  · intro hmem
    have := hw 91 hmem
    rw [isWord_punctuation u (by decide)] at this
    exact absurd this Bool.false_ne_true
  · intro hmem
    have := hw 93 hmem
    rw [isWord_punctuation u (by decide)] at this
    exact absurd this Bool.false_ne_true

theorem WholeWord.guarded {u : Unicode} {r : Expr} (hr : Carried u.isWord r)
    (h : WholeWord u r) : Guarded u r := by
  intro before rest hne
  obtain ⟨s', hs'⟩ := List.exists_mem_of_ne_nil _ hne
  obtain ⟨w, ⟨hrest, hbefore⟩, hlen, hw, -⟩ := h _ _ hs'
  have hwne : w ≠ [] := by
    rintro rfl
    simp at hlen
  obtain ⟨before₁, t, gs⟩ := s'
  have hgs : gs = [] := Regex.groups_run r (Regex.plain_of_carried hr) _ _ hs'
  simp only at hrest hbefore
  subst hrest hbefore hgs
  refine ⟨w, t, rfl, apart_of_isWord hlen hw, head_isWord hwne hw,
    fun before' t' hleft hright => ?_⟩
  have := Regex.carries_run r hr hleft (hright (last_isWord hwne hw)) hs'
  exact List.ne_nil_of_mem this

/-- What such a pass cuts. -/
theorem WholeWord.cut {u : Unicode} {q : Lib.Pattern Nat Group} (h : WholeWord u q.regex)
    {text a w b : Text} {es₁ es₂ : List Edit}
    (hes : (Pass.whole q).edits text = es₁ ++ cut w.length :: es₂) (hspan : span es₁ = a.length)
    (htext : text = a ++ (w ++ b)) :
    10 < w.length ∧ (∀ c ∈ w, u.isWord c = true) ∧ Clear u a.reverse b := by
  rcases Lib.Pattern.edits_cases (Pass.whole q).spells hes hspan htext with
    ⟨hkeep, -⟩ | ⟨x, y, m, fs₁, fs₂, rfl, hm, hfs, hfspan, -⟩
  · exact absurd hkeep (by simp)
  · -- the cut is the match
    have hone : [Edit.cut m.text.length] = fs₁ ++ Edit.cut w.length :: fs₂ := hfs
    obtain ⟨rfl, hlen⟩ : fs₁ = [] ∧ w.length = m.text.length := by
      cases fs₁ with
      | nil => exact ⟨rfl, by simpa [eq_comm] using (List.cons.inj hone).1⟩
      | cons e fs₁ => exact absurd (List.cons.inj hone).2 (by simp)
    obtain rfl : y = [] := List.length_eq_zero_iff.1 hfspan.symm
    obtain ⟨s', hs', hmoves, -⟩ := Regex.matchAt_eq_some hm
    obtain ⟨v, hv, hlong, hword, hclear⟩ := h _ _ hs'
    obtain rfl := hv.unique hmoves
    have hsplit : w ++ b = m.text ++ s'.rest := by simpa using hmoves.1
    obtain ⟨rfl, rfl⟩ := List.append_inj hsplit hlen
    rw [List.append_nil]
    exact ⟨hlong, hword, hclear⟩

theorem WholeWord.walled {u : Unicode} {q : Lib.Pattern Nat Group} (h : WholeWord u q.regex) :
    Walled u (.whole q) :=
  fun _ _ _ _ _ _ hes hspan htext => (h.cut hes hspan htext).2.2

theorem mem_run_edge {u : Unicode} {s s' : Regex.Pos Nat Group} (h : s' ∈ (edge u).run s) :
    s' = s ∧ s.before.head?.any u.isWord ≠ s.rest.head?.any u.isWord := by
  refine ⟨Regex.eq_of_mem_check h, fun heq => ?_⟩
  have hcheck : s' ∈ Regex.check (s.before.head?.any u.isWord != s.rest.head?.any u.isWord) s := h
  rw [heq, bne_self_eq_false] at hcheck
  exact absurd hcheck List.not_mem_nil

theorem clear_of_edges {u : Unicode} {s s' : Regex.Pos Nat Group} {w : Text} (hmoves : Moves s w s')
    (hne : w ≠ []) (hw : ∀ c ∈ w, u.isWord c = true)
    (hfirst : s.before.head?.any u.isWord ≠ s.rest.head?.any u.isWord)
    (hlast : s'.before.head?.any u.isWord ≠ s'.rest.head?.any u.isWord) :
    Clear u s.before s'.rest := by
  obtain ⟨hrest, hbefore⟩ := hmoves
  have hhead : s.rest.head?.any u.isWord = true := by
    obtain ⟨c, w', rfl⟩ := List.exists_cons_of_ne_nil hne
    rw [hrest]
    exact hw c List.mem_cons_self
  have hend : s'.before.head?.any u.isWord = true := by
    obtain ⟨c, w', hrev⟩ := List.exists_cons_of_ne_nil (mt List.reverse_eq_nil_iff.1 hne)
    rw [hbefore, hrev]
    exact hw c (List.mem_reverse.1 (hrev ▸ List.mem_cons_self))
  rw [hhead] at hfirst
  rw [hend] at hlast
  exact ⟨Bool.eq_false_iff.2 hfirst, Bool.eq_false_iff.2 (Ne.symm hlast)⟩

theorem isWord_alnum {u : Unicode} (hu : u.Tables) {c : Nat}
    (h : isLetter c = true ∨ isDigit c = true) : u.isWord c = true := by
  have hlt : c < 128 := by
    rcases h with h | h
    · simp only [isLetter, isUpper, isLower, Bool.or_eq_true, Bool.and_eq_true,
        decide_eq_true_eq] at h
      omega
    · simp only [isDigit, Bool.and_eq_true, decide_eq_true_eq] at h
      omega
  have halnum : u.isAlnum c = true := by
    rw [hu.alnum_ascii c hlt]
    rcases h with h | h
    · rw [h, Bool.true_or]
    · rw [h, Bool.or_true]
  rw [Unicode.isWord, halnum, Bool.true_or]

theorem isLetter_of_upper {c : Nat} (h : isUpper c = true) : isLetter c = true := by
  rw [isLetter, h, Bool.true_or]

theorem wholeWord_awsKey {u : Unicode} (hu : u.Tables) : WholeWord u (awsKey u) := by
  intro s s' h
  obtain ⟨s₁, h₁, h⟩ := List.mem_flatMap.1 h
  obtain ⟨s₂, h₂, h⟩ := List.mem_flatMap.1 h
  obtain ⟨s₃, h₃, h₄⟩ := List.mem_flatMap.1 h
  obtain ⟨rfl, hfirst⟩ := mem_run_edge h₁
  obtain ⟨w, hw, hlen, hchars⟩ := Regex.moves_times_one h₃
  obtain ⟨rfl, hlast⟩ := mem_run_edge h₄
  have hmoves : Moves s₁ (txt "AKIA" ++ w) s' := (Regex.moves_lit h₂).trans hw
  have hlong : 10 < (txt "AKIA" ++ w).length := by
    rw [List.length_append, hlen]
    decide
  have hword : ∀ c ∈ txt "AKIA" ++ w, u.isWord c = true := by
    intro c hc
    rcases List.mem_append.1 hc with hc | hc
    · have hupper : ∀ c ∈ txt "AKIA", isUpper c = true := by decide
      exact isWord_alnum hu (.inl (isLetter_of_upper (hupper c hc)))
    · have hc := hchars c hc
      rcases Bool.or_eq_true_iff.1 hc with hc | hc
      · exact isWord_alnum hu (.inr hc)
      · exact isWord_alnum hu (.inl (isLetter_of_upper hc))
  have hne : txt "AKIA" ++ w ≠ [] := List.append_ne_nil_of_left_ne_nil (by decide) w
  exact ⟨_, hmoves, hlong, hword, clear_of_edges hmoves hne hword hfirst hlast⟩

theorem wholeWord_githubToken {u : Unicode} (hu : u.Tables) : WholeWord u (githubToken u) := by
  intro s s' h
  obtain ⟨s₁, h₁, h⟩ := List.mem_flatMap.1 h
  obtain ⟨s₂, h₂, h⟩ := List.mem_flatMap.1 h
  obtain ⟨s₃, h₃, h⟩ := List.mem_flatMap.1 h
  obtain ⟨s₄, h₄, h⟩ := List.mem_flatMap.1 h
  obtain ⟨s₅, h₅, h⟩ := List.mem_flatMap.1 h
  obtain ⟨s₆, h₆, h₇⟩ := List.mem_flatMap.1 h
  obtain ⟨rfl, hfirst⟩ := mem_run_edge h₁
  obtain ⟨kind, hkind, hm₃, -⟩ := Regex.moves_one h₃
  obtain ⟨sep, hsep, hm₄, -⟩ := Regex.moves_one h₄
  obtain ⟨w, hw, hlen, hchars⟩ := Regex.moves_times_one h₅
  obtain ⟨v, hv, hm₆, -⟩ := mem_run_many_one.1 h₆
  obtain ⟨rfl, hlast⟩ := mem_run_edge h₇
  let token := txt "gh" ++ ([kind] ++ ([sep] ++ (w ++ v)))
  have hmoves : Moves s₁ token s' :=
    (Regex.moves_lit h₂).trans (hm₃.trans (hm₄.trans (hw.trans hm₆)))
  have hlong : 10 < token.length := by
    simp only [token, List.length_append, hlen]
    omega
  have hchar : ∀ c, (isLetter c || isDigit c) = true → u.isWord c = true :=
    fun c hc => isWord_alnum hu (Bool.or_eq_true_iff.1 hc)
  have hword : ∀ c ∈ token, u.isWord c = true := by
    intro c hc
    simp only [token, List.mem_append, List.mem_singleton] at hc
    rcases hc with hc | rfl | rfl | hc | hc
    · have hletter : ∀ c ∈ txt "gh", (isLetter c || isDigit c) = true := by decide
      exact hchar c (hletter c hc)
    · have hletter : ∀ c ∈ txt "pousr", (isLetter c || isDigit c) = true := by decide
      exact hchar c (hletter c (by simpa using hkind))
    · obtain rfl : c = 95 := by
        have : c ∈ txt "_" := by simpa using hsep
        exact List.mem_singleton.1 this
      simp [Unicode.isWord]
    · exact hchar c (hchars c hc)
    · exact hchar c (hv c hc)
  have hne : token ≠ [] := List.append_ne_nil_of_left_ne_nil (by decide) _
  exact ⟨_, hmoves, hlong, hword, clear_of_edges hmoves hne hword hfirst hlast⟩

theorem carried_awsKey (u : Unicode) : Carried u.isWord (awsKey u) := by
  refine ⟨rfl, ?_, ?_, rfl⟩
  · exact ⟨trivial, trivial, trivial, trivial, trivial⟩
  · simp [Regex.times, Carried]

theorem carried_githubToken (u : Unicode) : Carried u.isWord (githubToken u) := by
  refine ⟨rfl, ?_, trivial, trivial, ?_, trivial, rfl⟩
  · exact ⟨trivial, trivial, trivial⟩
  · simp [Regex.times, Carried]

/-! ## The walls around a value -/

theorem isWord_sign {u : Unicode} (hu : u.Tables) {c : Nat} (h : c ∈ txt "=:@/,\x7d\\\"'") :
    u.isWord c = false := by
  have hkinds : ∀ c ∈ txt "=:@/,\x7d\\\"'",
      c < 128 ∧ (isLetter c || isDigit c) = false ∧ decide (c = 95) = false := by
    decide
  obtain ⟨hlt, hother, hund⟩ := hkinds c h
  rw [Unicode.isWord, hu.alnum_ascii c hlt, hother, hund]
  rfl

theorem isWord_space {u : Unicode} (hu : u.Tables) {c : Nat} (h : u.isSpace c = true) :
    u.isWord c = false := by
  have hund : decide (c = 95) = false := by
    apply decide_eq_false
    rintro rfl
    rw [u.space_printable 95 (by decide) (by decide)] at h
    exact absurd h Bool.false_ne_true
  rw [Unicode.isWord, hu.space_alnum c h, hund]
  rfl

theorem isWord_of_not_bare {u : Unicode} (hu : u.Tables) {c : Nat} (h : bareChar u c = false) :
    u.isWord c = false := by
  cases hs : u.isSpace c with
  | true => exact isWord_space hu hs
  | false =>
    have hmem : c ∈ txt "\"',\x7d\\" := by
      simpa [bareChar, hs] using h
    apply isWord_sign hu
    revert hmem
    simp [txt]
    omega

theorem mem_replicate_append {j : Nat} {e : Edit} {es fs₁ fs₂ : List Edit} {n : Nat}
    (h : List.replicate j keep ++ cut n :: es = fs₁ ++ e :: fs₂) (he : e ≠ keep)
    (hes : ∀ x ∈ es, x = keep) : fs₁ = List.replicate j keep ∧ e = cut n ∧ fs₂ = es := by
  rcases Lib.Pattern.mem_append_split h with ⟨gs, rfl, hgs⟩ | ⟨gs, hgs⟩
  · cases gs with
    | nil =>
      obtain ⟨hcut, rfl⟩ := List.cons.inj hgs
      exact ⟨List.append_nil _, hcut.symm, rfl⟩
    | cons g gs =>
      obtain ⟨-, htail⟩ := List.cons.inj hgs
      exact absurd (hes e (mem_of_split htail)) he
  · have hmem := mem_of_split hgs
    exact absurd (List.eq_of_mem_replicate hmem) he

theorem redactAssignment_cut {u : Unicode} (hu : u.Tables) {text a w b : Text}
    {es₁ es₂ : List Edit} (hes : (assignmentPass u).edits text = es₁ ++ cut w.length :: es₂)
    (hspan : span es₁ = a.length) (htext : text = a ++ (w ++ b)) :
    Clear u a.reverse b ∧ ∀ c ∈ b.head?, bareChar u c = false := by
  rcases Lib.Pattern.edits_cases (assignmentPass u).spells hes hspan htext with
    ⟨hkeep, -⟩ | ⟨x, y, m, fs₁, fs₂, rfl, hm, hfs, hfspan, -⟩
  · exact absurd hkeep (by simp)
  obtain ⟨name, quote, space, sign, space', value, after, hr, hrest⟩ := reading_of_matchAt hu hm
  have hmatch := matchAt_of_reading hu hr
  rw [← hrest] at hmatch
  obtain rfl := Option.some.inj (hm.symm.trans hmatch)
  have hother : (Group.pre == Group.val) = false := rfl
  have hedits : editsRedactAssignment ⟨name ++ gapText quote space sign space' ++ value,
      [(.val, value), (.pre, name ++ gapText quote space sign space')]⟩ =
        fs₁ ++ cut w.length :: fs₂ := hfs
  by_cases hmarked : redacted <:+: value
  · have hmem := mem_of_split hedits
    simp [editsRedactAssignment, Regex.Match.group, hmarked, List.mem_replicate] at hmem
  simp only [editsRedactAssignment, Regex.Match.group, List.lookup_cons, hother, hmarked, if_false,
    beq_self_eq_true, Option.getD_some] at hedits
  obtain ⟨rfl, hcut, -⟩ := mem_replicate_append hedits (by simp)
    fun e he => List.eq_of_mem_replicate he
  rw [Edit.span_keeps] at hfspan
  have hw : w.length = value.length - 2 * (openingQuote value).length := by simpa using hcut
  cases hr.value with
  | quoted q body after hq _ _ =>
    have hopen : openingQuote (q :: (body ++ [q])) = [q] := by simp [openingQuote, hq]
    have hlen : w.length = body.length := by
      rw [hw, hopen]
      simp
    rw [hopen] at hfspan
    -- the quotes stand around the cut
    have hsplit : y ++ (w ++ b) =
        (name ++ gapText quote space sign space' ++ [q]) ++ (body ++ q :: after) := by
      rw [hrest]
      simp
    obtain ⟨rfl, htail⟩ := List.append_inj hsplit hfspan.symm
    obtain ⟨rfl, rfl⟩ := List.append_inj htail hlen
    have hword : u.isWord q = false := isWord_punctuation u (by
      rcases quote_cases hq with rfl | rfl
      · decide
      · decide)
    refine ⟨⟨by simp [hword], by simp [hword]⟩, fun c hc => ?_⟩
    obtain rfl : q = c := by simpa using hc
    exact not_bareChar_quote hq
  | bare value after hne hbare hend =>
    obtain ⟨c, rest, rfl⟩ := List.exists_cons_of_ne_nil hne
    have hc : c ∉ txt "\"'" := by
      intro hq
      have := hbare c List.mem_cons_self
      rw [not_bareChar_quote hq] at this
      exact absurd this Bool.false_ne_true
    have hopen : openingQuote (c :: rest) = [] := by simp [openingQuote, hc]
    have hlen : w.length = (c :: rest).length := by
      rw [hw, hopen]
      simp
    rw [hopen, List.append_nil] at hfspan
    have hsplit : y ++ (w ++ b) =
        (name ++ gapText quote space sign space') ++ ((c :: rest) ++ after) := by
      rw [hrest]
      simp
    obtain ⟨rfl, htail⟩ := List.append_inj hsplit hfspan.symm
    obtain ⟨rfl, rfl⟩ := List.append_inj htail hlen
    -- before the value is the sign or white space
    have hgap : ∀ d ∈ (gapText quote space sign space').reverse.head?, u.isWord d = false := by
      intro d hd
      rcases List.eq_nil_or_concat space' with hnil | ⟨sp, e, hsp⟩
      · obtain rfl : sign = d := by
          rw [hnil] at hd
          simpa [gapText] using hd
        apply isWord_sign hu
        have hsign := hr.gap.sign
        revert hsign
        simp [txt]
        omega
      · obtain rfl : e = d := by
          rw [hsp] at hd
          simpa [gapText] using hd
        apply isWord_space hu
        exact hr.gap.space' e (by rw [hsp]; simp)
    have hgne : gapText quote space sign space' ≠ [] := by simp [gapText]
    refine ⟨⟨?_, ?_⟩, hend⟩
    · obtain ⟨d, rev, hrev⟩ := List.exists_cons_of_ne_nil (mt List.reverse_eq_nil_iff.1 hgne)
      have := hgap d (by rw [hrev]; rfl)
      simp [hrev, this]
    · cases b with
      | nil => rfl
      | cons d b => exact isWord_of_not_bare hu (hend d rfl)

theorem walled_assignmentPass {u : Unicode} (hu : u.Tables) : Walled u (assignmentPass u) :=
  fun _ _ _ _ _ _ hes hspan htext => (redactAssignment_cut hu hes hspan htext).1

/-! ## Private keys -/

def isLabelChar (c : Nat) : Bool := isUpper c || isDigit c || c = 32

/-- The line that a private key begins with. -/
def keyHeader (label : Text) : Text :=
  txt "-----BEGIN " ++ (label ++ txt "PRIVATE KEY-----")

def NoKey (text : Text) : Prop :=
  ∀ label, (∀ c ∈ label, isLabelChar c = true) → ¬ keyHeader label <:+: text

theorem privateKeyLabel_eq :
    privateKeyLabel = .seq (.many (.one isLabelChar)) (lits "PRIVATE KEY-----") := rfl

theorem privateKey_eq : privateKey = .seq (lits "-----BEGIN ") (.seq privateKeyLabel
    (.seq (.manyLazy (.one fun _ => true))
      (.alt (.seq (lits "-----END ") privateKeyLabel) .atEnd))) :=
  rfl

theorem exists_keyHeader {before rest : Text} (h : privateKey.run ⟨before, rest, []⟩ ≠ []) :
    ∃ label t, (∀ c ∈ label, isLabelChar c = true) ∧ rest = keyHeader label ++ t := by
  obtain ⟨s', hs'⟩ := List.exists_mem_of_ne_nil _ h
  rw [privateKey_eq] at hs'
  obtain ⟨s₁, h₁, hs'⟩ := List.mem_flatMap.1 hs'
  obtain ⟨s₂, h₂, -⟩ := List.mem_flatMap.1 hs'
  rw [privateKeyLabel_eq] at h₂
  obtain ⟨s₃, h₃, h₂⟩ := List.mem_flatMap.1 h₂
  obtain ⟨label, hlabel, hmoves, -⟩ := mem_run_many_one.1 h₃
  refine ⟨label, s₂.rest, hlabel, ?_⟩
  have hrest : rest = txt "-----BEGIN " ++ s₁.rest := (Regex.moves_lit h₁).1
  have hrest₁ : s₁.rest = label ++ s₃.rest := hmoves.1
  have hrest₃ : s₃.rest = txt "PRIVATE KEY-----" ++ s₂.rest := (Regex.moves_lit h₂).1
  rw [hrest, hrest₁, hrest₃]
  simp [keyHeader]

/-- A key that has begun goes on to the end of the text at the latest. -/
theorem run_privateKey_ne_nil {label : Text} (hlabel : ∀ c ∈ label, isLabelChar c = true)
    (before t : Text) : privateKey.run ⟨before, keyHeader label ++ t, []⟩ ≠ [] := by
  let b₁ := (txt "-----BEGIN ").reverse ++ before
  let b₂ := label.reverse ++ b₁
  let b₃ := (txt "PRIVATE KEY-----").reverse ++ b₂
  have hassoc : keyHeader label ++ t =
      txt "-----BEGIN " ++ (label ++ (txt "PRIVATE KEY-----" ++ t)) := by
    simp [keyHeader]
  have hbegin : (⟨b₁, label ++ (txt "PRIVATE KEY-----" ++ t), []⟩ : Regex.Pos Nat Group) ∈
      (lits "-----BEGIN " : Expr).run
        ⟨before, txt "-----BEGIN " ++ (label ++ (txt "PRIVATE KEY-----" ++ t)), []⟩ := by
    rw [lits, Regex.run_lit]
    exact List.mem_singleton_self _
  have hname : (⟨b₂, txt "PRIVATE KEY-----" ++ t, []⟩ : Regex.Pos Nat Group) ∈
      (Regex.many (.one isLabelChar) : Expr).run ⟨b₁, label ++ (txt "PRIVATE KEY-----" ++ t), []⟩ :=
    mem_run_many_one.2 ⟨label, hlabel, ⟨rfl, rfl⟩, rfl⟩
  have hkind : (⟨b₃, t, []⟩ : Regex.Pos Nat Group) ∈
      (lits "PRIVATE KEY-----" : Expr).run ⟨b₂, txt "PRIVATE KEY-----" ++ t, []⟩ := by
    rw [lits, Regex.run_lit]
    exact List.mem_singleton_self _
  have hbody : (⟨t.reverse ++ b₃, [], []⟩ : Regex.Pos Nat Group) ∈
      (Regex.manyLazy (.one fun _ => true) : Expr).run ⟨b₃, t, []⟩ := by
    apply (Regex.mem_againLazy _ _ _).2
    exact mem_run_many_one.2 ⟨t, fun _ _ => rfl, ⟨by simp, rfl⟩, rfl⟩
  have hend : (⟨t.reverse ++ b₃, [], []⟩ : Regex.Pos Nat Group) ∈
      (Regex.alt (.seq (lits "-----END ") privateKeyLabel) .atEnd : Expr).run
        ⟨t.reverse ++ b₃, [], []⟩ :=
    List.mem_append_right _ (List.mem_singleton_self _)
  rw [hassoc, privateKey_eq]
  apply List.ne_nil_of_mem
  exact List.mem_flatMap.2 ⟨_, hbegin, List.mem_flatMap.2 ⟨_, List.mem_flatMap.2 ⟨_, hname, hkind⟩,
    List.mem_flatMap.2 ⟨_, hbody, hend⟩⟩⟩

theorem apart_keyHeader {label : Text} (hlabel : ∀ c ∈ label, isLabelChar c = true) :
    Apart redacted (keyHeader label) := by
  have hopen : 91 ∉ label := fun h => absurd (hlabel 91 h) (by decide)
  have hclose : 93 ∉ label := fun h => absurd (hlabel 93 h) (by decide)
  apply apart_of_long
  · have hbegin : (txt "-----BEGIN ").length = 11 := rfl
    rw [keyHeader, List.length_append, hbegin]
    omega
  · simp [keyHeader, txt, hopen]
  · simp [keyHeader, txt, hclose]

theorem NoKey.settled {text : Text} (h : NoKey text) : Settled privateKey text := by
  intro a b hab
  by_contra hne
  obtain ⟨label, t, hlabel, rfl⟩ := exists_keyHeader hne
  exact h label hlabel ⟨a, t, by rw [hab, List.append_assoc]⟩

theorem NoKey.run {text : Text} (h : NoKey text) (p : Pass) : NoKey (p.run text) :=
  fun label hlabel hin => h label hlabel (p.infix_of_infix_run (apart_keyHeader hlabel) hin)

theorem noKey_privateKeyPass (text : Text) : NoKey (privateKeyPass.run text) := by
  rintro label hlabel ⟨left, right, hout⟩
  have hapart := apart_keyHeader hlabel
  rw [privateKeyPass.run_eq_apply, List.append_assoc] at hout
  obtain ⟨es₁, es₂, a, b, hes, htext, hspan, -⟩ :=
    Edit.split_of_apply hapart (privateKeyPass.span_edits text) hout.symm
  obtain ⟨c, w, hw⟩ := List.exists_cons_of_ne_nil hapart.ne_nil
  rw [hw, List.length_cons, List.replicate_succ, List.cons_append] at hes
  have hnone := Lib.Pattern.matchAt_of_keep hes hspan htext
  exact run_privateKey_ne_nil hlabel a.reverse b (Regex.matchAt_eq_none.1 hnone)

/-! ## The exact secrets -/

theorem settled_exactPass {u : Unicode} {secrets : List Text} {p : Pass} {text : Text}
    (hp : exactPass u secrets = some p)
    (h : ∀ v ∈ forms u secrets, plainSubstringLen ≤ v.length ∧ ¬ v <:+: text) :
    Settled p.pattern.regex text := by
  unfold exactPass exactRegex at hp
  split at hp
  · exact absurd hp (by simp)
  · rename_i w ws hforms
    obtain rfl := Option.some.inj hp
    intro a b hab
    apply Regex.run_alts_eq_nil
    intro t ht
    obtain ⟨v, hv, rfl⟩ := List.mem_map.1 (by simpa using ht : t ∈ (w :: ws).map (formRegex u))
    obtain ⟨hlong, hout⟩ := h v (hforms ▸ hv)
    rw [formRegex, if_pos hlong]
    apply Regex.run_lit_eq_nil
    intro hpre
    exact hout (hpre.isInfix.trans ⟨a, [], by rw [hab, List.append_nil]⟩)

end AnsiDeck.Scrub
