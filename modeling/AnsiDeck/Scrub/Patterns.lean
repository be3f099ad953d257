import AnsiDeck.Scrub.Forms

/-!
# `Scrubber.scrub_text`

The exact secrets first, then six patterns one after the other. Every pass is given with the edits
it makes: a proof that they spell its replacement comes with it, so what holds of edits holds of
every pass.
-/

namespace AnsiDeck.Scrub

open Lib
open Lib.Edit (span apply keep cut)

abbrev Found := Regex.Match Nat Group

/-! ## The replacements -/

def redact (_ : Found) : Text := redacted

def keepPrefix (m : Found) : Text := m.group .pre ++ redacted

/-- The quote a value begins with, if it does. -/
def openingQuote (value : Text) : Text :=
  match value with
  | [] => []
  | c :: _ => if c ∈ txt "\"'" then [c] else []

def redactAssignment (m : Found) : Text :=
  let value := m.group .val
  if redacted <:+: value then m.text
  else
    let quote := openingQuote value
    m.group .pre ++ quote ++ redacted ++ quote

/-! ## `_PATTERNS` -/

def isLetter (c : Nat) : Bool := isUpper c || isLower c

def oneOf {γ : Type} (s : String) : Regex Nat γ := .one (· ∈ txt s)

def lits {γ : Type} (s : String) : Regex Nat γ := .lit (txt s)

/-- Expressions one after the other. -/
def chain {γ : Type} : List (Regex Nat γ) → Regex Nat γ
  | [] => .empty
  | [r] => r
  | r :: rs => .seq r (chain rs)

def space (u : Unicode) : Expr := .one u.isSpace

def edge (u : Unicode) : Expr := .boundary u.isWord

/-- `[A-Z0-9 ]*PRIVATE KEY-----` -/
def privateKeyLabel : Expr :=
  .seq (.many (.one fun c => isUpper c || isDigit c || c = 32)) (lits "PRIVATE KEY-----")

def privateKey : Expr :=
  chain [lits "-----BEGIN ", privateKeyLabel, .manyLazy (.one fun _ => true),
    .alt (.seq (lits "-----END ") privateKeyLabel) .atEnd]

/-- A word under `(?i:...)`. -/
def anyCase (u : Unicode) (s : String) : Expr := .litBy u.sameLetter (txt s)

def isTokenChar (c : Nat) : Bool := isLetter c || isDigit c || c ∈ txt "._~+/=-"

def authorization (u : Unicode) : Expr :=
  .seq
    (.group .pre (chain [edge u, anyCase u "authorization", edge u, .many (space u), oneOf "=:",
      .many (space u), .alt (anyCase u "bearer") (anyCase u "basic"), .plus (space u)]))
    (.plus (.one isTokenChar))

def urlUser (u : Unicode) (c : Nat) : Bool := !(u.isSpace c) && c ∉ txt "/:@"
def urlPassword (u : Unicode) (c : Nat) : Bool := !(u.isSpace c) && c ∉ txt "/@"

def urlCredentials (u : Unicode) : Expr :=
  .seq (.group .pre (chain [lits "://", .plus (.one (urlUser u)), oneOf ":"]))
    (.seq (.plus (.one (urlPassword u))) (.ahead (oneOf "@")))

def awsKey (u : Unicode) : Expr :=
  chain [edge u, lits "AKIA", .times 16 (.one fun c => isDigit c || isUpper c), edge u]

def githubToken (u : Unicode) : Expr :=
  let char : Expr := .one fun c => isLetter c || isDigit c
  chain [edge u, lits "gh", oneOf "pousr", oneOf "_", .times 20 char, .many char, edge u]

def alnumChars : Text := txt "ABCDEFGHIJKLMNOPQRSTUVWXYZabcdefghijklmnopqrstuvwxyz0123456789"

/-- `[A-Za-z0-9]` under `(?i:...)`: a character of another case matches as well. -/
def alnumAnyCase (u : Unicode) (c : Nat) : Bool := alnumChars.any (u.sameLetter c)

/-- `[A-Za-z0-9_-]` under `(?i:...)`. -/
def nameChar (u : Unicode) (c : Nat) : Bool :=
  (alnumChars ++ txt "_-").any (u.sameLetter c)

/-- `file`, `path`, `dir`, `id` or `name` as a whole part of a name. -/
def locationPart (u : Unicode) : Expr :=
  .seq (.alts (anyCase u "file") [anyCase u "path", anyCase u "dir", anyCase u "id",
      anyCase u "name"])
    (.notAhead (.one (alnumAnyCase u)))

/-- A name with a secret-looking part, none of its later parts a location. -/
def secretName (u : Unicode) : Expr :=
  chain [.notBehind (nameChar u), .many (.one (nameChar u)),
    .alts (anyCase u "password") [anyCase u "passwd", anyCase u "secret", anyCase u "token",
      chain [anyCase u "api", .opt (oneOf "_-"), anyCase u "key"]],
    .many (chain [oneOf "_-", .notAhead (locationPart u), .plus (.one (alnumAnyCase u))]),
    .notAhead (.one (nameChar u))]

def quoted (q : Nat) : Expr :=
  chain [.one (· = q), .many (.one fun c => c ≠ q && c ≠ 92), .one (· = q)]

def bareChar (u : Unicode) (c : Nat) : Bool := !(u.isSpace c) && c ∉ txt "\"',\x7d\\"

def assignedValue (u : Unicode) : Expr :=
  .alts (quoted 34) [quoted 39, .plus (.one (bareChar u))]

def assignment (u : Unicode) : Expr :=
  .seq
    (.group .pre (chain [secretName u, .opt (oneOf "\"'"), .many (space u), oneOf "=:",
      .many (space u)]))
    (.group .val (assignedValue u))

/-! ## What each replacement edits -/

def editsKeepPrefix (m : Found) : List Edit :=
  List.replicate (m.group .pre).length keep ++ [cut (m.text.length - (m.group .pre).length)]

/-- The quotes stay; a value that holds the marker stays as it is. -/
def editsRedactAssignment (m : Found) : List Edit :=
  let value := m.group .val
  if redacted <:+: value then List.replicate m.text.length keep
  else
    let quote := openingQuote value
    List.replicate (m.group .pre ++ quote).length keep ++
      cut (value.length - 2 * quote.length) :: List.replicate quote.length keep

theorem spells_keepPrefix {r t : Expr} (ht : t.plain = true)
    (hsolid : 0 < (Regex.seq (.group .pre r) t).minLen) :
    Pattern.Spells ⟨.seq (.group .pre r) t, hsolid⟩ redacted keepPrefix editsKeepPrefix := by
  intro before rest m h
  obtain ⟨s, s', w, w', gs, htext, hs, hs', -, hgroups⟩ := Regex.matchAt_group_seq h
  have hpre : m.group .pre = w := by
    simp [Regex.Match.group, hgroups, Regex.groups_run t ht _ _ hs', hs]
  constructor
  · simp [editsKeepPrefix, hpre, htext, Edit.span_append, span]
  · simp only [keepPrefix, editsKeepPrefix, hpre, htext]
    rw [Edit.apply_append _ _ _ _ _ (Edit.span_keeps _), Edit.apply_keeps]
    simp [apply]

/-- A value is quoted or has no quote at its start. -/
inductive Assigned : Text → Prop
  | quoted (q : Nat) (body : Text) : q ∈ txt "\"'" → Assigned (q :: (body ++ [q]))
  | bare (c : Nat) (rest : Text) : c ∉ txt "\"'" → Assigned (c :: rest)

theorem assigned_quoted {q : Nat} (hq : q ∈ txt "\"'") {s s' : Regex.Pos Nat Group} {w : Text}
    (hs' : s' ∈ (quoted q).run s) (hw : Regex.Moves s w s') : Assigned w := by
  obtain ⟨s₁, hs₁, h⟩ := List.mem_flatMap.1 hs'
  obtain ⟨s₂, hs₂, h⟩ := List.mem_flatMap.1 h
  obtain ⟨a, ha, hmove, -⟩ := Regex.moves_one hs₁
  obtain ⟨body, hbody⟩ := Regex.moves_run _ _ _ hs₂
  obtain ⟨b, hb, hmove', -⟩ := Regex.moves_one h
  obtain rfl : a = q := by simpa using ha
  obtain rfl : b = a := by simpa using hb
  rw [hw.unique (hmove.trans (hbody.trans hmove'))]
  exact .quoted b body hq

theorem assigned_of_run {u : Unicode} {s s' : Regex.Pos Nat Group} {w : Text}
    (hs' : s' ∈ (assignedValue u).run s) (hw : Regex.Moves s w s') : Assigned w := by
  rcases List.mem_append.1 hs' with h | h
  · exact assigned_quoted (by decide) h hw
  · rcases List.mem_append.1 h with h | h
    · exact assigned_quoted (by decide) h hw
    · obtain ⟨s₁, hs₁, h⟩ := List.mem_flatMap.1 h
      obtain ⟨c, hc, hmove, -⟩ := Regex.moves_one hs₁
      obtain ⟨rest, hrest⟩ := Regex.moves_run _ _ _ h
      rw [hw.unique (hmove.trans hrest)]
      refine .bare c rest fun hq => ?_
      have : c ∉ txt "\"',\x7d\\" := by simpa [bareChar] using (Bool.and_eq_true_iff.1 hc).2
      exact this (by revert hq; simp [txt]; omega)

theorem assignment_groups {u : Unicode} {before rest : Text} {m : Found}
    (h : (assignment u).matchAt before rest = some m) :
    m.text = m.group .pre ++ m.group .val ∧ Assigned (m.group .val) := by
  obtain ⟨s, s', w, w', gs, htext, hs, hs', hmoves, hgroups⟩ := Regex.matchAt_group_seq h
  obtain ⟨s₁, hs₁, rfl⟩ := List.mem_map.1 hs'
  have hplain := Regex.groups_run (assignedValue u) rfl _ _ hs₁
  have hup : s.upTo s₁ = w' := Regex.Moves.upTo_eq hmoves
  have hval : m.group .val = w' := by simp [Regex.Match.group, hgroups, hup]
  have hother : (Group.pre == Group.val) = false := rfl
  have hpre : m.group .pre = w := by
    simp [Regex.Match.group, hgroups, hplain, hs, List.lookup_cons, hother]
  exact ⟨by rw [hpre, hval, htext], hval ▸ assigned_of_run hs₁ hmoves⟩

theorem spells_redactAssignment (u : Unicode) (hsolid : 0 < (assignment u).minLen) :
    Pattern.Spells ⟨assignment u, hsolid⟩ redacted redactAssignment editsRedactAssignment := by
  intro before rest m h
  obtain ⟨htext, hvalue⟩ := assignment_groups h
  by_cases hmarked : redacted <:+: m.group .val
  · simp [editsRedactAssignment, redactAssignment, hmarked, Edit.apply_keeps]
  · simp only [editsRedactAssignment, redactAssignment, hmarked, if_false, htext]
    generalize m.group .pre = pre
    generalize m.group .val = value at hvalue
    cases hvalue with
    | quoted q body hq =>
      have hopen : openingQuote (q :: (body ++ [q])) = [q] := by simp [openingQuote, hq]
      have hlen : (q :: (body ++ [q])).length - 2 * [q].length = body.length := by simp
      have hsplit : pre ++ q :: (body ++ [q]) = (pre ++ [q]) ++ (body ++ [q]) := by simp
      rw [hopen, hlen, hsplit]
      constructor
      · simp only [Edit.span_append, Edit.span_keeps, span, List.length_append, List.length_cons,
          List.length_nil, Nat.add_assoc, Nat.zero_add]
      · rw [Edit.apply_append _ _ _ _ _ (Edit.span_keeps _), Edit.apply_keeps]
        simp [apply]
    | bare c rest hc =>
      have hopen : openingQuote (c :: rest) = [] := by simp [openingQuote, hc]
      rw [hopen]
      constructor
      · simp [Edit.span_append, span]
      · simp only [List.append_nil]
        rw [Edit.apply_append _ _ _ _ _ (Edit.span_keeps _), Edit.apply_keeps]
        simp [apply]

/-! ## `scrub_text` -/

/-- An expression, what its matches are replaced by, and the edits that makes. -/
structure Pass where
  pattern : Pattern Nat Group
  repl : Found → Text
  each : Found → List Edit
  spells : pattern.Spells redacted repl each

def Pass.run (p : Pass) (text : Text) : Text := p.pattern.sub p.repl text

def Pass.edits (p : Pass) (text : Text) : List Edit := p.pattern.edits p.each text

/-- A pass that replaces whole matches by the marker. -/
def Pass.whole (p : Pattern Nat Group) : Pass where
  pattern := p
  repl := redact
  each := Pattern.cutWhole
  spells := p.spells_cutWhole redacted

theorem minLen_awsKey (u : Unicode) : (awsKey u).minLen = 20 := rfl
theorem minLen_githubToken (u : Unicode) : (githubToken u).minLen = 24 := rfl
theorem minLen_assignedValue (u : Unicode) : (assignedValue u).minLen = 1 := rfl

/-- `_PATTERNS` -/
def patterns (u : Unicode) : List Pass :=
  [.whole ⟨privateKey, by decide⟩,
    ⟨⟨authorization u, Regex.minLen_seq_pos (by decide)⟩, keepPrefix, editsKeepPrefix,
      spells_keepPrefix rfl _⟩,
    ⟨⟨urlCredentials u, Regex.minLen_seq_pos (by simp [Regex.minLen, Regex.plus])⟩, keepPrefix,
      editsKeepPrefix, spells_keepPrefix rfl _⟩,
    .whole ⟨awsKey u, by rw [minLen_awsKey]; decide⟩,
    .whole ⟨githubToken u, by rw [minLen_githubToken]; decide⟩,
    ⟨⟨assignment u, Regex.minLen_seq_pos (by simp [Regex.minLen, minLen_assignedValue])⟩,
      redactAssignment, editsRedactAssignment, spells_redactAssignment u _⟩]

def exactPass (u : Unicode) (secrets : List Text) : Option Pass :=
  (exactRegex u secrets).map .whole

/-- The exact secrets, where there are any, then the patterns. -/
def passes (u : Unicode) (secrets : List Text) : List Pass :=
  (exactPass u secrets).toList ++ patterns u

def scrubText (u : Unicode) (secrets : List Text) (text : Text) : Text :=
  (passes u secrets).foldl (fun text p => p.run text) text

/-! ## No pass makes a new word -/

theorem Pass.run_eq_apply (p : Pass) (text : Text) :
    p.run text = apply redacted (p.edits text) text :=
  Pattern.sub_eq_apply p.spells text

theorem Pass.span_edits (p : Pass) (text : Text) : span (p.edits text) = text.length :=
  Pattern.span_edits p.spells text

theorem Pass.infix_of_infix_run {p : Pass} {w text : Text} (hw : Edit.Apart redacted w)
    (h : w <:+: p.run text) : w <:+: text :=
  Pattern.infix_of_infix_sub p.spells hw h

theorem infix_of_infix_passes {w : Text} (hw : Edit.Apart redacted w) (ps : List Pass) :
    ∀ text, w <:+: ps.foldl (fun text p => p.run text) text → w <:+: text := by
  induction ps with
  | nil => exact fun text h => h
  | cons p ps ih => exact fun text h => p.infix_of_infix_run hw (ih _ h)

/-! ## What the exact pass keeps -/

/-- No word character directly before or after. -/
def Clear (u : Unicode) (before after : Text) : Prop :=
  before.head?.any u.isWord = false ∧ after.head?.any u.isWord = false

instance (u : Unicode) (before after : Text) : Decidable (Clear u before after) :=
  inferInstanceAs (Decidable (_ ∧ _))

theorem run_formRegex {u : Unicode} {v before rest : Text}
    (h : plainSubstringLen ≤ v.length ∨ Clear u before rest) :
    ∃ s', s' ∈ (formRegex u v).run ⟨before, v ++ rest, []⟩ := by
  refine ⟨⟨v.reverse ++ before, rest, []⟩, ?_⟩
  unfold formRegex
  split
  · exact Regex.run_lit v before rest [] ▸ List.mem_singleton_self _
  · rename_i hshort
    obtain ⟨hbefore, hrest⟩ := h.resolve_left hshort
    refine List.mem_flatMap.2 ⟨⟨before, v ++ rest, []⟩, ?_, ?_⟩
    · simp [Regex.run, Regex.check, hbefore]
    refine List.mem_flatMap.2
      ⟨_, Regex.run_lit v before rest [] ▸ List.mem_singleton_self _, ?_⟩
    cases rest with
    | nil => simp [Regex.run, Regex.check]
    | cons c rest =>
      have hc : u.isWord c = false := by simpa using hrest
      simp [Regex.run, Regex.check, hc]

/-- A registered form is found wherever it may be: a short one only as a whole word. -/
theorem exactPass_finds {u : Unicode} {secrets : List Text} {v : Text}
    (hv : v ∈ forms u secrets) :
    ∃ p, exactPass u secrets = some (.whole p) ∧ ∀ before rest,
      plainSubstringLen ≤ v.length ∨ Clear u before rest →
        p.regex.matchAt before (v ++ rest) ≠ none := by
  unfold exactPass exactRegex
  split
  · rename_i hnil
    exact absurd (hnil ▸ hv) List.not_mem_nil
  · rename_i w ws hforms
    refine ⟨_, rfl, fun before rest h => ?_⟩
    obtain ⟨s', hs'⟩ := run_formRegex (u := u) h
    have hmem : formRegex u v ∈ formRegex u w :: ws.map (formRegex u) := by
      rw [← List.map_cons, ← hforms]
      exact List.mem_map_of_mem hv
    exact Regex.matchAt_ne_none (Regex.mem_run_alts hmem hs')

/-- So the exact pass keeps no long form, and a short one only beside a word character. -/
theorem not_kept_of_mem_forms {u : Unicode} {secrets : List Text} {v : Text}
    (hv : v ∈ forms u secrets) :
    ∃ p, exactPass u secrets = some p ∧ ∀ es₁ es₂ a b,
      p.edits (a ++ (v ++ b)) = es₁ ++ (List.replicate v.length keep ++ es₂) →
      span es₁ = a.length → ¬ (plainSubstringLen ≤ v.length ∨ Clear u a.reverse b) := by
  obtain ⟨p, hp, hfinds⟩ := exactPass_finds hv
  refine ⟨_, hp, fun es₁ es₂ a b hes hspan h => hfinds a.reverse b h ?_⟩
  have hlen := length_of_mem_forms hv
  obtain ⟨n, hn⟩ : ∃ n, v.length = n + 1 :=
    Nat.exists_eq_succ_of_ne_zero (by simp only [minSecretLen] at hlen; omega)
  rw [hn, List.replicate_succ, List.cons_append] at hes
  exact Pattern.matchAt_of_keep hes hspan rfl

/-- What the form has no part of the marker in it. -/
theorem apart_redacted {v : Text} (hopen : 91 ∉ v) (hclose : 93 ∉ v) (hpart : ¬ v <:+: redacted) :
    Edit.Apart redacted v where
  marked := by decide
  first := by
    intro c hc
    obtain rfl : 91 = c := by simpa [redacted, txt] using hc
    exact hopen
  last := by
    intro c hc
    obtain rfl : 93 = c := by simpa [redacted, txt] using hc
    exact hclose
  part := hpart

/-- No long form is in a scrubbed text. -/
theorem not_infix_scrubText {u : Unicode} {secrets : List Text} {v : Text}
    (hv : v ∈ forms u secrets) (hlong : plainSubstringLen ≤ v.length)
    (hapart : Edit.Apart redacted v) (text : Text) : ¬ v <:+: scrubText u secrets text := by
  intro hin
  obtain ⟨p, hp, hkept⟩ := not_kept_of_mem_forms hv
  have hexact : v <:+: p.run text := by
    have := hin
    rw [scrubText, passes, hp] at this
    exact infix_of_infix_passes hapart (patterns u) _ this
  obtain ⟨left, right, hout⟩ := hexact
  rw [List.append_assoc, p.run_eq_apply] at hout
  obtain ⟨es₁, es₂, a, b, hes, rfl, hspan, -⟩ :=
    Edit.split_of_apply hapart (p.span_edits text) hout.symm
  exact hkept es₁ es₂ a b hes hspan (.inl hlong)

end AnsiDeck.Scrub
