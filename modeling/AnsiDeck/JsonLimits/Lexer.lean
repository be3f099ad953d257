import AnsiDeck.JsonLimits
import Mathlib.Algebra.Ring.Parity
import Mathlib.Order.Bounds.Defs

/-!
# The scan and a lexer see the same strings

The regular expression jumps over a string at once; a lexer reads it a byte at a time. Both are held
to what a string is: from a quote to the first one that no odd number of backslashes stands before,
or to the end (`Lexed`). So the scan climbs as high as the brackets outside of strings nest,
whatever the bytes are (`nestingDepth_lexes`).
-/

namespace AnsiDeck

namespace JsonLimits

open Lib (Regex)

/-- Where the scan is: outside of strings, in one, or after a backslash in one. -/
inductive Scan
  | outside
  | inside
  | escaped
  deriving DecidableEq

def Scan.next : Scan → Nat → Scan
  | .outside, c => if c = 34 then .inside else .outside
  | .inside, c => if c = 34 then .outside else if c = 92 then .escaped else .inside
  | .escaped, _ => .inside

/-- The bytes outside of strings, one after another. A string runs to its closing quote or to the
end. -/
def withoutStrings : Scan → List Nat → List Nat
  | _, [] => []
  | st, c :: s =>
    if st = .outside ∧ c ≠ 34 then c :: withoutStrings (st.next c) s
    else withoutStrings (st.next c) s

theorem withoutStrings_outside {c : Nat} (h : c ≠ 34) (s : List Nat) :
    withoutStrings .outside (c :: s) = c :: withoutStrings .outside s := by
  rw [withoutStrings, if_pos ⟨rfl, h⟩, Scan.next, if_neg h]

theorem withoutStrings_skip {st : Scan} {c : Nat} (h : st ≠ .outside ∨ c = 34) (s : List Nat) :
    withoutStrings st (c :: s) = withoutStrings (st.next c) s := by
  rw [withoutStrings, if_neg]
  rintro ⟨hst, hc⟩
  rcases h with h | h
  · exact h hst
  · exact hc h

theorem le_highest (n : Int) (s : List Nat) : n ≤ highest n s := by
  cases s with
  | nil => exact Int.le_refl n
  | cons c s => exact Int.le_max_left ..

/-! ## The regular expression -/

/-- What comes after a string's last part: its closing quote, or nothing. -/
def AtClose (s : List Nat) : Prop := ∀ c ∈ s.head?, c = 34

theorem run_stringPart_plain {c : Nat} (hquote : c ≠ 34) (hslash : c ≠ 92) (before t : List Nat)
    (groups : List (Empty × List Nat)) :
    Regex.run stringPart ⟨before, c :: t, groups⟩ = [⟨c :: before, t, groups⟩] := by
  simp [stringPart, Regex.run, hquote, hslash]

theorem run_stringPart_escape (before t : List Nat) (groups : List (Empty × List Nat)) :
    (Regex.run stringPart ⟨before, 92 :: t, groups⟩).head? =
      some ⟨(92 :: t.take 1).reverse ++ before, t.drop 1, groups⟩ := by
  cases t with
  | nil => rfl
  | cons d t => rfl

theorem run_stringPart_close {s : Regex.Pos Nat Empty} (h : AtClose s.rest) :
    Regex.run stringPart s = [] := by
  obtain ⟨before, rest, groups⟩ := s
  cases rest with
  | nil => rfl
  | cons c t =>
    obtain rfl : c = 34 := h c rfl
    rfl

/-- The parts of a string, as many as there are, are what the lexer passes over up to the closing
quote. -/
theorem again_stringPart (n : Nat) (s : Regex.Pos Nat Empty) (h : s.rest.length ≤ n) :
    ∃ s', (Regex.again (Regex.run stringPart) n s).head? = some s' ∧ AtClose s'.rest ∧
      withoutStrings .inside s.rest = withoutStrings .inside s'.rest := by
  induction n generalizing s with
  | zero =>
    have hnil : s.rest = [] := List.length_eq_zero_iff.1 (Nat.le_zero.1 h)
    refine ⟨s, rfl, fun c hc => ?_, rfl⟩
    rw [hnil] at hc
    cases hc
  | succ n ih =>
    obtain ⟨before, rest, groups⟩ := s
    by_cases hclose : AtClose rest
    · exact ⟨_, by rw [Regex.again_stop (run_stringPart_close hclose)]; rfl, hclose, rfl⟩
    cases rest with
    | nil => exact absurd (fun c hc => (by cases hc)) hclose
    | cons c t =>
      have hquote : c ≠ 34 := fun hc => hclose fun d hd => by
        cases hd
        exact hc
      have hlen : t.length ≤ n := Nat.le_of_succ_le_succ h
      have hscan : withoutStrings .inside (c :: t) = withoutStrings (Scan.inside.next c) t :=
        withoutStrings_skip (.inl (by decide)) t
      by_cases hslash : c = 92
      -- an escape takes the next byte along, whichever it is, and a last backslash stands alone
      · subst hslash
        obtain ⟨s', hs', hclose', hsame⟩ :=
          ih ⟨(92 :: t.take 1).reverse ++ before, t.drop 1, groups⟩ (by simp; omega)
        refine ⟨s', Regex.again_turn (run_stringPart_escape before t groups) ?_ hs', hclose', ?_⟩
        · show (t.drop 1).length < t.length + 1
          rw [List.length_drop]
          omega
        · rw [← hsame, hscan]
          cases t with
          | nil => rfl
          | cons d t => exact withoutStrings_skip (.inl (by decide)) t
      · obtain ⟨s', hs', hclose', hsame⟩ := ih ⟨c :: before, t, groups⟩ hlen
        have hrun := run_stringPart_plain hquote hslash before t groups
        refine ⟨s', Regex.again_turn (by rw [hrun]; rfl) (Nat.lt_succ_self _) hs', hclose', ?_⟩
        rw [← hsame, hscan, Scan.next, if_neg hquote, if_neg hslash]

theorem run_close {s : Regex.Pos Nat Empty} (h : AtClose s.rest) :
    ∃ s', Regex.run (.alt (.one (· = 34)) .atEnd) s = [s'] ∧
      withoutStrings .inside s.rest = withoutStrings .outside s'.rest := by
  obtain ⟨before, rest, groups⟩ := s
  cases rest with
  | nil => exact ⟨_, rfl, rfl⟩
  | cons c t =>
    obtain rfl : c = 34 := h c rfl
    exact ⟨⟨34 :: before, t, groups⟩, rfl, withoutStrings_skip (.inl (by decide)) t⟩

/-- A match is a whole string, up to where the lexer leaves it. -/
theorem matchAt_strings (before s : List Nat) :
    ∃ m w rest, strings.regex.matchAt before (34 :: s) = some m ∧ m.text = 34 :: w ∧
      s = w ++ rest ∧ withoutStrings .inside s = withoutStrings .outside rest := by
  obtain ⟨s', hparts, hclose, hinside⟩ :=
    again_stringPart s.length ⟨34 :: before, s, []⟩ (Nat.le_refl _)
  obtain ⟨p, hp, houtside⟩ := run_close hclose
  have hrun : Regex.run strings.regex ⟨before, 34 :: s, []⟩ = [p] := by
    have htake : Regex.run (.possessive stringPart) (⟨34 :: before, s, []⟩ : Regex.Pos Nat Empty) =
        [s'] := by
      obtain ⟨ss, hss⟩ := List.head?_eq_some_iff.1 hparts
      show (Regex.again (Regex.run stringPart) s.length _).take 1 = [s']
      rw [hss]
      rfl
    show ([⟨34 :: before, s, []⟩] : List (Regex.Pos Nat Empty)).flatMap _ = [p]
    rw [List.flatMap_singleton, Regex.run, htake, List.flatMap_singleton, hp]
  obtain ⟨w, hw⟩ := Regex.moves_run strings.regex ⟨before, 34 :: s, []⟩ p
    (by rw [hrun]; exact List.mem_singleton_self p)
  have hmatch : strings.regex.matchAt before (34 :: s) = some ⟨w, p.groups⟩ := by
    rw [Regex.matchAt, hrun, List.head?_cons, Option.map_some, hw.upTo_eq]
  obtain ⟨rest, hne, hrest⟩ := Lib.Pattern.text_of_matchAt hmatch
  cases w with
  | nil => exact absurd rfl hne
  | cons c w =>
    obtain ⟨hc, hsplit⟩ := List.cons.inj hw.1
    subst hc
    exact ⟨_, w, p.rest, hmatch, rfl, hsplit, hinside.trans houtside⟩

theorem matchAt_strings_none {c : Nat} (h : c ≠ 34) (before s : List Nat) :
    strings.regex.matchAt before (c :: s) = none := by
  simp [Regex.matchAt, strings, Regex.run, h]

theorem subFrom_strings (n : Nat) (before s : List Nat) (h : s.length ≤ n) :
    strings.subFrom (fun _ => []) before s 0 = withoutStrings .outside s := by
  induction n generalizing before s with
  | zero =>
    obtain rfl : s = [] := List.length_eq_zero_iff.1 (Nat.le_zero.1 h)
    rfl
  | succ n ih =>
    cases s with
    | nil => rfl
    | cons c s =>
      have hlen : s.length ≤ n := Nat.le_of_succ_le_succ h
      by_cases hquote : c = 34
      -- the whole string goes at once, which is why the induction is on a bound of the length
      · subst hquote
        obtain ⟨m, w, rest, hmatch, htext, rfl, hscan⟩ := matchAt_strings before s
        rw [List.length_append] at hlen
        rw [Lib.Pattern.subFrom, hmatch, withoutStrings_skip (.inr rfl)]
        show [] ++ strings.subFrom _ (34 :: before) (w ++ rest) (m.text.length - 1)
          = withoutStrings .inside (w ++ rest)
        rw [htext, List.length_cons, Nat.add_sub_cancel, List.nil_append, Lib.Pattern.subFrom_skip,
          ih _ _ (by omega), hscan]
      · rw [Lib.Pattern.subFrom, matchAt_strings_none hquote, withoutStrings_outside hquote]
        exact congrArg _ (ih _ _ hlen)

theorem strings_sub (raw : List Nat) :
    strings.sub (fun _ => []) raw = withoutStrings .outside raw :=
  subFrom_strings raw.length [] raw (Nat.le_refl _)

/-! ## The lexer -/

/-- `in_string` and `escaped` as one, `depth` and `deepest`. -/
structure Lexer where
  scan : Scan
  depth : Int
  deepest : Int

def Lexer.read (l : Lexer) (byte : Nat) : Lexer :=
  match l.scan with
  | .escaped => { l with scan := .inside }
  | .inside =>
    if byte = 92 then { l with scan := .escaped }
    else if byte = 34 then { l with scan := .outside }
    else l
  | .outside =>
    if byte = 34 then { l with scan := .inside }
    else if byte = 91 ∨ byte = 123 then
      { l with depth := l.depth + 1, deepest := max l.deepest (l.depth + 1) }
    else if byte = 93 ∨ byte = 125 then { l with depth := l.depth - 1 }
    else l

/-- `_reference_depth` of the tests: JSON's own lexing, one byte at a time. -/
def referenceDepth (raw : List Nat) : Int := (raw.foldl Lexer.read ⟨.outside, 0, 0⟩).deepest

theorem read_skip {st : Scan} {c : Nat} (h : st ≠ .outside ∨ isBracket c = false) (d m : Int) :
    Lexer.read ⟨st, d, m⟩ c = ⟨st.next c, d, m⟩ := by
  cases st with
  | escaped => rfl
  | inside =>
    by_cases hslash : c = 92
    · subst hslash
      rfl
    · by_cases hquote : c = 34
      · subst hquote
        rfl
      · simp [Lexer.read, Scan.next, hslash, hquote]
  | outside =>
    have hbracket : isBracket c = false := h.resolve_left fun hst => hst rfl
    simp only [isBracket, Bool.or_eq_false_iff, decide_eq_false_iff_not] at hbracket
    by_cases hquote : c = 34
    · subst hquote
      rfl
    · simp [Lexer.read, Scan.next, hquote, hbracket]

theorem ne_of_isBracket {c : Nat} (h : isBracket c = true) : c ≠ 34 := by
  rintro rfl
  cases h

/-- A closing bracket leads no deeper than the lexer was. -/
theorem read_bracket {c : Nat} (h : isBracket c = true) {d m : Int} (hle : d ≤ m) :
    Lexer.read ⟨.outside, d, m⟩ c = ⟨.outside, d + delta c, max m (d + delta c)⟩ := by
  have hquote := ne_of_isBracket h
  simp only [isBracket, Bool.or_eq_true, decide_eq_true_eq] at h
  by_cases hopen : c = 91 ∨ c = 123
  · simp [Lexer.read, delta, hquote, hopen]
  · have hclose : c = 93 ∨ c = 125 := by omega
    have hmax : max m (d + -1) = m := by omega
    simp only [Lexer.read, delta, if_neg hquote, if_neg hopen, if_pos hclose, hmax]
    rfl

theorem deepest_foldl (raw : List Nat) : ∀ (st : Scan) (d m : Int), d ≤ m →
    (raw.foldl Lexer.read ⟨st, d, m⟩).deepest =
      max m (highest d ((withoutStrings st raw).filter isBracket)) := by
  induction raw with
  | nil =>
    intro st d m h
    show m = max m (highest d ((withoutStrings st []).filter isBracket))
    rw [withoutStrings, List.filter_nil, highest]
    omega
  | cons c raw ih =>
    intro st d m h
    rw [List.foldl_cons]
    by_cases hskip : st ≠ .outside ∨ c = 34
    · have hread : st ≠ .outside ∨ isBracket c = false := by
        rcases hskip with hst | rfl
        · exact .inl hst
        · exact .inr rfl
      rw [read_skip hread, withoutStrings_skip hskip]
      exact ih (st.next c) d m h
    · obtain ⟨hst, hquote⟩ : st = .outside ∧ c ≠ 34 := by simpa using hskip
      subst hst
      rw [withoutStrings_outside hquote, List.filter_cons]
      cases hbracket : isBracket c with
      | false =>
        rw [read_skip (.inr hbracket), if_neg (by decide), Scan.next, if_neg hquote]
        exact ih .outside d m h
      | true =>
        rw [read_bracket hbracket h, ih _ _ _ (Int.le_max_right ..), if_pos rfl, highest]
        have hle : d + delta c ≤ highest (d + delta c)
            ((withoutStrings .outside raw).filter isBracket) :=
          le_highest ..
        omega

theorem nestingDepth_reference (raw : List Nat) : nestingDepth raw = referenceDepth raw := by
  rw [nestingDepth, strings_sub, referenceDepth, deepest_foldl raw .outside 0 0 (Int.le_refl 0)]
  have hle := le_highest 0 ((withoutStrings .outside raw).filter isBracket)
  omega

/-! ## What a string is -/

/-- How many backslashes stand right before the end. -/
def backslashes (w : List Nat) : Nat := (w.reverse.takeWhile (· = 92)).length

/-- No quote in it ends the string: an odd number of backslashes stands before each. -/
def Open (body : List Nat) : Prop := ∀ w rest, body = w ++ 34 :: rest → Odd (backslashes w)

/-- The text, and what of it is outside of strings. -/
inductive Lexed : List Nat → List Nat → Prop
  | nil : Lexed [] []
  | byte {c : Nat} {s out : List Nat} : c ≠ 34 → Lexed s out → Lexed (c :: s) (c :: out)
  | string {body s out : List Nat} : Open body → Even (backslashes body) → Lexed s out →
      Lexed (34 :: (body ++ 34 :: s)) out
  | unterminated {body : List Nat} : Open body → Lexed (34 :: body) []

theorem backslashes_concat (w : List Nat) (c : Nat) :
    backslashes (w ++ [c]) = if c = 92 then backslashes w + 1 else 0 := by
  rw [backslashes, List.reverse_concat, List.takeWhile_cons]
  by_cases hc : c = 92
  · simp [hc, backslashes]
  · simp [hc]

theorem open_nil : Open [] := fun w rest h => absurd h (by simp)

theorem Open.left {body rest : List Nat} (h : Open (body ++ rest)) : Open body :=
  fun w more hw => h w (more ++ rest) (by rw [hw, List.append_assoc]; rfl)

theorem Open.concat {body : List Nat} (h : Open body) {c : Nat}
    (hc : c = 34 → Odd (backslashes body)) : Open (body ++ [c]) := by
  intro w rest hw
  rcases List.eq_nil_or_concat rest with rfl | ⟨rest, d, rfl⟩
  · obtain ⟨rfl, hquote⟩ := List.append_inj' hw rfl
    exact hc (List.cons.inj hquote).1
  · have hsplit : body ++ [c] = (w ++ 34 :: rest) ++ [d] := by
      rw [hw, List.concat_eq_append, List.append_assoc, List.cons_append]
    exact h w rest (List.append_inj' hsplit rfl).1

/-- In a string the lexer knows of the backslashes before it only whether they are an odd number. -/
theorem foldl_next {body : List Nat} (h : Open body) :
    body.foldl Scan.next .inside = if Odd (backslashes body) then .escaped else .inside := by
  induction body using List.reverseRecOn with
  | nil => rfl
  | append_singleton body c ih =>
    have hquote : c = 34 → Odd (backslashes body) := fun hc => h body [] (by rw [hc])
    rw [List.foldl_concat, ih h.left, backslashes_concat]
    -- after an odd number the byte is escaped, a backslash as well: it begins no escape of its own
    by_cases hodd : Odd (backslashes body)
    · have heven : ¬ Odd (if c = 92 then backslashes body + 1 else 0) := by
        split
        · exact fun hsucc => Nat.not_even_iff_odd.2 hodd
            (Nat.odd_add_one.1 hsucc |> Nat.not_odd_iff_even.1)
        · decide
      rw [if_pos hodd, if_neg heven]
      rfl
    · rw [if_neg hodd, Scan.next, if_neg fun hc => hodd (hquote hc)]
      by_cases hslash : c = 92
      · rw [if_pos hslash, if_pos hslash, if_pos (Nat.odd_add_one.2 hodd)]
      · rw [if_neg hslash, if_neg hslash, if_neg (by decide)]

theorem withoutStrings_open {body : List Nat} (h : Open body) (s : List Nat) :
    withoutStrings .inside (body ++ s) = withoutStrings (body.foldl Scan.next .inside) s := by
  induction body using List.reverseRecOn generalizing s with
  | nil => rfl
  | append_singleton body c ih =>
    have hinside : body.foldl Scan.next .inside ≠ .outside := by
      rw [foldl_next h.left]
      split
      · decide
      · decide
    rw [List.append_assoc, ih h.left, List.foldl_concat]
    exact withoutStrings_skip (.inl hinside) s

theorem Lexed.eq {raw out : List Nat} (h : Lexed raw out) : out = withoutStrings .outside raw := by
  induction h with
  | nil => rfl
  | byte hc _ ih => rw [withoutStrings_outside hc, ih]
  | @string body s out hopen heven _ ih =>
    have hscan := foldl_next hopen
    rw [if_neg (Nat.not_odd_iff_even.2 heven)] at hscan
    rw [withoutStrings_skip (.inr rfl)]
    show out = withoutStrings .inside (body ++ 34 :: s)
    rw [withoutStrings_open hopen, hscan, withoutStrings_skip (.inl (by decide))]
    exact ih
  | @unterminated body hopen =>
    rw [withoutStrings_skip (.inr rfl)]
    show [] = withoutStrings .inside body
    have hall := withoutStrings_open hopen []
    rw [List.append_nil] at hall
    rw [hall]
    cases body.foldl Scan.next .inside with
    | outside => rfl
    | inside => rfl
    | escaped => rfl

/-- The first quote that ends the string, if there is one. -/
theorem open_or_closed (s : List Nat) :
    Open s ∨ ∃ body rest, s = body ++ 34 :: rest ∧ Open body ∧ Even (backslashes body) := by
  induction s using List.reverseRecOn with
  | nil => exact .inl open_nil
  | append_singleton s c ih =>
    rcases ih with hopen | ⟨body, rest, rfl, hopen, heven⟩
    · by_cases hend : c = 34 ∧ Even (backslashes s)
      · exact .inr ⟨s, [], by rw [hend.1], hopen, hend.2⟩
      · exact .inl (hopen.concat fun hc => Nat.not_even_iff_odd.1 fun heven => hend ⟨hc, heven⟩)
    · exact .inr ⟨body, rest ++ [c], by rw [List.append_assoc]; rfl, hopen, heven⟩

theorem exists_lexed (n : Nat) (raw : List Nat) (h : raw.length ≤ n) : ∃ out, Lexed raw out := by
  induction n generalizing raw with
  | zero =>
    obtain rfl : raw = [] := List.length_eq_zero_iff.1 (Nat.le_zero.1 h)
    exact ⟨[], .nil⟩
  | succ n ih =>
    cases raw with
    | nil => exact ⟨[], .nil⟩
    | cons c s =>
      have hlen : s.length ≤ n := Nat.le_of_succ_le_succ h
      by_cases hquote : c = 34
      · subst hquote
        rcases open_or_closed s with hopen | ⟨body, rest, rfl, hopen, heven⟩
        · exact ⟨[], .unterminated hopen⟩
        · rw [List.length_append, List.length_cons] at hlen
          obtain ⟨out, hout⟩ := ih rest (by omega)
          exact ⟨out, .string hopen heven hout⟩
      · obtain ⟨out, hout⟩ := ih s hlen
        exact ⟨c :: out, .byte hquote hout⟩

theorem lexed_iff {raw out : List Nat} : Lexed raw out ↔ out = withoutStrings .outside raw := by
  refine ⟨Lexed.eq, fun h => ?_⟩
  obtain ⟨out', hout⟩ := exists_lexed raw.length raw (Nat.le_refl _)
  rw [h, ← hout.eq]
  exact hout

/-! ## How deep brackets nest -/

/-- The brackets that are open at the end. -/
def balance (s : List Nat) : Int :=
  (s.count 91 + s.count 123 : Nat) - (s.count 93 + s.count 125 : Nat)

theorem balance_bracket {c : Nat} (h : isBracket c = true) (s : List Nat) :
    balance (c :: s) = delta c + balance s := by
  simp only [isBracket, Bool.or_eq_true, decide_eq_true_eq] at h
  rcases h with ((rfl | rfl) | rfl) | rfl
  all_goals
    simp [balance, delta]
    omega

theorem balance_other {c : Nat} (h : isBracket c = false) (s : List Nat) :
    balance (c :: s) = balance s := by
  simp only [isBracket, Bool.or_eq_false_iff, decide_eq_false_iff_not] at h
  simp [balance, h]

theorem highest_isGreatest (s : List Nat) (n : Int) :
    IsGreatest {k | ∃ seen, seen <+: s ∧ k = n + balance seen}
    (highest n (s.filter isBracket)) := by
  induction s generalizing n with
  | nil =>
    refine ⟨⟨[], List.nil_prefix, (Int.add_zero n).symm⟩, ?_⟩
    rintro k ⟨seen, hseen, rfl⟩
    rw [List.prefix_nil.1 hseen]
    exact Int.le_of_eq (Int.add_zero n)
  | cons c s ih =>
    have hstep : ∃ d, highest n ((c :: s).filter isBracket)
          = max n (highest (n + d) (s.filter isBracket)) ∧
        ∀ seen, balance (c :: seen) = d + balance seen := by
      cases hbracket : isBracket c with
      | true => exact ⟨delta c, by rw [List.filter_cons, if_pos hbracket]; rfl,
          balance_bracket hbracket⟩
      | false =>
        refine ⟨0, ?_, fun seen => by rw [balance_other hbracket, Int.zero_add]⟩
        have hle := le_highest n (s.filter isBracket)
        rw [List.filter_cons, hbracket, if_neg Bool.false_ne_true, Int.add_zero]
        omega
    obtain ⟨d, hhighest, hbalance⟩ := hstep
    obtain ⟨⟨seen, hseen, hmax⟩, hall⟩ := ih (n + d)
    rw [hhighest]
    constructor
    · by_cases hle : highest (n + d) (s.filter isBracket) ≤ n
      · exact ⟨[], List.nil_prefix, by rw [Int.max_eq_left hle]; exact (Int.add_zero n).symm⟩
      · refine ⟨c :: seen, List.cons_prefix_cons.2 ⟨rfl, hseen⟩, ?_⟩
        rw [Int.max_eq_right (by omega), hmax, hbalance, Int.add_assoc]
    · rintro k ⟨seen', hseen', rfl⟩
      cases seen' with
      | nil => exact (Int.le_of_eq (Int.add_zero n)).trans (Int.le_max_left ..)
      | cons c' seen' =>
        obtain ⟨rfl, htail⟩ := List.cons_prefix_cons.1 hseen'
        have hle := hall ⟨seen', htail, rfl⟩
        rw [hbalance]
        omega

/-- **The scan is the lexer's depth.** -/
theorem nestingDepth_lexes (raw : List Nat) :
    nestingDepth raw = referenceDepth raw ∧
      ∃ outside, (∀ out, Lexed raw out ↔ out = outside) ∧
        IsGreatest {n | ∃ seen, seen <+: outside ∧ n = balance seen} (nestingDepth raw) := by
  refine ⟨nestingDepth_reference raw, withoutStrings .outside raw, fun out => lexed_iff, ?_⟩
  have hgreatest := highest_isGreatest (withoutStrings .outside raw) 0
  simp only [Int.zero_add] at hgreatest
  rw [nestingDepth, strings_sub]
  exact hgreatest

end JsonLimits

end AnsiDeck
