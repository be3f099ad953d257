import AnsiDeck.JsonLimits.Lexer

/-!
# The scan and the reader see the same brackets

`peak` is the scan from somewhere in a text. Over a text it covers the depth of every value that the
reader reads from it, since both take the same strings out of it (`depth_le_peak`); and over UTF-8
it comes to the same as over the text that the bytes encode, since no byte of a longer character is
a quote, a backslash or a bracket (`peak_utf8`).
-/

namespace AnsiDeck

namespace JsonLimits

open Lib (Json Str)
open Lib.JsonText

def peak (st : Scan) (n : Int) (s : List Nat) : Int :=
  highest n ((withoutStrings st s).filter isBracket)

theorem nestingDepth_eq (raw : List Nat) : nestingDepth raw = peak .outside 0 raw := by
  rw [nestingDepth, strings_sub]
  rfl

theorem le_peak (st : Scan) (n : Int) (s : List Nat) : n ≤ peak st n s := le_highest ..

theorem peak_next {st : Scan} {c : Nat} (h : st ≠ .outside ∨ c = 34) (n : Int) (s : List Nat) :
    peak st n (c :: s) = peak (st.next c) n s := by
  rw [peak, withoutStrings, if_neg]
  · rfl
  · rintro ⟨hst, hc⟩
    rcases h with h | h
    · exact h hst
    · exact hc h

/-- What the scan passes over outside of strings. -/
def Plain (c : Nat) : Prop := c ≠ 34 ∧ isBracket c = false

instance : DecidablePred Plain := fun _ => inferInstanceAs (Decidable (_ ∧ _))

theorem peak_plain {c : Nat} (h : Plain c) (n : Int) (s : List Nat) :
    peak .outside n (c :: s) = peak .outside n s := by
  rw [peak, withoutStrings, if_pos ⟨rfl, h.1⟩, List.filter_cons, h.2]
  show highest n ((withoutStrings (if c = 34 then .inside else .outside) s).filter isBracket) = _
  rw [if_neg h.1, peak]

theorem peak_bracket {c : Nat} (h : isBracket c = true) (n : Int) (s : List Nat) :
    peak .outside n (c :: s) = max n (peak .outside (n + delta c) s) := by
  have hc : c ≠ 34 := by
    rintro rfl
    cases h
  rw [peak, withoutStrings, if_pos ⟨rfl, hc⟩, List.filter_cons, if_pos h]
  show max n (highest (n + delta c)
    ((withoutStrings (if c = 34 then .inside else .outside) s).filter isBracket)) = _
  rw [if_neg hc, peak]

theorem peak_append {w : Str} (h : ∀ c ∈ w, Plain c) (n : Int) (s : Str) :
    peak .outside n (w ++ s) = peak .outside n s := by
  induction w with
  | nil => rfl
  | cons c w ih =>
    rw [List.cons_append, peak_plain (h c (List.mem_cons_self ..)),
      ih fun x hx => h x (List.mem_cons_of_mem c hx)]

/-! ## What is no string, array or object -/

/-- `rest` is `s` without some of its first characters, which the scan passes over. -/
def Past (s rest : Str) : Prop := ∃ w, s = w ++ rest ∧ ∀ c ∈ w, Plain c

theorem Past.refl (s : Str) : Past s s := ⟨[], rfl, fun _ h => absurd h (List.not_mem_nil)⟩

theorem Past.trans {s t u : Str} (h : Past s t) (h' : Past t u) : Past s u := by
  obtain ⟨w, rfl, hw⟩ := h
  obtain ⟨w', rfl, hw'⟩ := h'
  refine ⟨w ++ w', (List.append_assoc ..).symm, fun c hc => ?_⟩
  rcases List.mem_append.1 hc with hc | hc
  · exact hw c hc
  · exact hw' c hc

theorem Past.peak_eq {s rest : Str} (h : Past s rest) (n : Int) :
    peak .outside n s = peak .outside n rest := by
  obtain ⟨w, rfl, hw⟩ := h
  exact peak_append hw n rest

theorem past_dropWhile {p : Nat → Bool} (hp : ∀ c, p c = true → Plain c) (s : Str) :
    Past s (s.dropWhile p) :=
  ⟨s.takeWhile p, List.takeWhile_append_dropWhile.symm, fun c hc =>
    hp c (List.mem_takeWhile_imp hc)⟩

theorem past_tail {s : Str} {c : Nat} (h : s.head? = some c) (hc : Plain c) : Past s s.tail :=
  ⟨[c], eq_cons_of_head? h, fun x hx => by rwa [List.mem_singleton.1 hx]⟩

theorem plain_of_isSpace {c : Nat} (h : isSpace c = true) : Plain c := by
  simp only [isSpace, Bool.or_eq_true, decide_eq_true_eq] at h
  rcases h with ((rfl | rfl) | rfl) | rfl
  · decide
  · decide
  · decide
  · decide

theorem plain_of_isDigit {c : Nat} (h : isDigit c = true) : Plain c := by
  simp only [isDigit, Bool.and_eq_true, decide_eq_true_eq] at h
  refine ⟨by omega, ?_⟩
  simp only [isBracket, Bool.or_eq_false_iff, decide_eq_false_iff_not]
  omega

theorem past_skip (s : Str) : Past s (skip s) := past_dropWhile (fun _ => plain_of_isSpace) s

theorem past_whole {s : Str} {r : Str × Str} (h : whole s = some r) : Past s r.2 := by
  rw [whole] at h
  split at h
  · next hs =>
    cases h
    exact past_tail hs (by decide)
  · dsimp only at h
    split at h
    · cases h
    · cases h
      exact past_dropWhile (fun _ => plain_of_isDigit) s

theorem past_fraction (s : Str) : Past s (fraction s).2 := by
  rw [fraction]
  split
  · next h =>
    exact (past_tail h.1 (by decide)).trans (past_dropWhile (fun _ => plain_of_isDigit) _)
  · exact Past.refl s

theorem past_unsigned (s : Str) : Past s (unsigned s) := by
  rw [unsigned]
  split
  · next h =>
    rcases h with h | h
    · exact past_tail h (by decide)
    · exact past_tail h (by decide)
  · exact Past.refl s

theorem past_exponent (s : Str) : Past s (exponent s).2 := by
  rw [exponent]
  split
  · next h =>
    have he : Past s s.tail := by
      rcases h.1 with h | h
      · exact past_tail h (by decide)
      · exact past_tail h (by decide)
    exact he.trans ((past_unsigned _).trans (past_dropWhile (fun _ => plain_of_isDigit) _))
  · exact Past.refl s

theorem past_number {d : Lib.Dialect} {s : Str} {r : Json × Str} (h : number d s = some r) :
    Past s r.2 := by
  obtain ⟨w, hw, h⟩ := Option.bind_eq_some_iff.1 h
  have hwhole : Past s w.2 := by
    split at hw
    · next hs => exact (past_tail hs (by decide)).trans (past_whole hw)
    · exact past_whole hw
  dsimp only at h
  split at h
  · split at h
    · cases h
      exact hwhole
    · cases h
  · cases h
    exact hwhole.trans ((past_fraction _).trans (past_exponent _))

theorem plain_of_mem_literals :
    ∀ {constants : Bool}, ∀ l ∈ literals constants, ∀ c ∈ l.1, Plain c := by decide

theorem past_literal {constants : Bool} {s : Str} {r : Json × Str}
    (h : literal constants s = some r) : Past s r.2 := by
  obtain ⟨l, hl, rfl⟩ := Option.map_eq_some_iff.1 h
  have hpre : l.1.isPrefixOf s = true := by simpa using List.find?_some hl
  obtain ⟨rest, rfl⟩ := List.isPrefixOf_iff_prefix.1 hpre
  refine ⟨l.1, ?_, plain_of_mem_literals l (List.mem_of_find?_eq_some hl)⟩
  rw [List.drop_left]

/-! ## Strings -/

/-- Where the scan is while the reader is in a string. -/
def ofWithin : Within → Scan
  | .plain | .hex _ _ => .inside
  | .escape => .escaped

theorem next_inside {c : Nat} (hquote : c ≠ 34) (hslash : c ≠ 92) :
    Scan.inside.next c = .inside := by
  rw [Scan.next, if_neg hquote, if_neg hslash]

theorem next_inside_of_hexDigit {c d : Nat} (h : hexDigit c = some d) :
    Scan.inside.next c = .inside := by
  apply next_inside
  · rintro rfl
    cases h
  · rintro rfl
    cases h

theorem peak_inside (n : Int) (c : Nat) (s : Str) :
    peak .inside n (c :: s) = peak (Scan.inside.next c) n s :=
  peak_next (.inl (by decide)) n s

theorem peak_escaped (n : Int) (c : Nat) (s : Str) :
    peak .escaped n (c :: s) = peak .inside n s :=
  peak_next (.inl (by decide)) n s

/-- They leave a string at the same quote. -/
theorem peak_units (n : Int) {w : Within} {s : Str} :
    ∀ {r : List (Nat × Bool) × Str}, units w s = some r →
      peak (ofWithin w) n s = peak .outside n r.2 := by
  fun_induction units w s with
  | case1 =>
    intro r h
    cases h
  | case2 s =>
    intro r h
    cases h
    exact peak_inside n 34 s
  | case3 s _ ih =>
    intro r h
    exact (peak_inside n 92 s).trans (ih h)
  | case4 =>
    intro r h
    cases h
  | case5 c s hquote hslash _ ih =>
    intro r h
    obtain ⟨r', hr', rfl⟩ := Option.map_eq_some_iff.1 h
    have hrest := ih hr'
    show peak .inside n (c :: s) = _
    rw [peak_inside, next_inside hquote hslash]
    exact hrest
  | case6 s ih =>
    intro r h
    exact (peak_escaped n 117 s).trans (ih h)
  | case7 c s _ ih =>
    intro r h
    obtain ⟨u, -, h⟩ := Option.bind_eq_some_iff.1 h
    obtain ⟨r', hr', rfl⟩ := Option.map_eq_some_iff.1 h
    have hrest := ih hr'
    exact (peak_escaped n c s).trans hrest
  | case8 left value c s ih ih' =>
    intro r h
    obtain ⟨u, hu, h⟩ := Option.bind_eq_some_iff.1 h
    show peak .inside n (c :: s) = _
    rw [peak_inside, next_inside_of_hexDigit hu]
    split at h
    · obtain ⟨r', hr', rfl⟩ := Option.map_eq_some_iff.1 h
      have hrest := ih hr'
      exact hrest
    · exact ih' u h

theorem peak_string (n : Int) {s : Str} {r : Str × Str} (h : string s = some r) :
    peak .outside n (34 :: s) = peak .outside n r.2 := by
  obtain ⟨r', hr', rfl⟩ := Option.map_eq_some_iff.1 h
  rw [peak_next (.inr rfl)]
  exact peak_units n hr'

/-! ## Values -/

theorem peak_skip_eq (n : Int) {s rest : Str} {c : Nat} (h : skip s = c :: rest) :
    peak .outside n s = peak .outside n (c :: rest) :=
  h ▸ (past_skip s).peak_eq n

/-- The scan climbs as high as a value is deep, and comes back to where it was. -/
def Climbs (s : Str) (depth : Nat) (rest : Str) : Prop :=
  ∀ n : Int, n + depth ≤ peak .outside n s ∧ peak .outside n rest ≤ peak .outside n s

/-- Up to the closing bracket it ends one below where it was. -/
def Closes (s : Str) (depth : Nat) (rest : Str) : Prop :=
  ∀ n : Int, n + depth ≤ peak .outside n s ∧ peak .outside (n - 1) rest ≤ peak .outside n s

theorem climbs_of_eq {s rest : Str} (h : ∀ n, peak .outside n s = peak .outside n rest) :
    Climbs s 0 rest := fun n => by
  have hle := le_peak .outside n s
  have heq := h n
  omega

theorem closes_of_close {s rest : Str} {c : Nat} (h : skip s = c :: rest) (hc : isBracket c = true)
    (hdelta : delta c = -1) : Closes s 0 rest := fun n => by
  have heq := peak_skip_eq n h
  rw [peak_bracket hc, hdelta] at heq
  have hle := le_peak .outside n s
  have hmax := Int.le_max_right n (peak .outside (n + -1) rest)
  have hsub : n - 1 = n + -1 := rfl
  rw [hsub]
  omega

theorem Closes.mono {s rest : Str} {depth depth' : Nat} (h : Closes s depth' rest)
    (hle : depth ≤ depth') : Closes s depth rest := fun n => by
  have := h n
  omega

theorem Closes.of_skip {s rest : Str} {depth : Nat} (h : Closes (skip s) depth rest) :
    Closes s depth rest := fun n => by
  rw [(past_skip s).peak_eq]
  exact h n

theorem climbs_of_open {s rest : Str} {c depth : Nat} (h : Closes s depth rest)
    (hc : isBracket c = true) (hdelta : delta c = 1) : Climbs (c :: s) (depth + 1) rest :=
  fun n => by
    have hin := h (n + 1)
    have hmax := Int.le_max_right n (peak .outside (n + 1) s)
    have hback : n + 1 - 1 = n := by omega
    rw [hback] at hin
    rw [peak_bracket hc, hdelta]
    omega

theorem Climbs.closes {s s' rest : Str} {c depth : Nat} (h : Climbs s depth s')
    (hskip : skip s' = c :: rest) (hc : isBracket c = true) (hdelta : delta c = -1) :
    Closes s depth rest := fun n => by
  have hv := h n
  have hend := closes_of_close hskip hc hdelta n
  omega

theorem Climbs.next {s s' s'' rest : Str} {depth depth' : Nat} (h : Climbs s depth s')
    (hskip : skip s' = 44 :: s'') (h' : Closes (skip s'') depth' rest) :
    Closes s (max depth depth') rest := fun n => by
  have hv := h n
  have hcomma := peak_skip_eq n hskip
  rw [peak_plain (by decide), (past_skip s'').peak_eq] at hcomma
  have hrest := h' n
  omega

theorem climbs_member {s t s' : Str} {k : Str × Str} {depth : Nat} (hk : string s = some k)
    (ht : skip k.2 = 58 :: t) (h : Climbs (skip t) depth s') : Climbs (34 :: s) depth s' :=
  fun n => by
    have hcolon := peak_skip_eq n ht
    rw [peak_plain (by decide), (past_skip t).peak_eq] at hcolon
    rw [peak_string n hk, hcolon]
    exact h n

theorem depthEntries_ofList_le (es : List (Str × Json)) :
    Json.depthEntries (Lib.Dict.ofList es).entries ≤ Json.depthEntries es :=
  Json.depthEntries_le.2 fun e he =>
    Json.depthEntries_le.1 (Nat.le_refl _) e (Lib.Dict.mem_entries_ofList he)

theorem depth_of_mem_literals :
    ∀ {constants : Bool}, ∀ l ∈ literals constants, l.2.depth = 0 := by decide

theorem depth_of_literal {constants : Bool} {s : Str} {r : Json × Str}
    (h : literal constants s = some r) : r.1.depth = 0 := by
  obtain ⟨l, hl, rfl⟩ := Option.map_eq_some_iff.1 h
  exact depth_of_mem_literals l (List.mem_of_find?_eq_some hl)

theorem depth_of_number {d : Lib.Dialect} {s : Str} {r : Json × Str} (h : number d s = some r) :
    r.1.depth = 0 := by
  obtain ⟨w, -, h⟩ := Option.bind_eq_some_iff.1 h
  dsimp only at h
  split at h
  · split at h
    · cases h
      rfl
    · cases h
  · cases h
    rfl

/-- The reader's values nest no deeper than the scan climbs. -/
theorem nestingRule (d : Lib.Dialect) : Rule d (fun _ s v rest => Climbs s v.depth rest)
    (fun _ s vs rest => Closes s (Json.depthItems vs) rest)
    (fun _ s es rest => Closes s (Json.depthEntries es) rest) where
  string h := climbs_of_eq fun n => peak_string n h
  emptyArray h := climbs_of_open (closes_of_close h rfl rfl) rfl rfl
  array h := climbs_of_open (Closes.of_skip h) rfl rfl
  emptyObject h := climbs_of_open (closes_of_close h rfl rfl) rfl rfl
  object h := climbs_of_open ((Closes.of_skip h).mono (depthEntries_ofList_le _)) rfl rfl
  literal h := by
    rw [depth_of_literal h]
    exact climbs_of_eq (past_literal h).peak_eq
  number h := by
    rw [depth_of_number h]
    exact climbs_of_eq (past_number h).peak_eq
  lastItem hv hskip := by
    show Closes _ (max _ 0) _
    rw [Nat.max_zero]
    exact hv.closes hskip rfl rfl
  moreItems hv hskip hvs := hv.next hskip hvs
  lastMember hk ht hv hskip := by
    show Closes _ (max _ 0) _
    rw [Nat.max_zero]
    exact (climbs_member hk ht hv).closes hskip rfl rfl
  moreMembers hk ht hv hskip hes := (climbs_member hk ht hv).next hskip hes

theorem depth_le_nestingDepth {d : Lib.Dialect} {room : Nat} {s : Str} {v : Json}
    (h : Lib.JsonText.loads d room s = some v) : v.depth ≤ nestingDepth s := by
  obtain ⟨rest, hclimbs, -⟩ := (nestingRule d).loads h
  have hle := (hclimbs 0).1
  rw [← (past_skip s).peak_eq] at hle
  rw [nestingDepth_eq]
  omega

/-! ## UTF-8 -/

open Lib.Utf (Owed)

/-- A backslash is over with the byte after it. -/
def Scan.settled : Scan → Scan
  | .escaped => .inside
  | st => st

/-- What is not ASCII is neither a quote nor a backslash nor a bracket. -/
theorem peak_wide {c : Nat} (h : 0x80 ≤ c) (st : Scan) (n : Int) (s : List Nat) :
    peak st n (c :: s) = peak st.settled n s := by
  cases st with
  | outside =>
    apply peak_plain
    refine ⟨by omega, ?_⟩
    simp only [isBracket, Bool.or_eq_false_iff, decide_eq_false_iff_not]
    omega
  | inside =>
    rw [peak_inside, next_inside (by omega) (by omega)]
    rfl
  | escaped => exact peak_escaped n c s

theorem settled_settled (st : Scan) : st.settled.settled = st.settled := by
  cases st with
  | outside => rfl
  | inside => rfl
  | escaped => rfl

/-- One step of the scan is the same whatever follows. -/
theorem peak_cons_congr {s s' : List Nat} (h : ∀ st n, peak st n s = peak st n s') (c : Nat)
    (st : Scan) (n : Int) : peak st n (c :: s) = peak st n (c :: s') := by
  by_cases hst : st ≠ .outside ∨ c = 34
  · rw [peak_next hst, peak_next hst, h]
  · obtain ⟨rfl, hc⟩ : st = .outside ∧ c ≠ 34 := by
      simpa only [ne_eq, not_or, not_not] using hst
    cases hb : isBracket c with
    | true => rw [peak_bracket hb, peak_bracket hb, h]
    | false => rw [peak_plain ⟨hc, hb⟩, peak_plain ⟨hc, hb⟩, h]

/-- Between characters the rest of the bytes scans as the rest of the text does; in the middle of a
character the scan only has that character's other bytes before it does. -/
theorem peak_utf8_aux {bytes : List Nat} {o : Owed} {s : Str} (h : Lib.Utf.utf8 o bytes = some s) :
    (o.left = 0 → ∀ st n, peak st n bytes = peak st n s) ∧
    (o.left ≠ 0 → o.Wide → ∃ c s', s = c :: s' ∧ 0x80 ≤ c ∧
      ∀ st n, peak (Scan.settled st) n bytes = peak (Scan.settled st) n s') := by
  induction bytes generalizing o s with
  | nil =>
    rw [Lib.Utf.utf8] at h
    split at h
    · next ho =>
      cases h
      exact ⟨fun _ _ _ => rfl, fun hne => absurd ho hne⟩
    · cases h
  | cons b bytes ih =>
    rw [Lib.Utf.utf8] at h
    obtain ⟨o', ho', h⟩ := Option.bind_eq_some_iff.1 h
    obtain ⟨s', hs', rfl⟩ := Option.map_eq_some_iff.1 h
    obtain ⟨ihZero, ihWide⟩ := ih hs'
    constructor
    · intro ho st n
      rw [Owed.step, if_pos ho] at ho'
      rcases Lib.Utf.lead_cases ho' with ⟨-, hleft, hvalue⟩ | ⟨hb, hleft, hwide⟩
      · rw [if_pos hleft, hvalue]
        exact peak_cons_congr (ihZero hleft) b st n
      · obtain ⟨c, s'', rfl, hc, hrest⟩ := ihWide hleft hwide
        rw [if_neg hleft, peak_wide hb, peak_wide hc, hrest]
    · intro ho hwide
      obtain ⟨hb, hcases⟩ := hwide.step ho ho'
      rcases hcases with ⟨hleft, hvalue⟩ | ⟨hleft, hwide'⟩
      · refine ⟨o'.value, s', by rw [if_pos hleft], hvalue, fun st n => ?_⟩
        rw [peak_wide hb, settled_settled, ihZero hleft]
      · obtain ⟨c, s'', rfl, hc, hrest⟩ := ihWide hleft hwide'
        refine ⟨c, s'', by rw [if_neg hleft], hc, fun st n => ?_⟩
        rw [peak_wide hb, settled_settled, hrest]

theorem nestingDepth_utf8 {bytes : List Nat} {s : Str}
    (h : Lib.Utf.utf8 .nothing bytes = some s) : nestingDepth bytes = nestingDepth s := by
  rw [nestingDepth_eq, nestingDepth_eq]
  exact (peak_utf8_aux h).1 rfl .outside 0

/-- A byte order mark of UTF-8 is nothing to the scan. -/
theorem nestingDepth_mark (bytes : List Nat) :
    nestingDepth (0xef :: 0xbb :: 0xbf :: bytes) = nestingDepth bytes := by
  rw [nestingDepth_eq, nestingDepth_eq, peak_wide (by decide), peak_wide (by decide),
    peak_wide (by decide)]
  rfl

theorem nestingDepth_text {bytes : List Nat} {s : Str}
    (henc : detectEncoding bytes = .utf8 ∨ detectEncoding bytes = .utf8Sig)
    (h : text bytes = some s) : nestingDepth bytes = nestingDepth s := by
  rw [text] at h
  rcases henc with henc | henc
  · rw [henc] at h
    exact nestingDepth_utf8 h
  · rw [henc, decode] at h
    split at h
    · next hmark =>
      obtain ⟨rest, rfl⟩ := List.isPrefixOf_iff_prefix.1 hmark
      exact (nestingDepth_mark rest).trans (nestingDepth_utf8 h)
    · exact nestingDepth_utf8 h

end JsonLimits

end AnsiDeck
