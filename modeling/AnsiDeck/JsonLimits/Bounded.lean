import AnsiDeck.JsonLimits.Nesting
import AnsiDeck.Lib.Except

/-!
# `loads_bounded` bounds the nesting

`Bounds` is what `loads_bounded` is for: a value that is returned nests no deeper than the limit,
and `json.loads` never sees a document that does. It holds of every input that `json.loads` reads as
UTF-8. Of UTF-16 and UTF-32 the scan sees other brackets and other strings than the document has: a
byte of some letter is a quote, and everything after it is taken for a string (`not_bounds`).
`bounds_iff` is the exact condition, and `scansTrue_of_clear` says of the bytes when it holds.
-/

namespace AnsiDeck

namespace JsonLimits

open Lib (Json Str)
open Lib.JsonText (text detectEncoding)

/-- `json.loads` is called with bytes that say this document. -/
def Reads (raw : Raw) (maxDepth : Int) (document : Str) : Prop :=
  ∃ data, passedOn raw maxDepth = .ok data ∧ text data = some document

structure Bounds (recursion : Nat) (raw : Raw) (maxDepth : Int) : Prop where
  returned : ∀ v, loadsBounded recursion raw maxDepth = .ok v → (v.depth : Int) ≤ maxDepth
  read : ∀ document, Reads raw maxDepth document → nestingDepth document ≤ maxDepth

/-- Bytes that the scan refuses, or that `json.loads` reads as UTF-8, or that say a document within
the limit. -/
def ScansTrue (maxDepth : Int) (data : List Nat) : Prop :=
  maxDepth < nestingDepth data ∨
    (detectEncoding data = .utf8 ∨ detectEncoding data = .utf8Sig) ∨
    ∀ document, text data = some document → nestingDepth document ≤ maxDepth

theorem passedOn_eq_ok {raw : Raw} {maxDepth : Int} {data : List Nat} :
    passedOn raw maxDepth = .ok data ↔ raw.data = some data ∧ nestingDepth data ≤ maxDepth := by
  rw [passedOn]
  cases raw.data with
  | none => simp
  | some d =>
    dsimp only
    split
    · next h =>
      simp only [reduceCtorEq, Option.some.injEq, false_iff, not_and]
      rintro rfl
      omega
    · next h =>
      simp only [Except.ok.injEq, Option.some.injEq]
      constructor
      · rintro rfl
        exact ⟨rfl, by omega⟩
      · exact fun hd => hd.1

/-- What is returned was read from a document. -/
theorem reads_of_loadsBounded {recursion : Nat} {raw : Raw} {maxDepth : Int} {v : Json}
    (h : loadsBounded recursion raw maxDepth = .ok v) :
    ∃ document, Reads raw maxDepth document ∧ (v.depth : Int) ≤ nestingDepth document := by
  obtain ⟨data, hdata, h⟩ := Lib.Except.bind_eq_ok.1 h
  rw [loads] at h
  split at h
  · cases h
  · next hloads =>
    cases h
    obtain ⟨document, hdocument, hloads⟩ := Option.bind_eq_some_iff.1 hloads
    exact ⟨document, ⟨data, hdata, hdocument⟩, depth_le_nestingDepth hloads⟩

theorem bounds_of_reads {recursion : Nat} {raw : Raw} {maxDepth : Int}
    (h : ∀ document, Reads raw maxDepth document → nestingDepth document ≤ maxDepth) :
    Bounds recursion raw maxDepth where
  returned v hv := by
    obtain ⟨document, hreads, hle⟩ := reads_of_loadsBounded hv
    exact hle.trans (h document hreads)
  read := h

theorem bounds_iff (recursion : Nat) (raw : Raw) (maxDepth : Int) :
    Bounds recursion raw maxDepth ↔ ∀ data, raw.data = some data → ScansTrue maxDepth data := by
  constructor
  · intro h data hdata
    by_cases hdeep : maxDepth < nestingDepth data
    · exact .inl hdeep
    · right
      right
      intro document hdocument
      exact h.read document ⟨data, passedOn_eq_ok.2 ⟨hdata, by omega⟩, hdocument⟩
  · intro h
    apply bounds_of_reads
    rintro document ⟨data, hpassed, hdocument⟩
    obtain ⟨hdata, hle⟩ := passedOn_eq_ok.1 hpassed
    rcases h data hdata with hdeep | henc | hwithin
    · omega
    · rw [← nestingDepth_text henc hdocument]
      exact hle
    · exact hwithin document hdocument

/-- `["Ģ", [[]]]` in UTF-16: the first byte of `Ģ` is a quote's. -/
def hidden : Bytes :=
  [0x5b, 0, 0x22, 0, 0x22, 1, 0x22, 0, 0x2c, 0, 0x5b, 0, 0x5b, 0, 0x5d, 0, 0x5d, 0, 0x5d, 0]

theorem not_bounds : ¬ Bounds 1000 (.bytes hidden) 1 := by
  intro h
  have hdepth : (loadsBounded 1000 (.bytes hidden) 1).toOption.map Json.depth = some 3 := by
    decide +kernel
  cases hv : loadsBounded 1000 (.bytes hidden) 1 with
  | error e =>
    rw [hv] at hdepth
    cases hdepth
  | ok v =>
    rw [hv] at hdepth
    have hle := h.returned v hv
    have hthree : v.depth = 3 := Option.some.inj hdepth
    omega

/-! ## What the scan misses

Of UTF-16 and UTF-32 it looks at the bytes. It sees the document's quotes and brackets where no
other character has such a byte (`Clear`); a backslash would take its own zero byte for the
character that it escapes. -/

/-- A byte that the scan looks for. -/
def isSeen (c : Nat) : Bool := c = 34 || c = 92 || isBracket c

/-- What the scan sees of a code unit's bytes is what it would see of the unit. -/
def Quiet (bytes : List Nat) (unit : Nat) : Prop := bytes.filter isSeen = [unit].filter isSeen

def Clear16 (big : Bool) : List Nat → Prop
  | a :: b :: bytes => Quiet [a, b] (if big then 256 * a + b else 256 * b + a) ∧ Clear16 big bytes
  | _ => True

def Clear32 (big : Bool) : List Nat → Prop
  | a :: b :: c :: d :: bytes =>
    Quiet [a, b, c, d] (if big then 16777216 * a + 65536 * b + 256 * c + d
      else 16777216 * d + 65536 * c + 256 * b + a) ∧ Clear32 big bytes
  | _ => True

/-- In the encoding that `json.loads` finds, after its mark. -/
def Clear (data : List Nat) : Prop :=
  match detectEncoding data with
  | .utf8 | .utf8Sig => True
  | .utf16 =>
    if [0xfe, 0xff].isPrefixOf data then Clear16 true (data.drop 2)
    else Clear16 false (if [0xff, 0xfe].isPrefixOf data then data.drop 2 else data)
  | .utf16Be => Clear16 true data
  | .utf16Le => Clear16 false data
  | .utf32 =>
    if [0, 0, 0xfe, 0xff].isPrefixOf data then Clear32 true (data.drop 4)
    else Clear32 false (if [0xff, 0xfe, 0, 0].isPrefixOf data then data.drop 4 else data)
  | .utf32Be => Clear32 true data
  | .utf32Le => Clear32 false data

theorem peak_unseen {c : Nat} (h : isSeen c = false) {st : Scan} (hst : st ≠ .escaped) (n : Int)
    (s : List Nat) : peak st n (c :: s) = peak st n s := by
  simp only [isSeen, Bool.or_eq_false_iff, decide_eq_false_iff_not] at h
  cases st with
  | outside => exact peak_plain ⟨h.1.1, h.2⟩ n s
  | inside => rw [peak_inside, next_inside h.1.1 h.1.2]
  | escaped => exact absurd rfl hst

/-- Without backslashes the scan goes by what it looks for. -/
theorem peak_filter {s : List Nat} (h : 92 ∉ s) {st : Scan} (hst : st ≠ .escaped) (n : Int) :
    peak st n (s.filter isSeen) = peak st n s := by
  induction s generalizing st n with
  | nil => rfl
  | cons c s ih =>
    have hc : c ≠ 92 := fun hc => h (hc ▸ List.mem_cons_self ..)
    have hs : 92 ∉ s := fun hs => h (List.mem_cons_of_mem c hs)
    cases hseen : isSeen c with
    | false =>
      rw [List.filter_cons_of_neg (by simp [hseen]), peak_unseen hseen hst]
      exact ih hs hst n
    | true =>
      rw [List.filter_cons_of_pos hseen]
      cases st with
      | escaped => exact absurd rfl hst
      | inside =>
        have hnext : Scan.inside.next c ≠ .escaped := by
          rw [Scan.next, if_neg hc]
          split <;> decide
        rw [peak_inside, peak_inside]
        exact ih hs hnext n
      | outside =>
        by_cases hquote : c = 34
        · subst hquote
          rw [peak_next (.inr rfl), peak_next (.inr rfl)]
          exact ih hs (by decide) n
        · have hbracket : isBracket c = true := by simpa [isSeen, hquote, hc] using hseen
          rw [peak_bracket hbracket, peak_bracket hbracket, ih hs (by decide)]

theorem nestingDepth_of_seen {data document : List Nat} (hslash : 92 ∉ data)
    (hseen : data.filter isSeen = document.filter isSeen) :
    nestingDepth data = nestingDepth document := by
  have hslash' : 92 ∉ document := by
    intro hmem
    have hfound : 92 ∈ data.filter isSeen := hseen ▸ List.mem_filter.2 ⟨hmem, rfl⟩
    exact hslash (List.mem_filter.1 hfound).1
  rw [nestingDepth_eq, nestingDepth_eq, ← peak_filter hslash (by decide), hseen,
    peak_filter hslash' (by decide)]

theorem isSeen_of_wide {c : Nat} (h : 0x80 ≤ c) : isSeen c = false := by
  simp only [isSeen, isBracket, Bool.or_eq_false_iff, decide_eq_false_iff_not]
  omega

/-- Neither a surrogate nor the character of a pair is looked for. -/
theorem seen_join (us : List (Nat × Bool)) :
    (Lib.Utf.join us).filter isSeen = (us.map Prod.fst).filter isSeen := by
  fun_induction Lib.Utf.join us with
  | case1 => rfl
  | case2 u => rfl
  | case3 u v us h ih =>
    simp only [Bool.and_eq_true, Lib.Utf.isHigh, Lib.Utf.isLow, decide_eq_true_eq] at h
    have hwide : 0x10000 ≤ Lib.Utf.pair u.1 v.1 :=
      Nat.le_trans (Nat.le_add_right ..) (Nat.le_add_right ..)
    have hpair : isSeen (Lib.Utf.pair u.1 v.1) = false := isSeen_of_wide (by omega)
    rw [List.map_cons, List.map_cons, List.filter_cons_of_neg (by simp [hpair]),
      List.filter_cons_of_neg (by simp [isSeen_of_wide (c := u.1) (by omega)]),
      List.filter_cons_of_neg (by simp [isSeen_of_wide (c := v.1) (by omega)]), ih]
  | case4 u v us h ih =>
    rw [List.map_cons, List.filter_cons, List.filter_cons, ih]

theorem Quiet.filter_append {bytes : List Nat} {unit : Nat} (h : Quiet bytes unit)
    {rest units : List Nat} (hrest : rest.filter isSeen = units.filter isSeen) :
    (bytes ++ rest).filter isSeen = (unit :: units).filter isSeen := by
  rw [List.filter_append, h, hrest, ← List.filter_append, List.singleton_append]

theorem seen_units16 {big : Bool} {bytes units : List Nat}
    (h : Lib.Utf.units16 big bytes = some units) (hclear : Clear16 big bytes) :
    bytes.filter isSeen = units.filter isSeen := by
  fun_induction Lib.Utf.units16 big bytes generalizing units with
  | case1 =>
    cases h
    rfl
  | case2 => cases h
  | case3 a b bytes ih =>
    obtain ⟨units, hunits, rfl⟩ := Option.map_eq_some_iff.1 h
    exact hclear.1.filter_append (ih hunits hclear.2)

theorem seen_utf16 {big : Bool} {bytes : List Nat} {document : Str}
    (h : Lib.Utf.utf16 big bytes = some document) (hclear : Clear16 big bytes) :
    bytes.filter isSeen = document.filter isSeen := by
  obtain ⟨units, hunits, rfl⟩ := Option.map_eq_some_iff.1 h
  rw [seen_join, List.map_map, seen_units16 hunits hclear]
  exact congrArg (List.filter isSeen) (List.map_id units).symm

theorem seen_utf32 {big : Bool} {bytes : List Nat} {document : Str}
    (h : Lib.Utf.utf32 big bytes = some document) (hclear : Clear32 big bytes) :
    bytes.filter isSeen = document.filter isSeen := by
  fun_induction Lib.Utf.utf32 big bytes generalizing document with
  | case1 =>
    cases h
    rfl
  | case2 a b c d bytes u hu =>
    rename_i ih
    obtain ⟨document, hdocument, rfl⟩ := Option.map_eq_some_iff.1 h
    exact hclear.1.filter_append (ih hdocument hclear.2)
  | case3 => cases h
  | case4 => cases h

/-- A mark has nothing that the scan looks for. -/
theorem seen_drop {mark data : List Nat} (hpre : mark.isPrefixOf data = true)
    (hmark : mark.filter isSeen = []) :
    data.filter isSeen = (data.drop mark.length).filter isSeen := by
  obtain ⟨rest, rfl⟩ := List.isPrefixOf_iff_prefix.1 hpre
  rw [List.drop_left, List.filter_append, hmark, List.nil_append]

theorem seen_text {data : List Nat} {document : Str} (htext : text data = some document)
    (hclear : Clear data)
    (hwide : ¬ (detectEncoding data = .utf8 ∨ detectEncoding data = .utf8Sig)) :
    data.filter isSeen = document.filter isSeen := by
  unfold Clear at hclear
  rw [text] at htext
  cases henc : detectEncoding data with
  | utf8 => exact absurd (.inl henc) hwide
  | utf8Sig => exact absurd (.inr henc) hwide
  | utf16Be =>
    rw [henc] at htext hclear
    exact seen_utf16 htext hclear
  | utf16Le =>
    rw [henc] at htext hclear
    exact seen_utf16 htext hclear
  | utf32Be =>
    rw [henc] at htext hclear
    exact seen_utf32 htext hclear
  | utf32Le =>
    rw [henc] at htext hclear
    exact seen_utf32 htext hclear
  | utf16 =>
    rw [henc] at htext hclear
    dsimp only [Lib.JsonText.decode] at htext hclear
    split at htext
    · next hmark =>
      rw [if_pos hmark] at hclear
      exact (seen_drop hmark rfl).trans (seen_utf16 htext hclear)
    next hmark =>
    rw [if_neg hmark] at hclear
    split at htext
    · next hmark =>
      rw [if_pos hmark] at hclear
      exact (seen_drop hmark rfl).trans (seen_utf16 htext hclear)
    · next hmark =>
      rw [if_neg hmark] at hclear
      exact seen_utf16 htext hclear
  | utf32 =>
    rw [henc] at htext hclear
    dsimp only [Lib.JsonText.decode] at htext hclear
    split at htext
    · next hmark =>
      rw [if_pos hmark] at hclear
      exact (seen_drop hmark rfl).trans (seen_utf32 htext hclear)
    next hmark =>
    rw [if_neg hmark] at hclear
    split at htext
    · next hmark =>
      rw [if_pos hmark] at hclear
      exact (seen_drop hmark rfl).trans (seen_utf32 htext hclear)
    · next hmark =>
      rw [if_neg hmark] at hclear
      exact seen_utf32 htext hclear

/-- Clear bytes without a backslash scan as their document does. -/
theorem scansTrue_of_clear {maxDepth : Int} {data : List Nat} (hclear : Clear data)
    (hslash : 92 ∉ data) : ScansTrue maxDepth data := by
  by_cases hdeep : maxDepth < nestingDepth data
  · exact .inl hdeep
  by_cases henc : detectEncoding data = .utf8 ∨ detectEncoding data = .utf8Sig
  · exact .inr (.inl henc)
  refine .inr (.inr fun document htext => ?_)
  rw [← nestingDepth_of_seen hslash (seen_text htext hclear henc)]
  omega

end JsonLimits

end AnsiDeck
