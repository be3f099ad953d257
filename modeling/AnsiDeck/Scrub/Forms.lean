import Mathlib.Data.List.Dedup
import Mathlib.Data.List.Infix
import Mathlib.Data.List.Sort
import AnsiDeck.Lib.Edits

/-!
# The forms of a secret that are searched for

A text is its code points: a `str` can hold lone surrogates, and an event often does. What Python
takes from the Unicode database (letters, white space, upper and lower case) is a parameter; the
forms and the expression built from them follow `app.scrub`.
-/

namespace AnsiDeck.Scrub

open Lib

abbrev Text := List Nat

def txt (s : String) : Text := s.toList.map Char.toNat

/-- The tables behind `\w`, `\d`, `\s`, `str.strip` and `(?i:...)`. -/
structure Unicode where
  isAlnum : Nat → Bool
  isDecimal : Nat → Bool
  isSpace : Nat → Bool
  sameLetter : Nat → Nat → Bool
  alnum_punctuation : ∀ c ∈ txt "[]\"'", isAlnum c = false
  space_printable : ∀ c, 33 ≤ c → c ≤ 126 → isSpace c = false

/-- `\w` -/
def Unicode.isWord (u : Unicode) (c : Nat) : Bool := u.isAlnum c || c = 95

def isUpper (c : Nat) : Bool := 65 ≤ c && c ≤ 90
def isLower (c : Nat) : Bool := 97 ≤ c && c ≤ 122
def isDigit (c : Nat) : Bool := 48 ≤ c && c ≤ 57

/-- The tables as they are on the first 128 code points. -/
def ascii : Unicode where
  isAlnum c := isUpper c || isLower c || isDigit c
  isDecimal c := isDigit c
  isSpace c := (9 ≤ c && c ≤ 13) || (28 ≤ c && c ≤ 32)
  sameLetter a b := a = b || (isUpper a && a + 32 = b) || (isUpper b && b + 32 = a)
  alnum_punctuation := by decide
  space_printable := by
    intro c h _
    simp
    omega

def redacted : Text := txt "[REDACTED]"

def minSecretLen : Nat := 4
def plainSubstringLen : Nat := 8
def minLineLen : Nat := 8

/-! ## `_variants` -/

def strip {α : Type} (p : α → Bool) (text : List α) : List α :=
  ((text.dropWhile p).reverse.dropWhile p).reverse

def hexDigit (n : Nat) : Nat := if n < 10 then 48 + n else 87 + n

/-- `\uXXXX` -/
def unicodeEscape (n : Nat) : Text :=
  txt "\\u" ++ [hexDigit (n / 4096 % 16), hexDigit (n / 256 % 16), hexDigit (n / 16 % 16),
    hexDigit (n % 16)]

/-- One character as `json.dumps` writes it. Beyond the basic plane it is a pair of surrogates. -/
def jsonEscape (ensureAscii : Bool) (c : Nat) : Text :=
  if c = 34 then txt "\\\""
  else if c = 92 then txt "\\\\"
  else if c = 10 then txt "\\n"
  else if c = 13 then txt "\\r"
  else if c = 9 then txt "\\t"
  else if c = 12 then txt "\\f"
  else if c = 8 then txt "\\b"
  else if c < 32 then unicodeEscape c
  else if ensureAscii && 126 < c then
    if c < 0x10000 then unicodeEscape c
    else
      unicodeEscape (0xd800 + (c - 0x10000) / 1024 % 1024) ++
        unicodeEscape (0xdc00 + (c - 0x10000) % 1024)
  else [c]

/-- `json.dumps(text)[1:-1]` -/
def dumps (ensureAscii : Bool) (text : Text) : Text := text.flatMap (jsonEscape ensureAscii)

def isLineBreak (c : Nat) : Bool :=
  c ∈ [10, 11, 12, 13, 28, 29, 30, 0x85, 0x2028, 0x2029]

/-- `str.splitlines`, where `line` is what the current line has so far. -/
def splitlinesFrom : Text → Text → List Text
  | line, [] => if line = [] then [] else [line]
  | line, 13 :: 10 :: rest => line :: splitlinesFrom [] rest
  | line, c :: rest =>
    if isLineBreak c then line :: splitlinesFrom [] rest else splitlinesFrom (line ++ [c]) rest

def splitlines (text : Text) : List Text := splitlinesFrom [] text

/-- The lines of a secret that are searched for on their own. -/
def lineVariants (u : Unicode) (secret : Text) : List Text :=
  if 10 ∈ secret then
    (((splitlines secret).map (strip u.isSpace)).filter (minLineLen ≤ ·.length)).flatMap
      fun line => [line, dumps true line]
  else []

def variants (u : Unicode) (secret : Text) : List Text :=
  let secret := strip (· ∈ txt "\r\n") secret
  ([secret, dumps true secret, dumps false secret,
      secret.flatMap fun c => if c = 39 then [39, 39] else [c]] ++
    lineVariants u secret).filter (minSecretLen ≤ ·.length)

/-! ## `_exact_regex` -/

/-- The registered forms, the longest first. Which of two forms of one length comes first makes no
difference: they can't both match at a place. -/
def forms (u : Unicode) (secrets : List Text) : List Text :=
  ((secrets.flatMap (variants u)).dedup).insertionSort fun v w => w.length ≤ v.length

theorem mem_forms {u : Unicode} {secrets : List Text} {v : Text} :
    v ∈ forms u secrets ↔ ∃ s ∈ secrets, v ∈ variants u s := by
  simp [forms, List.mem_insertionSort, List.mem_dedup]

theorem length_of_mem_forms {u : Unicode} {secrets : List Text} {v : Text}
    (h : v ∈ forms u secrets) : minSecretLen ≤ v.length := by
  obtain ⟨s, -, hv⟩ := mem_forms.1 h
  simpa using (List.mem_filter.1 hv).2

inductive Group
  | pre
  | val
  deriving DecidableEq

abbrev Expr := Regex Nat Group

/-- A long form matches anywhere, a short one only as a whole word. -/
def formRegex (u : Unicode) (v : Text) : Expr :=
  if plainSubstringLen ≤ v.length then .lit v
  else .seq (.notBehind u.isWord) (.seq (.lit v) (.notAhead (.one u.isWord)))

theorem minLen_lit (v : Text) : (Regex.lit v : Expr).minLen = v.length := by
  induction v with
  | nil => rfl
  | cons c v ih => simp [Regex.lit, Regex.minLen, ih, Nat.add_comm]

theorem minLen_formRegex (u : Unicode) (v : Text) : (formRegex u v).minLen = v.length := by
  unfold formRegex
  split
  · exact minLen_lit v
  · simp [Regex.minLen, minLen_lit]

theorem minLen_alts {k : Nat} {r : Expr} {ts : List Expr} (h : ∀ t ∈ r :: ts, k ≤ t.minLen) :
    k ≤ (Regex.alts r ts).minLen := by
  induction ts generalizing r with
  | nil => exact h r List.mem_cons_self
  | cons t ts ih =>
    have hr := h r List.mem_cons_self
    have ht := ih fun t' ht' => h t' (List.mem_cons_of_mem _ ht')
    simp only [Regex.alts, Regex.minLen]
    omega

theorem solid_forms {u : Unicode} {secrets : List Text} {v : Text} {vs : List Text}
    (h : forms u secrets = v :: vs) :
    0 < (Regex.alts (formRegex u v) (vs.map (formRegex u))).minLen := by
  refine Nat.lt_of_lt_of_le (m := minSecretLen) (by decide) (minLen_alts ?_)
  intro t ht
  obtain ⟨w, hw, rfl⟩ := List.mem_map.1 (by simpa using ht : t ∈ (v :: vs).map (formRegex u))
  rw [minLen_formRegex]
  exact length_of_mem_forms (h ▸ hw)

def exactRegex (u : Unicode) (secrets : List Text) : Option (Pattern Nat Group) :=
  match h : forms u secrets with
  | [] => none
  | v :: vs => some ⟨.alts (formRegex u v) (vs.map (formRegex u)), solid_forms h⟩

end AnsiDeck.Scrub
