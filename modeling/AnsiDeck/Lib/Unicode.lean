import AnsiDeck.Lib.Decimal

/-!
# What Python's text functions take from the Unicode database

Which characters are white space, which are decimal digits, and what a text is in lower case. The
database grows with every version, so its answers are a structure here, with what every version
says: about ASCII, that a digit is no white space, and that neither has a case of its own. `ascii`
is what all of them say of a text that is all ASCII.
-/

namespace Lib

def asciiSpace (c : Nat) : Bool := 9 ≤ c && c ≤ 13 || 28 ≤ c && c ≤ 32

def asciiDigit (c : Nat) : Option Nat := if 48 ≤ c && c ≤ 57 then some (c - 48) else none

/-- A letter of ASCII in lower case. -/
def lowerAscii (c : Nat) : Nat := if 65 ≤ c && c ≤ 90 then c + 32 else c

structure Unicode where
  /-- `c.isspace()`. -/
  isSpace : Nat → Bool
  /-- The digit's value, of what `\d` matches. -/
  digit : Nat → Option Nat
  /-- `s.lower()`. It is of the whole text: a capital sigma's lower case depends on what is around
  it. -/
  lower : Str → Str
  isSpace_ascii : ∀ c < 128, isSpace c = asciiSpace c
  digit_ascii : ∀ c < 128, digit c = asciiDigit c
  digit_lt : ∀ {c d : Nat}, digit c = some d → d < 10
  isSpace_of_digit : ∀ {c d : Nat}, digit c = some d → isSpace c = false
  lower_plain : ∀ {s : Str}, (∀ c ∈ s, c < 128 ∨ (digit c).isSome = true ∨ isSpace c = true) →
    lower s = s.map lowerAscii

namespace Unicode

def ascii : Unicode where
  isSpace := asciiSpace
  digit := asciiDigit
  lower := List.map lowerAscii
  isSpace_ascii _ _ := rfl
  digit_ascii _ _ := rfl
  digit_lt := by
    intro c d h
    simp only [asciiDigit, Bool.and_eq_true, decide_eq_true_eq] at h
    split at h
    · simp only [Option.some.injEq] at h
      omega
    · exact absurd h (by simp)
  isSpace_of_digit := by
    intro c d h
    simp only [asciiDigit, Bool.and_eq_true, decide_eq_true_eq] at h
    split at h
    · simp only [asciiSpace, Bool.or_eq_false_iff, Bool.and_eq_false_iff, decide_eq_false_iff_not]
      omega
    · exact absurd h (by simp)
  lower_plain := by
    intro s _
    rfl

variable (t : Unicode)

/-- `s.strip()`. -/
def strip (s : Str) : Str := Str.strip t.isSpace s

/-- White space around a number: `int` sees ASCII's as C does. -/
def intSpace (c : Nat) : Bool := if c < 128 then 9 ≤ c && c ≤ 13 || c = 32 else t.isSpace c

/-- Digits with single underscores between them. -/
def digitRun : Str → Option (List Nat)
  | [] => none
  | [c] => (t.digit c).map fun d => [d]
  | c :: 95 :: rest => do
    let d ← t.digit c
    let ds ← digitRun rest
    some (d :: ds)
  | c :: rest => do
    let d ← t.digit c
    let ds ← digitRun rest
    some (d :: ds)

/-- `sys.get_int_max_str_digits()`. -/
def maxStrDigits : Nat := 4300

/-- `int(s)`, `none` where it raises `ValueError`. -/
def int? (s : Str) : Option Int := do
  let number := Str.strip t.intSpace s
  let negative := number.head? = some 45
  let digits ← t.digitRun (if negative || number.head? = some 43 then number.tail else number)
  if digits.length ≤ maxStrDigits then
    some (if negative then -(ofDigits digits : Int) else (ofDigits digits : Int))
  else none

variable {t}

theorem digit_of_decimal {n c : Nat} (hc : c ∈ decimal n) : t.digit c = some (c - 48) := by
  have h := digit_of_mem_decimal hc
  rw [t.digit_ascii c (by omega)]
  simp [asciiDigit, h]

theorem digitRun_of_digits {s : Str} (hs : ∀ c ∈ s, (t.digit c).isSome = true) (hne : s ≠ []) :
    t.digitRun s = some (s.filterMap t.digit) := by
  fun_induction digitRun t s with
  | case1 => exact absurd rfl hne
  | case2 c =>
    obtain ⟨d, hd⟩ := Option.isSome_iff_exists.1 (hs c (by simp))
    simp [hd]
  | case3 c rest ih =>
    have h95 : t.digit 95 = none := by
      rw [t.digit_ascii 95 (by omega)]
      rfl
    have := hs 95 (by simp)
    simp [h95] at this
  | case4 c rest h1 h2 ih =>
    obtain ⟨d, hd⟩ := Option.isSome_iff_exists.1 (hs c (by simp))
    have hrest : rest ≠ [] := fun h => h1 h
    rw [ih (fun x hx => hs x (by simp [hx])) hrest]
    simp [hd]

theorem filterMap_digit_length {s : Str} (hs : ∀ c ∈ s, (t.digit c).isSome = true) :
    (s.filterMap t.digit).length = s.length := by
  induction s with
  | nil => rfl
  | cons c s ih =>
    obtain ⟨d, hd⟩ := Option.isSome_iff_exists.1 (hs c (by simp))
    simp [hd, ih fun x hx => hs x (by simp [hx])]

/-- What is neither a letter of ASCII nor outside it is the same in lower case; so is a digit. -/
theorem lower_eq_self {s : Str}
    (hs : ∀ c ∈ s, c < 128 ∧ lowerAscii c = c ∨ (t.digit c).isSome = true) : t.lower s = s := by
  have hplain : ∀ c ∈ s, c < 128 ∨ (t.digit c).isSome = true ∨ t.isSpace c = true := by
    intro c hc
    rcases hs c hc with h | h
    · exact .inl h.1
    · exact .inr (.inl h)
  have hfix : ∀ c ∈ s, lowerAscii c = c := by
    intro c hc
    rcases hs c hc with h | h
    · exact h.2
    · by_cases hlt : 65 ≤ c ∧ c ≤ 90
      · rw [t.digit_ascii c (by omega)] at h
        have hnone : asciiDigit c = none := by
          rw [asciiDigit, if_neg (by simp only [Bool.and_eq_true, decide_eq_true_eq]; omega)]
        simp [hnone] at h
      · simp only [lowerAscii, Bool.and_eq_true, decide_eq_true_eq, if_neg hlt]
  rw [t.lower_plain hplain, List.map_congr_left hfix, List.map_id']

theorem intSpace_of_digit {c d : Nat} (h : t.digit c = some d) : t.intSpace c = false := by
  have hspace := t.isSpace_of_digit h
  by_cases hc : c < 128
  · rw [t.isSpace_ascii c hc] at hspace
    simp only [asciiSpace, Bool.or_eq_false_iff, Bool.and_eq_false_iff,
      decide_eq_false_iff_not] at hspace
    simp only [intSpace, if_pos hc, Bool.or_eq_false_iff, Bool.and_eq_false_iff,
      decide_eq_false_iff_not]
    omega
  · simp only [intSpace, if_neg hc, hspace]

theorem int?_of_digits {s : Str} (hs : ∀ c ∈ s, (t.digit c).isSome = true) (hne : s ≠ [])
    (hlen : s.length ≤ maxStrDigits) : t.int? s = some (ofDigits (s.filterMap t.digit) : Int) := by
  have hstrip : Str.strip t.intSpace s = s := Str.strip_eq_self fun c hc => by
    obtain ⟨d, hd⟩ := Option.isSome_iff_exists.1 (hs c hc)
    exact intSpace_of_digit hd
  have hsign : ∀ c, c = 45 ∨ c = 43 → s.head? ≠ some c := by
    intro c hc hhead
    have hdigit := hs c (List.mem_of_head? hhead)
    rcases hc with rfl | rfl
    · simp [t.digit_ascii 45 (by omega), asciiDigit] at hdigit
    · simp [t.digit_ascii 43 (by omega), asciiDigit] at hdigit
  simp [int?, hstrip, hsign, digitRun_of_digits hs hne, filterMap_digit_length hs, hlen]

theorem int?_decimal {n : Nat} (h : (decimal n).length ≤ maxStrDigits) :
    t.int? (decimal n) = some (n : Int) := by
  have hdigits : (decimal n).filterMap t.digit = (decimal n).map (· - 48) := by
    rw [List.filterMap_congr fun c hc => digit_of_decimal hc]
    simp
  rw [int?_of_digits (fun c hc => by simp [digit_of_decimal hc]) (decimal_ne_nil n) h, hdigits,
    ofDigits_decimal]

end Unicode

end Lib
