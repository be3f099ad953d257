import AnsiDeck.Lib.Str
import Mathlib.Algebra.Group.Nat.Defs

/-!
# Unicode's encodings

Python's codecs for UTF-8, UTF-16 and UTF-32, reading with `surrogatepass`: a lone surrogate is a
character like any other, and everything else that is no text is refused. Bytes are numbers below
256. UTF-8 is read a byte at a time, with what the character begun still owes; no byte of a
character that has several is ASCII, and neither is that character (`Owed.Wide`).
-/

namespace Lib

namespace Utf

def isHigh (c : Nat) : Bool := 0xd800 ≤ c && c < 0xdc00

def isLow (c : Nat) : Bool := 0xdc00 ≤ c && c < 0xe000

/-- The character of a pair of surrogates. -/
def pair (high low : Nat) : Nat := 0x10000 + (high - 0xd800) * 0x400 + (low - 0xdc00)

/-- Makes one character of a high and a low surrogate next to each other where both may be joined.
-/
def join : List (Nat × Bool) → Str
  | [] => []
  | [u] => [u.1]
  | u :: v :: us =>
    if u.2 && v.2 && isHigh u.1 && isLow v.1 then pair u.1 v.1 :: join us
    else u.1 :: join (v :: us)

/-! ## UTF-8 -/

/-- What a character still owes: so many bytes, the next one between `low` and `high`. -/
structure Owed where
  left : Nat
  low : Nat
  high : Nat
  value : Nat

/-- Between characters. -/
def Owed.nothing : Owed := ⟨0, 0, 0, 0⟩

/-- A character's first byte. -/
def lead (b : Nat) : Option Owed :=
  if b < 0x80 then some ⟨0, 0, 0, b⟩
  else if 0xc2 ≤ b ∧ b ≤ 0xdf then some ⟨1, 0x80, 0xbf, b - 0xc0⟩
  else if b = 0xe0 then some ⟨2, 0xa0, 0xbf, 0⟩
  else if 0xe1 ≤ b ∧ b ≤ 0xef then some ⟨2, 0x80, 0xbf, b - 0xe0⟩
  else if b = 0xf0 then some ⟨3, 0x90, 0xbf, 0⟩
  else if 0xf1 ≤ b ∧ b ≤ 0xf3 then some ⟨3, 0x80, 0xbf, b - 0xf0⟩
  else if b = 0xf4 then some ⟨3, 0x80, 0x8f, 4⟩
  else none

def Owed.step (o : Owed) (b : Nat) : Option Owed :=
  if o.left = 0 then lead b
  else if o.low ≤ b ∧ b ≤ o.high then some ⟨o.left - 1, 0x80, 0xbf, 64 * o.value + (b - 0x80)⟩
  else none

def utf8 : Owed → List Nat → Option Str
  | o, [] => if o.left = 0 then some [] else none
  | o, b :: bytes =>
    (o.step b).bind fun o => (utf8 o bytes).map fun s => if o.left = 0 then o.value :: s else s

/-- `s.encode()`, `none` where it raises: a lone surrogate has no UTF-8. -/
def encode : Str → Option (List Nat)
  | [] => some []
  | c :: s => (encode s).bind fun bytes =>
    if c < 0x80 then some (c :: bytes)
    else if c < 0x800 then some ([0xc0 + c / 64, 0x80 + c % 64] ++ bytes)
    else if isHigh c || isLow c then none
    else if c < 0x10000 then
      some ([0xe0 + c / 4096, 0x80 + c / 64 % 64, 0x80 + c % 64] ++ bytes)
    else if c < 0x110000 then
      some ([0xf0 + c / 262144, 0x80 + c / 4096 % 64, 0x80 + c / 64 % 64, 0x80 + c % 64] ++ bytes)
    else none

/-! ## UTF-16 and UTF-32 -/

def units16 (big : Bool) : List Nat → Option (List Nat)
  | [] => some []
  | [_] => none
  | a :: b :: bytes => (units16 big bytes).map ((if big then 256 * a + b else 256 * b + a) :: ·)

def utf16 (big : Bool) (bytes : List Nat) : Option Str :=
  (units16 big bytes).map fun us => join (us.map fun u => (u, true))

def utf32 (big : Bool) : List Nat → Option Str
  | [] => some []
  | a :: b :: c :: d :: bytes =>
    let u := if big then 16777216 * a + 65536 * b + 256 * c + d
      else 16777216 * d + 65536 * c + 256 * b + a
    if u ≤ 0x10ffff then (utf32 big bytes).map (u :: ·) else none
  | _ => none

/-! ## ASCII and what is not -/

/-- The byte that is owed next is not ASCII, and the character will not be. -/
structure Owed.Wide (o : Owed) : Prop where
  low : 0x80 ≤ o.low
  left : o.left ≤ 3
  value : 0x80 ≤ (64 * o.value + (o.low - 0x80)) * 64 ^ (o.left - 1)

/-- A first byte is a whole character of ASCII or begins a wide one. -/
theorem lead_cases {b : Nat} {o : Owed} (h : lead b = some o) :
    b < 0x80 ∧ o.left = 0 ∧ o.value = b ∨ 0x80 ≤ b ∧ o.left ≠ 0 ∧ o.Wide := by
  unfold lead at h
  split at h
  · next hb =>
    cases h
    exact .inl ⟨hb, rfl, rfl⟩
  · next hb =>
    right
    refine ⟨by omega, ?_⟩
    split at h
    · next hr =>
      cases h
      refine ⟨by simp, ⟨by simp, by simp, ?_⟩⟩
      show 0x80 ≤ (64 * (b - 0xc0) + (0x80 - 0x80)) * 64 ^ (1 - 1)
      omega
    split at h
    · cases h
      exact ⟨by simp, ⟨by simp, by simp, by decide⟩⟩
    split at h
    · next hr =>
      cases h
      refine ⟨by simp, ⟨by simp, by simp, ?_⟩⟩
      show 0x80 ≤ (64 * (b - 0xe0) + (0x80 - 0x80)) * 64 ^ (2 - 1)
      omega
    split at h
    · cases h
      exact ⟨by simp, ⟨by simp, by simp, by decide⟩⟩
    split at h
    · next hr =>
      cases h
      refine ⟨by simp, ⟨by simp, by simp, ?_⟩⟩
      show 0x80 ≤ (64 * (b - 0xf0) + (0x80 - 0x80)) * 64 ^ (3 - 1)
      omega
    split at h
    · cases h
      exact ⟨by simp, ⟨by simp, by simp, by decide⟩⟩
    · cases h

/-- A byte in the middle of a wide character ends it or leaves it wide. -/
theorem Owed.Wide.step {o o' : Owed} {b : Nat} (h : o.Wide) (hleft : o.left ≠ 0)
    (hstep : o.step b = some o') :
    0x80 ≤ b ∧ (o'.left = 0 ∧ 0x80 ≤ o'.value ∨ o'.left ≠ 0 ∧ o'.Wide) := by
  obtain ⟨hlow, hle, hvalue⟩ := h
  rw [Owed.step, if_neg hleft] at hstep
  split at hstep
  · next hb =>
    refine ⟨by omega, ?_⟩
    cases hstep
    have hcases : o.left = 1 ∨ o.left = 2 ∨ o.left = 3 := by omega
    rcases hcases with h1 | h2 | h3
    · left
      rw [h1] at hvalue ⊢
      refine ⟨rfl, ?_⟩
      show 0x80 ≤ 64 * o.value + (b - 0x80)
      omega
    · right
      rw [h2] at hvalue ⊢
      refine ⟨by simp, ⟨by simp, by simp, ?_⟩⟩
      show 0x80 ≤ (64 * (64 * o.value + (b - 0x80)) + (0x80 - 0x80)) * 64 ^ (1 - 1)
      omega
    · right
      rw [h3] at hvalue ⊢
      refine ⟨by simp, ⟨by simp, by simp, ?_⟩⟩
      show 0x80 ≤ (64 * (64 * o.value + (b - 0x80)) + (0x80 - 0x80)) * 64 ^ (2 - 1)
      omega
  · cases hstep

theorem utf8_ascii {s : Str} (h : ∀ c ∈ s, c < 0x80) {o : Owed} (ho : o.left = 0) :
    utf8 o s = some s := by
  induction s generalizing o with
  | nil => rw [utf8, if_pos ho]
  | cons c s ih =>
    have hlead : o.step c = some ⟨0, 0, 0, c⟩ := by
      rw [Owed.step, if_pos ho, lead, if_pos (h c (List.mem_cons_self ..))]
    rw [utf8, hlead, Option.bind_some, ih (fun x hx => h x (List.mem_cons_of_mem c hx)) rfl]
    rfl

end Utf

end Lib
