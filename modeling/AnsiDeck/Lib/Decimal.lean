import AnsiDeck.Lib.Str
import Mathlib.Algebra.Group.Nat.Defs
import Mathlib.Data.List.Basic

/-!
# Decimal numerals

`str(n)` and the number that a row of digits writes. They undo each other (`ofDigits_decimal`), and
of all the ways to write a number `decimal` is the one without leading zeros (`decimal_head`).
-/

namespace Lib

/-- `str(n)` of a number that is not negative. -/
def decimal (n : Nat) : Str := (Nat.toDigits 10 n).map Char.toNat

/-- `str(n)`. -/
def decimalInt : Int → Str
  | .ofNat n => decimal n
  | .negSucc n => 45 :: decimal (n + 1)

/-- The number that digits write, the highest digit first. -/
def ofDigits (digits : List Nat) : Nat := digits.foldl (fun n d => 10 * n + d) 0

theorem ofDigits_concat (digits : List Nat) (d : Nat) :
    ofDigits (digits ++ [d]) = 10 * ofDigits digits + d := by
  simp [ofDigits]

theorem toNat_digitChar : ∀ n < 10, n.digitChar.toNat = 48 + n := by decide

theorem decimal_of_lt {n : Nat} (h : n < 10) : decimal n = [48 + n] := by
  rw [decimal, Nat.toDigits_of_lt_base h, List.map_singleton, toNat_digitChar n h]

theorem decimal_of_ge {n : Nat} (h : 10 ≤ n) : decimal n = decimal (n / 10) ++ [48 + n % 10] := by
  rw [decimal, Nat.toDigits_of_base_le (by omega) h, List.map_append, List.map_singleton,
    toNat_digitChar _ (Nat.mod_lt n (by omega)), decimal]

/-- Reading a numeral from its last digit. -/
theorem decimal_induction {P : Nat → Prop} (small : ∀ n < 10, P n)
    (step : ∀ n, 10 ≤ n → P (n / 10) → P n) (n : Nat) : P n := by
  induction n using Nat.strongRecOn with
  | _ n ih =>
    by_cases h : n < 10
    · exact small n h
    · exact step n (by omega) (ih (n / 10) (by omega))

theorem digit_of_mem_decimal {n c : Nat} (hc : c ∈ decimal n) : 48 ≤ c ∧ c ≤ 57 := by
  induction n using decimal_induction with
  | small n h =>
    rw [decimal_of_lt h, List.mem_singleton] at hc
    omega
  | step n h ih =>
    rw [decimal_of_ge h] at hc
    rcases List.mem_append.1 hc with hc | hc
    · exact ih hc
    · rw [List.mem_singleton] at hc
      omega

theorem ofDigits_decimal (n : Nat) : ofDigits ((decimal n).map (· - 48)) = n := by
  induction n using decimal_induction with
  | small n h =>
    rw [decimal_of_lt h]
    simp [ofDigits]
  | step n h ih =>
    rw [decimal_of_ge h, List.map_append, List.map_singleton, ofDigits_concat, ih]
    omega

theorem decimal_ne_nil (n : Nat) : decimal n ≠ [] := by
  simp [decimal]

/-- Only zero's numeral begins with a zero. -/
theorem decimal_head {n : Nat} (h : 0 < n) :
    ∃ c rest, decimal n = c :: rest ∧ 49 ≤ c ∧ c ≤ 57 := by
  induction n using decimal_induction with
  | small n hn => exact ⟨48 + n, [], decimal_of_lt hn, by omega, by omega⟩
  | step n hn ih =>
    obtain ⟨c, rest, hrest, hc⟩ := ih (by omega)
    exact ⟨c, rest ++ [48 + n % 10], by rw [decimal_of_ge hn, hrest, List.cons_append], hc⟩

theorem length_decimal_le {n k : Nat} (hk : 0 < k) :
    (decimal n).length ≤ k ↔ n < 10 ^ k := by
  rw [decimal, List.length_map, Nat.length_toDigits_le_iff (by omega) hk]

end Lib
