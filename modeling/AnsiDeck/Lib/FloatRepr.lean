import AnsiDeck.Lib.Double

/-!
# The shortest decimal of a double

`repr(float)`: of the shortest decimals that read as the double, the one nearest to it, written with
an exponent when it is very large or very small. Seventeen digits are always enough; `shortest`
falls back on the exact decimal instead of proving that, so that what it gives reads as the double
either way (`ofDecimal_shortest`).
-/

namespace Lib

/-- `coefficient * 10 ^ exponent`. -/
structure DecimalForm where
  coefficient : Nat
  exponent : Int
  deriving DecidableEq

namespace Double

/-- Where its decimal point stands: the value is below `10 ^ point`, and no smaller power. -/
def point (mantissa shift : Nat) : Int :=
  ((decimal (mantissa * 2 ^ shift * 10 ^ 400 / unit)).length : Int) - 400

/-- The value in units of `10 ^ exponent`, as a fraction. -/
def inUnits (mantissa shift : Nat) : Int → Nat × Nat
  | .ofNat e => (mantissa * 2 ^ shift, unit * 10 ^ e)
  | .negSucc e => (mantissa * 2 ^ shift * 10 ^ (e + 1), unit)

/-- The decimals of `digits` digits on either side of the value, the nearer first. -/
def around (mantissa shift digits : Nat) : List DecimalForm :=
  let exponent := point mantissa shift - digits
  let (p, q) := inUnits mantissa shift exponent
  let below := p / q
  let nearer := roundHalfEven p q
  [nearer, if nearer = below then below + 1 else below].map fun c =>
    if c % 10 = 0 then ⟨c / 10, exponent + 1⟩ else ⟨c, exponent⟩

/-- The decimal that `repr` writes. -/
def shortest (mantissa shift : Nat) (h : CanonicalDouble mantissa shift) : DecimalForm :=
  if mantissa = 0 then ⟨0, 0⟩
  else (((List.range 17).flatMap fun n => around mantissa shift (n + 1)).find? fun d =>
      decide (ofDecimal false d.coefficient d.exponent = .finite false mantissa shift h)).getD
    ⟨mantissa * 2 ^ shift * 5 ^ 1074, -1074⟩

theorem ofDecimal_zero (negative : Bool) (e : Int) :
    ofDecimal negative 0 e = .finite negative 0 0 (by decide) := by
  cases e with
  | ofNat e =>
    rw [ofDecimal]
    exact ofRatio_exact negative _ Nat.one_pos (by simp)
  | negSucc e =>
    rw [ofDecimal]
    exact ofRatio_exact negative _ (Nat.pow_pos (by omega)) (by simp)

theorem ofDecimal_exact {mantissa shift : Nat} (h : CanonicalDouble mantissa shift) (n : Nat)
    (hunit : unit = 2 ^ n) :
    ofDecimal false (mantissa * 2 ^ shift * 5 ^ n) (-n) = .finite false mantissa shift h := by
  rw [ofDecimal_neg]
  apply ofRatio_exact false h (Nat.pow_pos (by omega))
  rw [hunit, Nat.mul_assoc, ← Nat.mul_pow]

/-- What `repr` writes reads as the double it writes. -/
theorem ofDecimal_shortest {mantissa shift : Nat} (h : CanonicalDouble mantissa shift) :
    ofDecimal false (shortest mantissa shift h).coefficient (shortest mantissa shift h).exponent
      = .finite false mantissa shift h := by
  rw [shortest]
  split
  · next hzero =>
    subst hzero
    obtain rfl : shift = 0 := by
      rcases h.2.1 with h0 | hfull
      · exact h0
      · omega
    exact ofDecimal_zero false 0
  · generalize hfind : List.find? _ _ = found
    cases found with
    | some d =>
      have hd := List.find?_some hfind
      exact of_decide_eq_true hd
    | none =>
      rw [Option.getD_none]
      exact ofDecimal_exact h 1074 (by rw [unit])

/-- Only zero's decimal has the coefficient zero, and it is `0`. -/
theorem shortest_eq_zero {mantissa shift : Nat} {h : CanonicalDouble mantissa shift}
    (hc : (shortest mantissa shift h).coefficient = 0) :
    (shortest mantissa shift h).exponent = 0 := by
  have hread := ofDecimal_shortest h
  rw [hc, ofDecimal_zero] at hread
  obtain rfl : mantissa = 0 := by
    cases hread
    rfl
  rfl

/-- `e+16`. -/
def exponentText (e : Int) : Str :=
  let digits := decimal e.natAbs
  str "e" ++ (if e < 0 then str "-" else str "+") ++
    (if digits.length < 2 then 48 :: digits else digits)

/-- A decimal as `repr` lays it out. -/
def layOut (d : DecimalForm) : Str :=
  let digits := decimal d.coefficient
  let point := digits.length + d.exponent
  if -4 < point ∧ point ≤ 16 then
    if point ≤ 0 then str "0." ++ List.replicate point.natAbs 48 ++ digits
    else if (digits.length : Int) ≤ point then
      digits ++ List.replicate (point.toNat - digits.length) 48 ++ str ".0"
    else digits.take point.toNat ++ str "." ++ digits.drop point.toNat
  else digits.take 1 ++ (if digits.length = 1 then [] else 46 :: digits.drop 1)
    ++ exponentText (point - 1)

/-- `repr(x)` of a finite one. -/
def repr (negative : Bool) (mantissa shift : Nat) (h : CanonicalDouble mantissa shift) : Str :=
  (if negative then [45] else []) ++ layOut (shortest mantissa shift h)

end Double

end Lib
