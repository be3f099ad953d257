import AnsiDeck.Lib.Decimal

/-!
# Doubles

IEEE 754's binary64, as Python's `float`: a finite one is a sign and a multiple of `2 ^ -1074`, kept
as a mantissa and a shift in the one way the format has for it. `ofRatio` rounds a fraction to the
nearest, to even where two are as near; `ofDecimal` is `float` of a decimal numeral.
-/

namespace Lib

/-- The mantissas and shifts of the format: a shift is only used where the mantissa is full. -/
def CanonicalDouble (mantissa shift : Nat) : Prop :=
  mantissa < 2 ^ 53 ∧ (shift = 0 ∨ 2 ^ 52 ≤ mantissa) ∧ shift ≤ 2045

instance (mantissa shift : Nat) : Decidable (CanonicalDouble mantissa shift) :=
  inferInstanceAs (Decidable (_ ∧ _))

/-- A finite one is `±mantissa * 2 ^ shift`, in units of `2 ^ -1074`. -/
inductive Double
  | nan
  | infinity (negative : Bool)
  | finite (negative : Bool) (mantissa shift : Nat) (canonical : CanonicalDouble mantissa shift)
  deriving DecidableEq

namespace Double

/-- How many of the least double make one. -/
def unit : Nat := 2 ^ 1074

/-- The fraction rounded to a whole number, to the even one of two that are as near. -/
def roundHalfEven (a b : Nat) : Nat :=
  let whole := a / b
  let twice := 2 * (a % b)
  if twice < b ∨ (twice = b ∧ whole % 2 = 0) then whole else whole + 1

/-- A mantissa that rounding has made one bit too long. -/
def carry (mantissa shift : Nat) : Nat × Nat :=
  if mantissa = 2 ^ 53 then (2 ^ 52, shift + 1) else (mantissa, shift)

/-- `±p / q`, rounded. The shift leaves 53 bits, and what needs a larger one is infinite. -/
def ofRatio (negative : Bool) (p q : Nat) : Double :=
  let scaled := p * unit
  let shift := (scaled / q).log2 - 52
  let rounded := carry (roundHalfEven scaled (q * 2 ^ shift)) shift
  if h : CanonicalDouble rounded.1 rounded.2 then .finite negative rounded.1 rounded.2 h
  else .infinity negative

/-- `±coefficient * 10 ^ exponent`, rounded. -/
def ofDecimal (negative : Bool) (coefficient : Nat) (exponent : Int) : Double :=
  match exponent with
  | .ofNat e => ofRatio negative (coefficient * 10 ^ e) 1
  | .negSucc e => ofRatio negative coefficient (10 ^ (e + 1))

theorem roundHalfEven_mul (a : Nat) {b : Nat} (hb : 0 < b) : roundHalfEven (a * b) b = a := by
  have hdiv : a * b / b = a := Nat.mul_div_cancel a hb
  have hmod : a * b % b = 0 := Nat.mul_mod_left a b
  simp [roundHalfEven, hdiv, hmod, hb]

theorem roundHalfEven_mul_right (a b : Nat) {k : Nat} (hk : 0 < k) :
    roundHalfEven (a * k) (b * k) = roundHalfEven a b := by
  have hdiv : a * k / (b * k) = a / b := Nat.mul_div_mul_right a b hk
  have hmod : a * k % (b * k) = a % b * k := Nat.mul_mod_mul_right k a b
  have hlt : 2 * (a % b * k) < b * k ↔ 2 * (a % b) < b := by
    rw [← Nat.mul_assoc, Nat.mul_lt_mul_right hk]
  have heq : 2 * (a % b * k) = b * k ↔ 2 * (a % b) = b := by
    rw [← Nat.mul_assoc]
    exact ⟨Nat.eq_of_mul_eq_mul_right hk, fun h => by rw [h]⟩
  simp only [roundHalfEven, hdiv, hmod, hlt, heq]

/-- Only the fraction matters, not how it is written. -/
theorem ofRatio_mul_right (negative : Bool) (p q : Nat) {k : Nat} (hk : 0 < k) :
    ofRatio negative (p * k) (q * k) = ofRatio negative p q := by
  have hscaled : p * k * unit = p * unit * k := Nat.mul_right_comm ..
  have hwhole : p * k * unit / (q * k) = p * unit / q := by
    rw [hscaled, Nat.mul_div_mul_right _ _ hk]
  have hround : ∀ s : Nat,
      roundHalfEven (p * k * unit) (q * k * 2 ^ s) = roundHalfEven (p * unit) (q * 2 ^ s) := by
    intro s
    rw [hscaled, Nat.mul_right_comm q k, roundHalfEven_mul_right _ _ hk]
  rw [ofRatio, ofRatio, hwhole, hround]

theorem log2_mantissa {mantissa shift : Nat} (h : CanonicalDouble mantissa shift) :
    (mantissa * 2 ^ shift).log2 - 52 = shift := by
  obtain ⟨hlt, hfull, -⟩ := h
  rcases hfull with rfl | hfull
  · by_cases h0 : mantissa = 0
    · subst h0
      rfl
    · have hlog : (mantissa * 2 ^ 0).log2 < 53 := by
        rw [Nat.pow_zero, Nat.mul_one]
        exact (Nat.log2_lt h0).2 hlt
      omega
  · have hpos : mantissa * 2 ^ shift ≠ 0 :=
      Nat.mul_ne_zero (by omega) (Nat.two_pow_pos shift).ne'
    have hlog : (mantissa * 2 ^ shift).log2 = 52 + shift := by
      have hupper : 52 + shift + 1 = 53 + shift := by omega
      rw [Nat.log2_eq_iff hpos, hupper, Nat.pow_add, Nat.pow_add]
      exact ⟨Nat.mul_le_mul_right _ hfull, Nat.mul_lt_mul_of_pos_right hlt (Nat.two_pow_pos shift)⟩
    omega

/-- Rounding a double gives that double. -/
theorem ofRatio_exact (negative : Bool) {mantissa shift : Nat}
    (h : CanonicalDouble mantissa shift) {p q : Nat} (hq : 0 < q)
    (heq : p * unit = mantissa * 2 ^ shift * q) :
    ofRatio negative p q = .finite negative mantissa shift h := by
  have hwhole : p * unit / q = mantissa * 2 ^ shift := by
    rw [heq, Nat.mul_div_cancel _ hq]
  have hlog := log2_mantissa h
  have hround : roundHalfEven (p * unit) (q * 2 ^ shift) = mantissa := by
    rw [heq, Nat.mul_assoc, Nat.mul_comm (2 ^ shift) q]
    exact roundHalfEven_mul mantissa (Nat.mul_pos hq (Nat.two_pow_pos shift))
  have hcarry : carry mantissa shift = (mantissa, shift) := by
    rw [carry, if_neg h.1.ne]
  rw [ofRatio]
  simp only [hwhole, hlog, hround, hcarry]
  rw [dif_pos h]

theorem ofDecimal_natCast (negative : Bool) (c e : Nat) :
    ofDecimal negative c e = ofRatio negative (c * 10 ^ e) 1 := by
  show ofDecimal negative c (.ofNat e) = _
  rw [ofDecimal]

theorem ofDecimal_neg (negative : Bool) (c e : Nat) :
    ofDecimal negative c (-e) = ofRatio negative c (10 ^ e) := by
  cases e with
  | zero =>
    have hzero : (-((0 : Nat) : Int)) = .ofNat 0 := rfl
    rw [hzero, ofDecimal, Nat.pow_zero, Nat.mul_one]
  | succ e =>
    have hsucc : (-((e + 1 : Nat) : Int)) = .negSucc e := by omega
    rw [hsucc, ofDecimal]

/-- A zero more in the coefficient is one less in the exponent. -/
theorem ofDecimal_mul_ten (negative : Bool) (c : Nat) (e : Int) :
    ofDecimal negative (c * 10) (e - 1) = ofDecimal negative c e := by
  rcases Int.eq_nat_or_neg e with ⟨n, rfl | rfl⟩
  · cases n with
    | zero =>
      have hpred : ((0 : Nat) : Int) - 1 = -((1 : Nat) : Int) := by omega
      rw [hpred, ofDecimal_neg, ofDecimal_natCast, Nat.pow_zero, Nat.pow_one, Nat.mul_one]
      exact (congrArg (ofRatio negative (c * 10)) (Nat.one_mul 10)).symm.trans
        (ofRatio_mul_right negative c 1 (by omega))
    | succ n =>
      have hpred : ((n + 1 : Nat) : Int) - 1 = (n : Int) := by omega
      rw [hpred, ofDecimal_natCast, ofDecimal_natCast, Nat.pow_succ, Nat.mul_assoc,
        Nat.mul_comm 10]
  · have hpred : -(n : Int) - 1 = -((n + 1 : Nat) : Int) := by omega
    rw [hpred, ofDecimal_neg, ofDecimal_neg, Nat.pow_succ]
    exact ofRatio_mul_right negative c (10 ^ n) (by omega)

/-- The sign is no part of the rounding. -/
theorem ofRatio_sign {p q mantissa shift : Nat} {h : CanonicalDouble mantissa shift}
    (hread : ofRatio false p q = .finite false mantissa shift h) (negative : Bool) :
    ofRatio negative p q = .finite negative mantissa shift h := by
  rw [ofRatio] at hread ⊢
  split at hread
  · next hcanonical =>
    rw [dif_pos hcanonical]
    cases hread
    rfl
  · cases hread

theorem ofDecimal_sign {c : Nat} {e : Int} {mantissa shift : Nat}
    {h : CanonicalDouble mantissa shift}
    (hread : ofDecimal false c e = .finite false mantissa shift h) (negative : Bool) :
    ofDecimal negative c e = .finite negative mantissa shift h := by
  cases e with
  | ofNat e =>
    rw [ofDecimal] at hread ⊢
    exact ofRatio_sign hread negative
  | negSucc e =>
    rw [ofDecimal] at hread ⊢
    exact ofRatio_sign hread negative

end Double

end Lib
