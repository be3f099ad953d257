import AnsiDeck.Lib.JsonText
import Mathlib.Tactic.Ring

/-!
# Reading the numbers that were written

A number that `json.dumps` writes is read as what it was: an integer's digits without leading zeros,
and `repr` of a double, whose four layouts all write the decimal they were given
(`number_layOut`). What stands after a number must not go on with it (`Ends`).
-/

namespace Lib

namespace JsonText

/-- Nothing, a comma or a closing bracket: what stands after a value that was written. -/
def Ends (rest : Str) : Prop := ∀ c, rest.head? = some c → c = 44 ∨ c = 93 ∨ c = 125

/-- No more digits. -/
def Stops (rest : Str) : Prop := ∀ c, rest.head? = some c → isDigit c = false

theorem Ends.stops {rest : Str} (h : Ends rest) : Stops rest := by
  intro c hc
  obtain rfl | rfl | rfl := h c hc
  all_goals decide

theorem stops_cons {c : Nat} {s : Str} (h : isDigit c = false) : Stops (c :: s) := by
  intro c' hc
  cases hc
  exact h

theorem Ends.head_ne {rest : Str} (h : Ends rest) {c : Nat} (h44 : c ≠ 44) (h93 : c ≠ 93)
    (h125 : c ≠ 125) : rest.head? ≠ some c := by
  intro hc
  obtain rfl | rfl | rfl := h c hc
  · exact h44 rfl
  · exact h93 rfl
  · exact h125 rfl

/-! ## Digits -/

theorem isDigit_iff {c : Nat} : isDigit c = true ↔ 48 ≤ c ∧ c ≤ 57 := by
  simp [isDigit]

theorem span_digits {digits rest : Str} (h : ∀ c ∈ digits, isDigit c = true) (hrest : Stops rest) :
    (digits ++ rest).takeWhile isDigit = digits ∧ (digits ++ rest).dropWhile isDigit = rest := by
  induction digits with
  | nil =>
    cases rest with
    | nil => exact ⟨rfl, rfl⟩
    | cons c rest =>
      have hc := hrest c rfl
      simp [hc]
  | cons c digits ih =>
    have hc := h c List.mem_cons_self
    obtain ⟨htake, hdrop⟩ := ih fun c hc => h c (List.mem_cons_of_mem _ hc)
    simp [hc, htake, hdrop]

theorem decimal_digits (n : Nat) : ∀ c ∈ decimal n, isDigit c = true :=
  fun _ hc => isDigit_iff.2 (digit_of_mem_decimal hc)

theorem ofDigitChars_decimal (n : Nat) : ofDigitChars (decimal n) = n := ofDigits_decimal n

theorem ofDigits_append (a b : List Nat) :
    ofDigits (a ++ b) = ofDigits a * 10 ^ b.length + ofDigits b := by
  induction b using List.reverseRecOn with
  | nil => simp [ofDigits]
  | append_singleton b d ih =>
    rw [← List.append_assoc, ofDigits_concat, ofDigits_concat, ih, List.length_append,
      List.length_singleton, Nat.pow_succ]
    ring

theorem ofDigitChars_append (a b : Str) :
    ofDigitChars (a ++ b) = ofDigitChars a * 10 ^ b.length + ofDigitChars b := by
  rw [ofDigitChars, List.map_append, ofDigits_append, List.length_map]
  rfl

theorem ofDigitChars_zeros (n : Nat) : ofDigitChars (List.replicate n 48) = 0 := by
  induction n with
  | zero => rfl
  | succ n ih =>
    rw [List.replicate_succ', ofDigitChars_append, ih]
    rfl

/-- The digits before a point: none stand after a zero in front. -/
structure WholePart (digits : Str) : Prop where
  ne_nil : digits ≠ []
  all : ∀ c ∈ digits, isDigit c = true
  zero : digits.head? = some 48 → digits = [48]

theorem wholePart_decimal (n : Nat) : WholePart (decimal n) := by
  refine ⟨decimal_ne_nil n, decimal_digits n, fun hhead => ?_⟩
  obtain rfl | hpos := Nat.eq_zero_or_pos n
  · exact decimal_of_lt (by omega)
  · obtain ⟨c, rest, hrest, hc⟩ := decimal_head hpos
    rw [hrest] at hhead
    cases hhead
    omega

theorem whole_eq {digits rest : Str} (h : WholePart digits) (hrest : Stops rest) :
    whole (digits ++ rest) = some (digits, rest) := by
  obtain ⟨htake, hdrop⟩ := span_digits h.all hrest
  rw [whole]
  split
  · rename_i hhead
    rw [List.head?_append_of_ne_nil _ h.ne_nil] at hhead
    rw [h.zero hhead]
    rfl
  · dsimp only
    rw [htake, hdrop, if_neg h.ne_nil]

theorem fraction_none {s : Str} (h : s.head? ≠ some 46) : fraction s = ([], s) := by
  rw [fraction]
  exact if_neg fun hs => h hs.1

theorem fraction_eq {digits rest : Str} (hne : digits ≠ []) (h : ∀ c ∈ digits, isDigit c = true)
    (hrest : Stops rest) : fraction (46 :: (digits ++ rest)) = (digits, rest) := by
  obtain ⟨htake, hdrop⟩ := span_digits h hrest
  rw [fraction, List.tail_cons, htake, hdrop]
  exact if_pos ⟨rfl, hne⟩

theorem exponent_none {s : Str} (h : s.head? ≠ some 101) (h' : s.head? ≠ some 69) :
    exponent s = (none, s) := by
  rw [exponent]
  exact if_neg fun hs => hs.1.elim h h'

theorem exponent_exponentText (e : Int) {rest : Str} (hrest : Stops rest) :
    exponent (Double.exponentText e ++ rest) = (some e, rest) := by
  let digits := if (decimal e.natAbs).length < 2 then 48 :: decimal e.natAbs else decimal e.natAbs
  have hdigits : ∀ c ∈ digits, isDigit c = true := by
    intro c hc
    dsimp only [digits] at hc
    split at hc
    · obtain rfl | hc := List.mem_cons.1 hc
      · decide
      · exact decimal_digits _ c hc
    · exact decimal_digits _ c hc
  have hne : digits ≠ [] := by
    dsimp only [digits]
    split
    · exact List.cons_ne_nil _ _
    · exact decimal_ne_nil _
  have hvalue : ofDigitChars digits = e.natAbs := by
    dsimp only [digits]
    split
    · rw [← List.singleton_append, ofDigitChars_append, ofDigitChars_decimal]
      simp [ofDigitChars, ofDigits]
    · exact ofDigitChars_decimal _
  obtain ⟨htake, hdrop⟩ := span_digits hdigits hrest
  have htext : Double.exponentText e ++ rest =
      101 :: (if e < 0 then 45 else 43) :: (digits ++ rest) := by
    rw [Double.exponentText]
    by_cases he : e < 0
    · rw [if_pos he, if_pos he]
      rfl
    · rw [if_neg he, if_neg he]
      rfl
  rw [htext, exponent]
  by_cases he : e < 0
  · rw [if_pos he]
    have hunsigned : unsigned (45 :: (digits ++ rest)) = digits ++ rest := if_pos (.inl rfl)
    rw [List.tail_cons, hunsigned, htake, hdrop, hvalue]
    rw [if_pos ⟨.inl rfl, hne⟩, List.head?_cons, if_pos rfl]
    congr 2
    omega
  · rw [if_neg he]
    have hunsigned : unsigned (43 :: (digits ++ rest)) = digits ++ rest := if_pos (.inr rfl)
    rw [List.tail_cons, hunsigned, htake, hdrop, hvalue]
    rw [if_pos ⟨.inl rfl, hne⟩, List.head?_cons, if_neg (by decide)]
    congr 2
    omega

/-! ## Numbers -/

def sign (negative : Bool) : Str := if negative then [45] else []

theorem number_eq (d : Dialect) (negative : Bool) {digits f rest s : Str}
    {e : Option Int} {s' : Str}
    (h : WholePart digits) (hs : Stops s) (hf : fraction s = (f, s'))
    (he : exponent s' = (e, rest)) :
    number d (sign negative ++ (digits ++ s)) =
      if f = [] ∧ e = none then
        if d.maxDigits.all fun most => decide (digits.length ≤ most) then
          some (.int (if negative then -(ofDigitChars digits : Int) else ofDigitChars digits), s)
        else none
      else some (.float (.ofDecimal negative (ofDigitChars (digits ++ f))
        (e.getD 0 - f.length)), rest) := by
  have hhead : (sign negative ++ (digits ++ s)).head? = some 45 ↔ negative = true := by
    cases negative with
    | true => simp [sign]
    | false =>
      rw [sign, if_neg (by simp), List.nil_append, List.head?_append_of_ne_nil _ h.ne_nil]
      constructor
      · intro h45
        have hdigit := h.all 45 (List.mem_of_head? h45)
        exact absurd hdigit (by decide)
      · simp
  have htail : (if negative = true then (sign negative ++ (digits ++ s)).tail
      else sign negative ++ (digits ++ s)) = digits ++ s := by
    cases negative with
    | true => rfl
    | false => rfl
  rw [number]
  simp only [hhead, htail, whole_eq h hs, Option.bind_some, hf, he, Bool.decide_eq_true]

theorem number_decimalInt (d : Dialect) (n : Int) {rest : Str} (h : Ends rest) :
    number d (decimalInt n ++ rest) =
      if d.maxDigits.all fun most => decide ((decimal n.natAbs).length ≤ most)
        then some (.int n, rest)
      else none := by
  have hf : fraction rest = ([], rest) :=
    fraction_none (h.head_ne (by decide) (by decide) (by decide))
  have he : exponent rest = (none, rest) :=
    exponent_none (h.head_ne (by decide) (by decide) (by decide))
      (h.head_ne (by decide) (by decide) (by decide))
  have hread (negative : Bool) (n : Nat) := number_eq d negative (wholePart_decimal n) h.stops hf he
  cases n with
  | ofNat n =>
    have hn := hread false n
    rw [if_pos ⟨rfl, rfl⟩, ofDigitChars_decimal] at hn
    exact hn
  | negSucc n =>
    have hn := hread true (n + 1)
    rw [if_pos ⟨rfl, rfl⟩, ofDigitChars_decimal] at hn
    exact hn

/-! ## `repr` of a double -/

theorem ofDecimal_zeros (negative : Bool) (c n : Nat) (e : Int) :
    Double.ofDecimal negative (c * 10 ^ n) (e - n) = Double.ofDecimal negative c e := by
  induction n with
  | zero => simp
  | succ n ih =>
    rw [Nat.pow_succ, ← Nat.mul_assoc]
    have hstep := Double.ofDecimal_mul_ten negative (c * 10 ^ n) (e - n)
    rw [show e - ((n + 1 : Nat) : Int) = e - n - 1 by omega, hstep, ih]

/-- Digits, with a point somewhere in them or not, and an exponent or not. -/
theorem number_float (d : Dialect) (negative : Bool) {digits f rest s s' : Str} {e : Option Int}
    (h : WholePart digits) (hs : Stops s) (hf : fraction s = (f, s')) (he : exponent s' = (e, rest))
    (hfloat : f ≠ [] ∨ e ≠ none) :
    number d (sign negative ++ (digits ++ s)) =
      some (.float (.ofDecimal negative (ofDigitChars (digits ++ f)) (e.getD 0 - f.length)),
      rest) := by
  rw [number_eq d negative h hs hf he, if_neg]
  rintro ⟨hfnil, henone⟩
  exact hfloat.elim (absurd hfnil) (absurd henone)

theorem wholePart_take {digits : Str} (h : WholePart digits) {n : Nat} (hn : 0 < n) :
    WholePart (digits.take n) := by
  obtain ⟨c, tail, rfl⟩ := List.exists_cons_of_ne_nil h.ne_nil
  obtain ⟨n, rfl⟩ := Nat.exists_eq_succ_of_ne_zero (Nat.ne_of_gt hn)
  refine ⟨by simp, fun c hc => h.all c (List.mem_of_mem_take hc), fun hhead => ?_⟩
  have hzero := h.zero hhead
  cases hzero
  simp

/-- A decimal as `repr` lays it out is read as itself. -/
theorem number_layOut (d : Dialect) (negative : Bool) (form : DecimalForm)
    (hzero : form.coefficient = 0 → form.exponent = 0) {rest : Str} (h : Ends rest) :
    number d (sign negative ++ (Double.layOut form ++ rest)) =
      some (.float (.ofDecimal negative form.coefficient form.exponent), rest) := by
  have hdigits := wholePart_decimal form.coefficient
  have hvalue := ofDigitChars_decimal form.coefficient
  have hpos : 0 < (decimal form.coefficient).length := List.length_pos_iff.2 hdigits.ne_nil
  have he : exponent rest = (none, rest) :=
    exponent_none (h.head_ne (by decide) (by decide) (by decide))
      (h.head_ne (by decide) (by decide) (by decide))
  rw [Double.layOut]
  generalize decimal form.coefficient = digits at *
  split
  · split
    · -- `0.00123`
      rename_i hpoint
      let f := List.replicate (digits.length + form.exponent).natAbs 48 ++ digits
      have hf : fraction (46 :: (f ++ rest)) = (f, rest) := by
        refine fraction_eq (by simp [f, hdigits.ne_nil]) (fun c hc => ?_) h.stops
        obtain hc | hc := List.mem_append.1 hc
        · rw [List.eq_of_mem_replicate hc]
          decide
        · exact hdigits.all c hc
      have hzeroPart : WholePart [48] := ⟨by simp, by decide, fun _ => rfl⟩
      have hread := number_float d negative hzeroPart (stops_cons (by decide)) hf he
        (.inl (by simp [f, hdigits.ne_nil]))
      rw [show sign negative ++
        (str "0." ++ List.replicate (digits.length + form.exponent).natAbs 48 ++
        digits ++ rest) = sign negative ++ ([48] ++ (46 :: (f ++ rest))) by
          simp [f, str, List.append_assoc], hread]
      have hcoefficient : ofDigitChars ([48] ++ f) = form.coefficient := by
        rw [ofDigitChars_append, ofDigitChars_append, ofDigitChars_zeros, hvalue]
        simp [ofDigitChars, ofDigits]
      have hexponent : (none : Option Int).getD 0 - f.length = form.exponent := by
        simp only [f, List.length_append, List.length_replicate, Option.getD_none]
        omega
      rw [hcoefficient, hexponent]
    split
    · -- `12300.0`
      rename_i hpoint hshort
      let n := ((digits.length : Int) + form.exponent).toNat - digits.length
      have hn : (n : Int) = form.exponent := by
        simp only [n]
        omega
      have hpart : WholePart (digits ++ List.replicate n 48) := by
        refine ⟨by simp [hdigits.ne_nil], fun c hc => ?_, fun hhead => ?_⟩
        · obtain hc | hc := List.mem_append.1 hc
          · exact hdigits.all c hc
          · rw [List.eq_of_mem_replicate hc]
            decide
        · rw [List.head?_append_of_ne_nil _ hdigits.ne_nil] at hhead
          have hsingle := hdigits.zero hhead
          rw [hsingle] at hvalue
          have hnil : n = 0 := by
            have := hzero (hvalue.symm.trans (by decide))
            omega
          rw [hsingle, hnil]
          rfl
      have hf : fraction (46 :: ([48] ++ rest)) = ([48], rest) :=
        fraction_eq (by simp) (by decide) h.stops
      have hread := number_float d negative hpart (stops_cons (by decide)) hf he (.inl (by simp))
      rw [show sign negative ++ (digits ++ List.replicate n 48 ++ str ".0" ++ rest) =
        sign negative ++ (digits ++ List.replicate n 48 ++ (46 :: ([48] ++ rest))) by
          simp [str, List.append_assoc], hread]
      have hcoefficient : ofDigitChars (digits ++ List.replicate n 48 ++ [48]) =
          form.coefficient * 10 ^ (n + 1) := by
        rw [ofDigitChars_append, ofDigitChars_append, ofDigitChars_zeros, hvalue,
          List.length_replicate, Nat.pow_succ]
        simp [ofDigitChars, ofDigits, Nat.mul_assoc]
      have hexponent : (none : Option Int).getD 0 - ([48] : Str).length =
          form.exponent - (n + 1 : Nat) := by
        simp only [List.length_singleton, Option.getD_none]
        omega
      rw [hcoefficient, hexponent, ofDecimal_zeros]
    · -- `12.3`
      rename_i hpoint hlong
      let n := ((digits.length : Int) + form.exponent).toNat
      have hn : (n : Int) = digits.length + form.exponent := by
        simp only [n]
        omega
      have hne : digits.drop n ≠ [] := by
        rw [ne_eq, List.drop_eq_nil_iff]
        omega
      have hf : fraction (46 :: (digits.drop n ++ rest)) = (digits.drop n, rest) :=
        fraction_eq hne (fun c hc => hdigits.all c (List.mem_of_mem_drop hc)) h.stops
      have hread := number_float d negative (wholePart_take hdigits (n := n) (by omega))
        (stops_cons (by decide)) hf he (.inl hne)
      rw [show sign negative ++ (digits.take n ++ str "." ++ digits.drop n ++ rest) =
        sign negative ++ (digits.take n ++ (46 :: (digits.drop n ++ rest))) by
          simp [str, List.append_assoc], hread, List.take_append_drop, hvalue]
      have hexponent : (none : Option Int).getD 0 - (digits.drop n).length = form.exponent := by
        simp only [List.length_drop, Option.getD_none]
        omega
      rw [hexponent]
  · -- `1.23e+45`
    have hexp := exponent_exponentText (digits.length + form.exponent - 1) h.stops
    have htake : (digits.take 1).length = 1 := by
      rw [List.length_take]
      omega
    have hpart := wholePart_take hdigits (n := 1) (by omega)
    have hstops : Stops (Double.exponentText (digits.length + form.exponent - 1) ++ rest) :=
      stops_cons (by decide)
    split
    · rename_i hone
      have hall : digits.take 1 = digits := List.take_of_length_le (by omega)
      have hf := fraction_none
        (s := Double.exponentText (digits.length + form.exponent - 1) ++ rest)
        (by simp [Double.exponentText, str])
      have hread := number_float d negative hpart hstops hf hexp (.inr (by simp))
      rw [List.append_nil, List.append_assoc, hread, hall, List.append_nil, hvalue]
      have hexponent : (some ((digits.length : Int) + form.exponent - 1)).getD 0 -
        ([] : Str).length =
          form.exponent := by
        simp only [List.length_nil, Option.getD_some]
        omega
      rw [hexponent]
    · rename_i hmore
      have hne : digits.drop 1 ≠ [] := by
        rw [ne_eq, List.drop_eq_nil_iff]
        omega
      have hf := fraction_eq hne (fun c hc => hdigits.all c (List.mem_of_mem_drop hc)) hstops
      have hread := number_float d negative hpart (stops_cons (by decide)) hf hexp (.inl hne)
      rw [show sign negative ++ (digits.take 1 ++ 46 :: digits.drop 1 ++
        Double.exponentText (digits.length + form.exponent - 1) ++ rest) = sign negative ++
          (digits.take 1 ++ (46 :: (digits.drop 1 ++
            (Double.exponentText (digits.length + form.exponent - 1) ++ rest)))) by
          simp [List.append_assoc], hread, List.take_append_drop, hvalue]
      have hexponent : (some ((digits.length : Int) + form.exponent - 1)).getD 0 -
          (digits.drop 1).length = form.exponent := by
        simp only [List.length_drop, Option.getD_some]
        omega
      rw [hexponent]

theorem number_repr (d : Dialect) (negative : Bool) {mantissa shift : Nat}
    (hcanonical : CanonicalDouble mantissa shift) {rest : Str} (h : Ends rest) :
    number d (Double.repr negative mantissa shift hcanonical ++ rest) =
      some (.float (.finite negative mantissa shift hcanonical), rest) := by
  rw [Double.repr, List.append_assoc]
  have hread := number_layOut d negative (Double.shortest mantissa shift hcanonical)
    Double.shortest_eq_zero h
  rw [Double.ofDecimal_sign (Double.ofDecimal_shortest hcanonical)] at hread
  exact hread

end JsonText

end Lib
