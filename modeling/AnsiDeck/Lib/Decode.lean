import AnsiDeck.Lib.Utf

/-!
# Bytes that may not be text

`bytes.decode("utf-8", "replace")`: what is not UTF-8 becomes U+FFFD, one for the bytes of a
character that goes on with a wrong one. There are never more characters than bytes
(`length_decode_le`), and the end of a text is decoded on its own as it is in the text, but for at
most three characters (`decode_append`).
-/

namespace Lib

namespace Utf

/-- A character's first byte, where the surrogates have none. -/
def leadStrict (b : Nat) : Option Owed := if b = 0xed then some ⟨2, 0x80, 0x9f, 0xd⟩ else lead b

/-- With what the character begun still owes. -/
def decodeFrom : Owed → List Nat → Str
  | o, [] => if o.left = 0 then [] else [0xfffd]
  | o, b :: bytes =>
    if o.left ≠ 0 ∧ o.low ≤ b ∧ b ≤ o.high then
      if o.left = 1 then (64 * o.value + (b - 0x80)) :: decodeFrom .nothing bytes
      else decodeFrom ⟨o.left - 1, 0x80, 0xbf, 64 * o.value + (b - 0x80)⟩ bytes
    else
      -- the byte begins anew
      (if o.left = 0 then [] else [0xfffd]) ++
        match leadStrict b with
        | none => 0xfffd :: decodeFrom .nothing bytes
        | some o' => if o'.left = 0 then o'.value :: decodeFrom .nothing bytes
            else decodeFrom o' bytes

def decode (bytes : List Nat) : Str := decodeFrom .nothing bytes

example : decode [0x61, 0xe2, 0x82, 0x61, 0xe2, 0x82, 0xac] = [0x61, 0xfffd, 0x61, 0x20ac] := by
  decide

theorem length_decodeFrom_le (bytes : List Nat) : ∀ o : Owed,
    (decodeFrom o bytes).length ≤ bytes.length + if o.left = 0 then 0 else 1 := by
  induction bytes with
  | nil =>
    intro o
    rw [decodeFrom]
    split <;> simp
  | cons b bytes ih =>
    intro o
    have hnothing := ih .nothing
    have hone : ∀ o : Owed, (decodeFrom o bytes).length ≤ bytes.length + 1 := by
      intro o
      have := ih o
      split at this <;> omega
    simp only [Owed.nothing, if_true] at hnothing
    rw [decodeFrom, List.length_cons]
    split
    · next howed =>
      rw [if_neg howed.1]
      split
      · simp only [List.length_cons, Owed.nothing]
        omega
      · exact (hone _).trans (Nat.le_succ _)
    · have hnew : (match leadStrict b with
          | none => 0xfffd :: decodeFrom .nothing bytes
          | some o' => if o'.left = 0 then o'.value :: decodeFrom .nothing bytes
            else decodeFrom o' bytes).length ≤ bytes.length + 1 := by
        split
        · simp only [List.length_cons, Owed.nothing]
          omega
        · split
          · simp only [List.length_cons, Owed.nothing]
            omega
          · exact hone _
      rw [List.length_append]
      split
      · simp only [List.length_nil]
        omega
      · simp only [List.length_singleton]
        omega

theorem length_decode_le (bytes : List Nat) : (decode bytes).length ≤ bytes.length :=
  length_decodeFrom_le bytes .nothing

/-! ## The end of a text, decoded on its own -/

/-- What a character that is begun may owe: at most three bytes, none of which begins a character.
-/
structure Owed.Begun (o : Owed) : Prop where
  left : o.left ≤ 3
  low : o.left ≠ 0 → 0x80 ≤ o.low
  high : o.left ≠ 0 → o.high ≤ 0xbf

theorem Owed.Begun.nothing : Owed.nothing.Begun :=
  ⟨Nat.zero_le 3, fun h => absurd rfl h, fun h => absurd rfl h⟩

theorem Owed.Begun.lead {b : Nat} {o : Owed} (h : leadStrict b = some o) : o.Begun := by
  unfold leadStrict Utf.lead at h
  split_ifs at h <;> cases h <;> exact ⟨by simp, by simp, by simp⟩

theorem Owed.Begun.next {o : Owed} (h : o.Begun) (value : Nat) :
    (⟨o.left - 1, 0x80, 0xbf, value⟩ : Owed).Begun :=
  ⟨(Nat.sub_le _ _).trans h.left, fun _ => Nat.le_refl _, fun _ => Nat.le_refl _⟩

/-- What is decoded up to a place, and what the character there owes. -/
theorem decodeFrom_append (b : List Nat) : ∀ (a : List Nat) {o : Owed}, o.Begun →
    ∃ out o', o'.Begun ∧ decodeFrom o (a ++ b) = out ++ decodeFrom o' b := by
  intro a
  induction a with
  | nil => exact fun h => ⟨[], _, h, rfl⟩
  | cons c a ih =>
    intro o h
    rw [List.cons_append, decodeFrom]
    split
    · split
      · obtain ⟨out, o', ho', hout⟩ := ih .nothing
        exact ⟨_ :: out, o', ho', by rw [hout, List.cons_append]⟩
      · exact ih (h.next _)
    · cases hlead : leadStrict c with
      | none =>
        obtain ⟨out, o', ho', hout⟩ := ih .nothing
        refine ⟨(if o.left = 0 then [] else [0xfffd]) ++ 0xfffd :: out, o', ho', ?_⟩
        simp only [hout, List.append_assoc, List.cons_append]
      | some o₁ =>
        by_cases hzero : o₁.left = 0
        · obtain ⟨out, o', ho', hout⟩ := ih .nothing
          refine ⟨(if o.left = 0 then [] else [0xfffd]) ++ o₁.value :: out, o', ho', ?_⟩
          simp only [hzero, if_true, hout, List.append_assoc, List.cons_append]
        · obtain ⟨out, o', ho', hout⟩ := ih (.lead hlead)
          refine ⟨(if o.left = 0 then [] else [0xfffd]) ++ out, o', ho', ?_⟩
          simp only [hzero, if_false, hout, List.append_assoc]

/-- Without the character that is begun, at most the bytes it is owed are decoded otherwise. -/
theorem decodeFrom_nothing (bytes : List Nat) : ∀ {o : Owed}, o.Begun →
    ∃ x y z, decodeFrom o bytes = x ++ z ∧ decode bytes = y ++ z ∧ y.length ≤ o.left := by
  induction bytes with
  | nil => exact fun _ => ⟨_, [], [], (List.append_nil _).symm, rfl, Nat.zero_le _⟩
  | cons b bytes ih =>
    intro o h
    by_cases howed : o.left ≠ 0 ∧ o.low ≤ b ∧ b ≤ o.high
    · -- the byte goes on with the character, and begins none
      have hnone : leadStrict b = none := by
        have hlow := h.low howed.1
        have hhigh := h.high howed.1
        unfold leadStrict lead
        split_ifs <;> first | rfl | omega
      have hdecode : decode (b :: bytes) = 0xfffd :: decode bytes := by
        rw [decode, decodeFrom, if_neg (fun hcon => hcon.1 rfl), hnone]
        rfl
      obtain ⟨x, y, z, hx, hy, hlen⟩ : ∃ x y z, decodeFrom o (b :: bytes) = x ++ z ∧
          decode bytes = y ++ z ∧ y.length ≤ o.left - 1 := by
        rw [decodeFrom, if_pos howed]
        split
        · exact ⟨[_], [], decode bytes, rfl, rfl, Nat.zero_le _⟩
        · exact ih (h.next _)
      refine ⟨x, 0xfffd :: y, z, hx, by rw [hdecode, hy]; rfl, ?_⟩
      rw [List.length_cons]
      omega
    · have hnothing : ¬ (Owed.nothing.left ≠ 0 ∧ Owed.nothing.low ≤ b ∧ b ≤ Owed.nothing.high) :=
        fun hcon => hcon.1 rfl
      rw [decodeFrom, if_neg howed, decode, decodeFrom, if_neg hnothing]
      exact ⟨_, [], _, rfl, rfl, Nat.zero_le _⟩

/-- The end of a text is decoded as it is in the text, but for at most three characters. -/
theorem decode_append (a b : List Nat) :
    ∃ x y z, decode (a ++ b) = x ++ z ∧ decode b = y ++ z ∧ y.length ≤ 3 := by
  obtain ⟨out, o, ho, hout⟩ := decodeFrom_append b a .nothing
  obtain ⟨x, y, z, hx, hy, hlen⟩ := decodeFrom_nothing b ho
  exact ⟨out ++ x, y, z, by rw [decode, hout, hx, List.append_assoc], hy, hlen.trans ho.left⟩

end Utf

end Lib
