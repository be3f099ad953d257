import AnsiDeck.Lib.IpAddress
import Mathlib.Data.List.Forall2
import Mathlib.Data.List.GetD
import Mathlib.Tactic.Ring

/-!
# Addresses and their texts

An address is read from its own text (`parse_text`), and of an IPv4 address that is the only text
there is (`v4_eq_some`). For IPv6 that goes through `_compress_hextets`: what it leaves out are
zeros (`Zeros`), and the reader finds where they stood (`skips_append`).
-/

namespace Lib

theorem mapM_eq_some {α β : Type} {f : α → Option β} {l : List α} {l' : List β} :
    l.mapM f = some l' ↔ List.Forall₂ (fun a b => f a = some b) l l' := by
  induction l generalizing l' with
  | nil => simp [eq_comm]
  | cons a l ih =>
    rw [List.mapM_cons]
    constructor
    · intro h
      obtain ⟨b, hb, h⟩ := Option.bind_eq_some_iff.1 h
      obtain ⟨rest, hrest, h⟩ := Option.bind_eq_some_iff.1 h
      cases h
      exact .cons hb (ih.1 hrest)
    · intro h
      cases h with
      | cons hb hrest =>
        rw [hb, ih.2 hrest]
        rfl

theorem mem_of_mapM {α β : Type} {f : α → Option β} {l : List α} {l' : List β}
    (h : l.mapM f = some l') {b : β} (hb : b ∈ l') : ∃ a ∈ l, f a = some b := by
  induction mapM_eq_some.1 h with
  | nil => cases hb
  | @cons a _ rest _ hone hrest ih =>
    rcases List.mem_cons.1 hb with rfl | hb
    · exact ⟨a, List.mem_cons_self, hone⟩
    · obtain ⟨a', ha', hsome⟩ := ih (mapM_eq_some.2 hrest) hb
      exact ⟨a', List.mem_cons_of_mem _ ha', hsome⟩

theorem isSome_of_mapM {α β : Type} {f : α → Option β} {l : List α} {l' : List β}
    (h : l.mapM f = some l') {a : α} (ha : a ∈ l) : (f a).isSome = true := by
  induction mapM_eq_some.1 h with
  | nil => cases ha
  | cons hone hrest ih =>
    rcases List.mem_cons.1 ha with rfl | ha
    · exact hone ▸ rfl
    · exact ih (mapM_eq_some.2 hrest) ha

theorem mapM_map {α β : Type} {f : α → Option β} {g : β → α} {l : List β}
    (h : ∀ b ∈ l, f (g b) = some b) : (l.map g).mapM f = some l := by
  rw [mapM_eq_some, List.forall₂_map_left_iff, List.forall₂_same]
  exact h

theorem mem_intercalate {sep : Str} {l : List Str} {c : Nat} (h : c ∈ sep.intercalate l) :
    c ∈ sep ∨ ∃ s ∈ l, c ∈ s := by
  induction l with
  | nil => cases h
  | cons s l ih =>
    cases l with
    | nil =>
      rw [List.intercalate_singleton] at h
      exact .inr ⟨s, List.mem_cons_self, h⟩
    | cons s' l =>
      rw [List.intercalate_cons_cons, List.mem_append, List.mem_append] at h
      rcases h with (h | h) | h
      · exact .inr ⟨s, List.mem_cons_self, h⟩
      · exact .inl h
      · rcases ih h with h | ⟨s'', hs'', h⟩
        · exact .inl h
        · exact .inr ⟨s'', List.mem_cons_of_mem _ hs'', h⟩

theorem Str.partition_of_not_mem {c : Nat} {s : Str} (h : c ∉ s) : Str.partition [c] s = none := by
  induction s with
  | nil => rfl
  | cons d s ih =>
    have hc : c ≠ d ∧ c ∉ s := by simpa using h
    simp [Str.partition, ih hc.2, hc.1]

theorem Str.partition_append {c : Nat} {s : Str} (h : c ∉ s) (rest : Str) :
    Str.partition [c] (s ++ [c] ++ rest) = some (s, rest) := by
  induction s with
  | nil => simp [Str.partition]
  | cons d s ih =>
    have hc : c ≠ d ∧ c ∉ s := by simpa using h
    have hrest : Str.partition [c] (s ++ c :: rest) = some (s, rest) := by simpa using ih hc.2
    simp [Str.partition, hc.1, hrest]

/-- Of the ways to write a number in decimal, `decimal` is the one without leading zeros. -/
theorem decimal_ofDigits {s : Str} (hne : s ≠ []) (hdigits : ∀ c ∈ s, 48 ≤ c ∧ c ≤ 57)
    (hhead : s = [48] ∨ s.head? ≠ some 48) : decimal (ofDigits (s.map (· - 48))) = s := by
  induction s using List.reverseRecOn with
  | nil => exact absurd rfl hne
  | append_singleton s c ih =>
    have hc := hdigits c (by simp)
    rw [List.map_append, List.map_singleton, ofDigits_concat]
    cases s with
    | nil =>
      show decimal (0 + (c - 48)) = [c]
      rw [decimal_of_lt (by omega)]
      congr 1
      omega
    | cons first s =>
      have hfirst : (first :: s).head? ≠ some 48 := by
        rcases hhead with h | h
        · simp at h
        · simpa using h
      have ih := ih (List.cons_ne_nil _ _) (fun d hd => hdigits d (List.mem_append_left _ hd))
        (.inr hfirst)
      have hpos : ofDigits ((first :: s).map (· - 48)) ≠ 0 := by
        intro hzero
        rw [hzero] at ih
        rw [← ih] at hfirst
        exact hfirst rfl
      rw [decimal_of_ge (by omega)]
      have hdiv : (10 * ofDigits ((first :: s).map (· - 48)) + (c - 48)) / 10
          = ofDigits ((first :: s).map (· - 48)) := by omega
      have hmod : 48 + (10 * ofDigits ((first :: s).map (· - 48)) + (c - 48)) % 10 = c := by omega
      rw [hdiv, hmod, ih]

namespace IpAddress

/-! ## Parts of a number -/

theorem parts_succ (bits count value : Nat) :
    parts bits (count + 1) value = value / 2 ^ (bits * count) % 2 ^ bits ::
      parts bits count value := by
  simp [parts, List.range_succ]

@[simp] theorem length_parts (bits count value : Nat) :
    (parts bits count value).length = count := by
  simp [parts]

theorem lt_of_mem_parts {bits count value w : Nat} (h : w ∈ parts bits count value) :
    w < 2 ^ bits := by
  obtain ⟨i, -, rfl⟩ := List.mem_map.1 h
  exact Nat.mod_lt _ (Nat.two_pow_pos bits)

/-- The number that words of `bits` write, the highest first. -/
def ofWords (bits : Nat) (words : List Nat) : Nat := words.foldl (fun n w => 2 ^ bits * n + w) 0

theorem ofWords_concat (bits : Nat) (words : List Nat) (w : Nat) :
    ofWords bits (words ++ [w]) = 2 ^ bits * ofWords bits words + w := by
  simp [ofWords]

theorem ofWords_append (bits : Nat) (high low : List Nat) :
    ofWords bits (high ++ low) = ofWords bits high * (2 ^ bits) ^ low.length +
      ofWords bits low := by
  induction low using List.reverseRecOn with
  | nil => simp [ofWords]
  | append_singleton low w ih =>
    rw [← List.append_assoc, ofWords_concat, ofWords_concat, ih, List.length_append,
      List.length_singleton, Nat.pow_succ]
    ring

theorem ofWords_replicate (bits n : Nat) : ofWords bits (List.replicate n 0) = 0 := by
  induction n with
  | zero => rfl
  | succ n ih => rw [List.replicate_succ', ofWords_concat, ih, Nat.mul_zero]

theorem ofWords_lt {bits : Nat} {words : List Nat} (h : ∀ w ∈ words, w < 2 ^ bits) :
    ofWords bits words < (2 ^ bits) ^ words.length := by
  induction words using List.reverseRecOn with
  | nil => exact Nat.one_pos
  | append_singleton words w ih =>
    have hw := h w (by simp)
    have hrest := ih fun w' hw' => h w' (List.mem_append_left _ hw')
    rw [ofWords_concat, List.length_append, List.length_singleton, Nat.pow_succ]
    calc 2 ^ bits * ofWords bits words + w
        < 2 ^ bits * ofWords bits words + 2 ^ bits := by omega
      _ = 2 ^ bits * (ofWords bits words + 1) := (Nat.mul_succ ..).symm
      _ ≤ 2 ^ bits * (2 ^ bits) ^ words.length := Nat.mul_le_mul_left _ hrest
      _ = (2 ^ bits) ^ words.length * 2 ^ bits := Nat.mul_comm ..

/-- The lowest parts of a number make up what is left of it. -/
theorem ofWords_parts_mod (bits count value : Nat) :
    ofWords bits (parts bits count value) = value % 2 ^ (bits * count) := by
  induction count with
  | zero => simp [parts, ofWords, Nat.mod_one]
  | succ count ih =>
    rw [parts_succ, ← List.singleton_append, ofWords_append, ih, length_parts, ← Nat.pow_mul,
      Nat.mul_succ, Nat.pow_add, Nat.mod_mul]
    simp [ofWords]
    ring

theorem ofWords_parts {bits count value : Nat} (h : value < 2 ^ (bits * count)) :
    ofWords bits (parts bits count value) = value := by
  rw [ofWords_parts_mod, Nat.mod_eq_of_lt h]

theorem parts_ofWords {bits : Nat} {words : List Nat} (h : ∀ w ∈ words, w < 2 ^ bits) :
    parts bits words.length (ofWords bits words) = words := by
  induction words with
  | nil => rfl
  | cons w words ih =>
    have hw := h w List.mem_cons_self
    have hwords : ∀ w' ∈ words, w' < 2 ^ bits := fun w' hw' => h w' (List.mem_cons_of_mem _ hw')
    have hlt := ofWords_lt hwords
    have hvalue : ofWords bits (w :: words) =
        ofWords bits words + (2 ^ bits) ^ words.length * w := by
      rw [← List.singleton_append, ofWords_append]
      simp [ofWords]
      ring
    rw [← Nat.pow_mul] at hlt hvalue
    have hlow : parts bits words.length (ofWords bits (w :: words))
        = parts bits words.length (ofWords bits words) := by
      refine List.map_congr_left fun i hi => ?_
      have hi : i < words.length := by simpa using hi
      obtain ⟨k, hk⟩ := Nat.exists_eq_add_of_lt hi
      have hsplit : 2 ^ (bits * words.length) = 2 ^ (bits * i) * (2 ^ bits * 2 ^ (bits * k)) := by
        rw [hk]
        ring
      rw [hvalue, hsplit, Nat.mul_assoc, Nat.mul_assoc,
        Nat.add_mul_div_left _ _ (Nat.two_pow_pos _), Nat.add_mul_mod_self_left]
    rw [List.length_cons, parts_succ, hlow, ih hwords, hvalue,
      Nat.add_mul_div_left _ _ (Nat.two_pow_pos _), Nat.div_eq_of_lt hlt, Nat.zero_add,
      Nat.mod_eq_of_lt hw]

/-! ## Numerals -/

theorem hexValue_digitChar : ∀ n < 16, hexValue n.digitChar.toNat = some n := by decide

theorem hex_of_lt {n : Nat} (h : n < 16) : hex n = [n.digitChar.toNat] := by
  rw [hex, Nat.toDigits_of_lt_base h, List.map_singleton]

theorem hex_of_ge {n : Nat} (h : 16 ≤ n) : hex n = hex (n / 16) ++ [(n % 16).digitChar.toNat] := by
  rw [hex, Nat.toDigits_of_base_le (by omega) h, List.map_append, List.map_singleton, hex]

/-- What a hexadecimal numeral is read as. -/
theorem mapM_hex (n : Nat) : ∃ digits, (hex n).mapM hexValue = some digits ∧
    ofWords 4 digits = n := by
  induction n using Nat.strongRecOn with
  | _ n ih =>
    by_cases h : n < 16
    · rw [hex_of_lt h]
      exact ⟨[n], by simp [hexValue_digitChar n h], by simp [ofWords]⟩
    · obtain ⟨digits, hdigits, hvalue⟩ := ih (n / 16) (by omega)
      rw [hex_of_ge (by omega), List.mapM_append, hdigits]
      refine ⟨digits ++ [n % 16], by simp [hexValue_digitChar _ (Nat.mod_lt n (by decide))], ?_⟩
      rw [ofWords_concat, hvalue]
      omega

theorem hex_ne_nil (n : Nat) : hex n ≠ [] := by
  simp [hex]

theorem isSome_of_mem_hex {n c : Nat} (hc : c ∈ hex n) : (hexValue c).isSome = true := by
  induction n using Nat.strongRecOn with
  | _ n ih =>
    by_cases h : n < 16
    · rw [hex_of_lt h, List.mem_singleton] at hc
      rw [hc, hexValue_digitChar n h]
      rfl
    · rw [hex_of_ge (by omega)] at hc
      rcases List.mem_append.1 hc with hc | hc
      · exact ih (n / 16) (by omega) hc
      · rw [List.mem_singleton.1 hc, hexValue_digitChar _ (Nat.mod_lt n (by decide))]
        rfl

/-- No separator is a hexadecimal digit. -/
theorem not_mem_hex {n c : Nat} (hc : hexValue c = none) : c ∉ hex n := by
  intro hmem
  have := isSome_of_mem_hex hmem
  rw [hc] at this
  cases this

theorem hextet_hex {w : Nat} (h : w < 65536) : hextet (hex w) = some w := by
  obtain ⟨digits, hdigits, hvalue⟩ := mapM_hex w
  have hle : (hex w).length ≤ 4 := by
    rw [hex, List.length_map, Nat.length_toDigits_le_iff (by omega) (by omega)]
    exact h
  have hpos : 1 ≤ (hex w).length := List.length_pos_iff.2 (hex_ne_nil w)
  rw [hextet, hdigits]
  simp [hle, hpos]
  exact hvalue

theorem hexValue_lt {c d : Nat} (h : hexValue c = some d) : d < 16 := by
  unfold hexValue at h
  split at h
  · cases h
    omega
  · split at h
    · cases h
      omega
    · split at h
      · cases h
        omega
      · cases h

/-! ## IPv4 -/

theorem octet_eq_some {s : Str} {n : Nat} : octet s = some n ↔ s = decimal n ∧ n ≤ 255 := by
  rw [octet]
  constructor
  · intro h
    split at h
    · next hcond =>
      cases h
      simp only [ne_eq, decide_not, Bool.and_eq_true, Bool.not_eq_true', decide_eq_false_iff_not,
        List.all_eq_true, decide_eq_true_eq, Bool.or_eq_true] at hcond
      obtain ⟨⟨⟨⟨hne, hdigits⟩, -⟩, hhead⟩, hle⟩ := hcond
      exact ⟨(decimal_ofDigits hne hdigits hhead).symm, hle⟩
    · cases h
  · rintro ⟨rfl, hle⟩
    have hlen : (decimal n).length ≤ 3 := (length_decimal_le (by decide)).2 (by omega)
    have hhead : decimal n = [48] ∨ (decimal n).head? ≠ some 48 := by
      rcases Nat.eq_zero_or_pos n with rfl | hpos
      · exact .inl rfl
      · obtain ⟨c, rest, hrest, hc⟩ := decimal_head hpos
        rw [hrest]
        refine .inr fun h => ?_
        cases h
        omega
    rw [ofDigits_decimal, if_pos]
    simp only [ne_eq, decide_not, Bool.and_eq_true, Bool.not_eq_true', decide_eq_false_iff_not,
      List.all_eq_true, decide_eq_true_eq, Bool.or_eq_true]
    exact ⟨⟨⟨⟨decimal_ne_nil n, fun c hc => digit_of_mem_decimal hc⟩, hlen⟩, hhead⟩, hle⟩

/-- An IPv4 address in its four parts. -/
def v4Text (value : Nat) : Str := (str ".").intercalate ((parts 8 4 value).map decimal)

theorem splitOn_v4Text (value : Nat) :
    (v4Text value).splitOn 46 = (parts 8 4 value).map decimal := by
  refine List.splitOn_intercalate 46 ?_ (by simp [parts])
  intro part hpart hdot
  obtain ⟨w, -, rfl⟩ := List.mem_map.1 hpart
  have := digit_of_mem_decimal hdot
  omega

theorem v4_text {value : Nat} (h : value < 2 ^ 32) : v4 (v4Text value) = some value := by
  have hoctets : ((parts 8 4 value).map decimal).mapM octet = some (parts 8 4 value) :=
    mapM_map fun w hw => octet_eq_some.2 ⟨rfl, by have := lt_of_mem_parts hw; omega⟩
  rw [v4, splitOn_v4Text, hoctets]
  show (if (parts 8 4 value).length = 4 then some (ofWords 8 (parts 8 4 value)) else none) = _
  rw [length_parts, if_pos rfl, ofWords_parts h]

theorem v4_eq_some {s : Str} {value : Nat} (h : v4 s = some value) :
    s = v4Text value ∧ value < 2 ^ 32 := by
  obtain ⟨octets, hoctets, h⟩ := Option.bind_eq_some_iff.1 h
  have hlt : ∀ o ∈ octets, o < 2 ^ 8 := by
    intro o ho
    obtain ⟨part, -, hpart⟩ := mem_of_mapM hoctets ho
    have := (octet_eq_some.1 hpart).2
    omega
  have hparts : s.splitOn 46 = octets.map decimal := by
    rw [← List.forall₂_eq_eq_eq, List.forall₂_map_right_iff]
    exact (mapM_eq_some.1 hoctets).imp fun _ _ hone => (octet_eq_some.1 hone).1
  split at h
  · next hlen =>
    have hvalue : ofWords 8 octets = value := Option.some.inj h
    have hwords : octets = parts 8 4 value := by
      rw [← hvalue, ← hlen, parts_ofWords hlt]
    have hbound := ofWords_lt hlt
    rw [hlen, hvalue, ← Nat.pow_mul] at hbound
    refine ⟨?_, hbound⟩
    rw [v4Text, ← hwords, ← hparts]
    exact (List.intercalate_splitOn 46).symm
  · cases h

/-! ## IPv6 -/

theorem hextet_lt {s : Str} {w : Nat} (h : hextet s = some w) : w < 2 ^ 16 := by
  obtain ⟨digits, hdigits, h⟩ := Option.bind_eq_some_iff.1 h
  split at h
  · next hlen =>
    have hvalue : ofWords 4 digits = w := Option.some.inj h
    have hlt : ∀ d ∈ digits, d < 2 ^ 4 := by
      intro d hd
      obtain ⟨c, -, hc⟩ := mem_of_mapM hdigits hd
      exact hexValue_lt hc
    have hlength : s.length = digits.length := (mapM_eq_some.1 hdigits).length_eq
    simp only [Bool.and_eq_true, decide_eq_true_eq] at hlen
    calc w = ofWords 4 digits := hvalue.symm
      _ < (2 ^ 4) ^ digits.length := ofWords_lt hlt
      _ ≤ (2 ^ 4) ^ 4 := Nat.pow_le_pow_right (by decide) (hlength ▸ hlen.2)
      _ = 2 ^ 16 := by decide
  · cases h

theorem hextets_lt {parts : List Str} {value : Nat} (h : hextets parts = some value) :
    value < (2 ^ 16) ^ parts.length := by
  obtain ⟨words, hwords, h⟩ := Option.bind_eq_some_iff.1 h
  have hvalue : ofWords 16 words = value := Option.some.inj h
  have hlt : ∀ w ∈ words, w < 2 ^ 16 := by
    intro w hw
    obtain ⟨part, -, hpart⟩ := mem_of_mapM hwords hw
    exact hextet_lt hpart
  rw [← hvalue, (mapM_eq_some.1 hwords).length_eq]
  exact ofWords_lt hlt

theorem hextets_map {words : List Nat} (h : ∀ w ∈ words, w < 2 ^ 16) :
    hextets (words.map hex) = some (ofWords 16 words) := by
  rw [hextets, mapM_map fun w hw => hextet_hex (h w hw)]
  rfl

/-- How many words stand before a `::`. -/
def wordsBefore (parts : List Str) (skip : Nat) : Option Nat :=
  if parts.head? ≠ some [] then some skip else if skip = 1 then some 0 else none

/-- How many stand after it. -/
def wordsAfter (parts : List Str) (skip : Nat) : Option Nat :=
  let after := parts.length - skip - 1
  if parts.getLast? ≠ some [] then some after else if after = 1 then some 0 else none

/-- The words that stand around a `::`. -/
def around (parts : List Str) (hi lo : Nat) : Option Nat :=
  if 8 ≤ hi + lo then none
  else (hextets (parts.take hi)).bind fun high =>
    (hextets (parts.drop (parts.length - lo))).map fun low => high * 65536 ^ (8 - hi) + low

/-- What is read from the parts of an address. -/
def ofParts (parts : List Str) : Option Nat :=
  if 9 < parts.length then none
  else match skips parts with
  | [] => if parts.length = 8 then hextets parts else none
  | [skip] => (wordsBefore parts skip).bind fun hi => (wordsAfter parts skip).bind (around parts hi)
  | _ => none

theorem v6_eq (s : Str) :
    v6 s = if (s.splitOn 58).length < 3 then none else (withoutV4 (s.splitOn 58)).bind ofParts := by
  rw [v6]
  by_cases h3 : (s.splitOn 58).length < 3
  · rw [if_pos h3, if_pos h3]
    rfl
  · rw [if_neg h3, if_neg h3]
    refine congrArg _ (funext fun parts => ?_)
    rw [ofParts]
    by_cases h9 : 9 < parts.length
    · rw [if_pos h9, if_pos h9]
      rfl
    · rw [if_neg h9, if_neg h9]
      cases skips parts with
      | nil => rfl
      | cons skip rest =>
        cases rest with
        | cons => rfl
        | nil =>
          have haround : ∀ hi lo, (if 8 ≤ hi + lo then none else do
              let high ← hextets (parts.take hi)
              let low ← hextets (parts.drop (parts.length - lo))
              some (high * 65536 ^ (8 - hi) + low)) = around parts hi lo := by
            intro hi lo
            rw [around]
            split
            · rfl
            · cases hextets (parts.take hi) with
              | none => rfl
              | some high => cases hextets (parts.drop (parts.length - lo)) <;> rfl
          dsimp only [wordsBefore, wordsAfter]
          split
          · split
            · exact haround _ _
            · split
              · exact haround _ _
              · rfl
          · split
            · split
              · exact haround _ _
              · split
                · exact haround 0 0
                · rfl
            · rfl

theorem around_lt {parts : List Str} {hi lo value : Nat} (h : around parts hi lo = some value) :
    value < 2 ^ 128 := by
  rw [around] at h
  split at h
  · cases h
  · next hwords =>
    obtain ⟨high, hhigh, h⟩ := Option.bind_eq_some_iff.1 h
    obtain ⟨low, hlow, rfl⟩ := Option.map_eq_some_iff.1 h
    have hhigh : high < 65536 ^ hi := (hextets_lt hhigh).trans_le
      (Nat.pow_le_pow_right (by decide) (by rw [List.length_take]; omega))
    have hlow : low < 65536 ^ (8 - hi) := (hextets_lt hlow).trans_le
      (Nat.pow_le_pow_right (by decide) (by rw [List.length_drop]; omega))
    calc high * 65536 ^ (8 - hi) + low
        < high * 65536 ^ (8 - hi) + 65536 ^ (8 - hi) := by omega
      _ = (high + 1) * 65536 ^ (8 - hi) := (Nat.succ_mul ..).symm
      _ ≤ 65536 ^ hi * 65536 ^ (8 - hi) := Nat.mul_le_mul_right _ hhigh
      _ = 65536 ^ 8 := by rw [← Nat.pow_add]; congr 1; omega
      _ = 2 ^ 128 := by decide

theorem v6_lt {s : Str} {value : Nat} (h : v6 s = some value) : value < 2 ^ 128 := by
  rw [v6_eq] at h
  split at h
  · cases h
  · obtain ⟨parts, -, h⟩ := Option.bind_eq_some_iff.1 h
    rw [ofParts] at h
    split at h
    · cases h
    · split at h
      · split at h
        · next hlen =>
          have := hextets_lt h
          rw [hlen] at this
          exact this
        · cases h
      · obtain ⟨hi, -, h⟩ := Option.bind_eq_some_iff.1 h
        obtain ⟨lo, -, h⟩ := Option.bind_eq_some_iff.1 h
        exact around_lt h
      · cases h

/-! ## Where the zeros are left out -/

theorem skips_of_words {parts : List Str} (h : ∀ part ∈ parts, part ≠ []) : skips parts = [] := by
  rw [skips, List.filter_eq_nil_iff]
  intro i hi hskip
  have hi := List.mem_range.1 hi
  simp only [Bool.and_eq_true, decide_eq_true_eq] at hskip
  rw [List.getD_eq_getElem _ _ hi] at hskip
  exact h _ (List.getElem_mem hi) hskip.2

/-- The one empty part that is at neither end. -/
theorem skips_append {before after : List Str} (hbefore : before ≠ []) (hafter : after ≠ [])
    (hhead : ∀ part ∈ before.tail, part ≠ []) (hlast : ∀ part ∈ after.dropLast, part ≠ []) :
    skips (before ++ [] :: after) = [before.length] := by
  have hpos := List.length_pos_iff.2 hbefore
  have hpos' := List.length_pos_iff.2 hafter
  have hlen : (before ++ [] :: after).length = before.length + 1 + after.length := by
    rw [List.length_append, List.length_cons]
    omega
  have hunique : ∀ i ∈ List.range (before ++ [] :: after).length,
      (1 ≤ i && i + 1 < (before ++ [] :: after).length && (before ++ [] :: after).getD i [] = [])
        = (i == before.length) := by
    intro i hi
    have hi := List.mem_range.1 hi
    rw [Bool.eq_iff_iff]
    simp only [Bool.and_eq_true, decide_eq_true_eq, beq_iff_eq]
    rw [List.getD_eq_getElem _ _ hi]
    rcases Nat.lt_trichotomy i before.length with hlt | heq | hgt
    · rw [List.getElem_append_left hlt]
      refine ⟨fun hskip => absurd hskip.2 (hhead _ ?_), fun heq => by omega⟩
      exact List.getElem_mem_tail _ (by omega) hlt
    · subst heq
      simp
      omega
    · rw [List.getElem_append_right (by omega)]
      refine ⟨fun hskip => absurd hskip.2 ?_, fun heq => by omega⟩
      obtain ⟨j, hj⟩ := Nat.exists_eq_add_of_lt hgt
      have hindex : i - before.length = j + 1 := by omega
      simp only [hindex, List.getElem_cons_succ]
      have hdrop : j < after.dropLast.length := by
        rw [List.length_dropLast]
        omega
      rw [← List.getElem_dropLast hdrop]
      exact hlast _ (List.getElem_mem hdrop)
  rw [skips, List.filter_congr hunique, List.filter_beq,
    List.count_eq_one_of_mem List.nodup_range (List.mem_range.2 (by omega))]
  rfl

/-- The words of a run, of which are given the start and the length, are zeros. -/
def Zeros (words : List Nat) (run : Nat × Nat) : Prop :=
  ∃ before after, words = before ++ List.replicate run.2 0 ++ after ∧ before.length = run.1

theorem zeros_longestZeros {words done : List Nat} {current best : Nat × Nat}
    (hcurrent : ∃ before, done = before ++ List.replicate current.2 0 ∧
      (current.2 ≠ 0 → before.length = current.1))
    (hbest : Zeros (done ++ words) best) :
    Zeros (done ++ words) (longestZeros words done.length current best) := by
  induction words generalizing done current best with
  | nil => exact hbest
  | cons word words ih =>
    have hmove : done ++ word :: words = (done ++ [word]) ++ words := by simp
    have hlen : done.length + 1 = (done ++ [word]).length := by simp
    rw [longestZeros]
    rw [hmove] at hbest ⊢
    split
    · next hzero =>
      obtain ⟨before, hdone, hstart⟩ := hcurrent
      -- the run goes on, or starts here
      have hdone' : done ++ [word] = before ++ List.replicate (current.2 + 1) 0 := by
        rw [hdone, hzero, List.replicate_succ', List.append_assoc]
      have hstart' : before.length = if current.2 = 0 then done.length else current.1 := by
        split
        · next hnone => simp [hdone, hnone]
        · next hsome => exact hstart hsome
      generalize (if current.2 = 0 then done.length else current.1) = start at hstart' ⊢
      rw [hlen]
      refine ih ⟨before, hdone', fun _ => hstart'⟩ ?_
      dsimp only
      split
      · exact ⟨before, words, by rw [hdone'], hstart'⟩
      · exact hbest
    · rw [hlen]
      exact ih ⟨done ++ [word], by simp, fun h => absurd rfl h⟩ hbest

/-- The parts before a `::`, or after it: an empty one where there is no word. -/
def side (words : List Nat) : List Str := if words = [] then [[]] else words.map hex

theorem side_ne_nil (words : List Nat) : side words ≠ [] := by
  unfold side
  split <;> simp_all

/-- A text leaves out a run of zeros, or nothing. -/
theorem compress_cases (words : List Nat) :
    compress words = words.map hex ∨ ∃ before length after, 1 < length ∧
      words = before ++ List.replicate length 0 ++ after ∧
      compress words = side before ++ [] :: side after := by
  obtain ⟨⟨start, length⟩, hrun⟩ : ∃ run, longestZeros words 0 (0, 0) (0, 0) = run := ⟨_, rfl⟩
  by_cases hlong : 1 < length
  · have hzeros : Zeros ([] ++ words) (longestZeros words ([] : List Nat).length (0, 0) (0, 0)) :=
      zeros_longestZeros ⟨[], rfl, fun h => absurd rfl h⟩ ⟨[], words, rfl, rfl⟩
    rw [List.length_nil, List.nil_append, hrun] at hzeros
    obtain ⟨before, after, hwords, hstart⟩ := hzeros
    dsimp only at hwords hstart
    refine .inr ⟨before, length, after, hlong, hwords, ?_⟩
    have htake : words.take start = before := by
      rw [hwords, List.append_assoc, ← hstart, List.take_left]
    have hend : start + length = (before ++ List.replicate length 0).length := by simp [hstart]
    have hdrop : words.drop (start + length) = after := by
      rw [hend, hwords, List.drop_left]
    have hlen : words.length = start + length + after.length := by
      rw [hend, hwords, List.length_append]
    have hfirst : start = 0 ↔ before = [] := by rw [← hstart, List.length_eq_zero_iff]
    have hlast : start + length = words.length ↔ after = [] := by
      rw [hlen, ← List.length_eq_zero_iff]
      omega
    rw [compress, hrun]
    dsimp only
    rw [if_pos hlong, htake, hdrop]
    by_cases hb : before = [] <;> by_cases ha : after = [] <;> simp [side, hfirst, hlast, hb, ha]
  · refine .inl ?_
    rw [compress, hrun]
    exact if_neg hlong

/-! ## The text of an IPv6 address -/

theorem side_of_ne_nil {words : List Nat} (h : words ≠ []) : side words = words.map hex := if_neg h

theorem hex_of_mem_side {words : List Nat} {part : Str} (h : part ∈ side words) :
    part = [] ∨ ∃ w, part = hex w := by
  by_cases hnil : words = []
  · rw [side, if_pos hnil, List.mem_singleton] at h
    exact .inl h
  · rw [side_of_ne_nil hnil] at h
    obtain ⟨w, -, rfl⟩ := List.mem_map.1 h
    exact .inr ⟨w, rfl⟩

theorem ne_nil_of_mem_side {words : List Nat} {part : Str}
    (h : part ∈ (side words).tail ∨ part ∈ (side words).dropLast) : part ≠ [] := by
  by_cases hnil : words = []
  · simp [side, hnil] at h
  · rw [side_of_ne_nil hnil] at h
    have hmem : part ∈ words.map hex := by
      rcases h with h | h
      · exact List.mem_of_mem_tail h
      · exact List.dropLast_subset _ h
    obtain ⟨w, -, rfl⟩ := List.mem_map.1 hmem
    exact hex_ne_nil w

theorem wordsBefore_side (before after : List Nat) :
    wordsBefore (side before ++ [] :: side after) (side before).length = some before.length := by
  rw [wordsBefore]
  by_cases hnil : before = []
  · simp [side, hnil]
  · obtain ⟨w, rest, rfl⟩ := List.exists_cons_of_ne_nil hnil
    rw [side_of_ne_nil hnil]
    simp [hex_ne_nil]

theorem wordsAfter_side (before after : List Nat) :
    wordsAfter (side before ++ [] :: side after) (side before).length = some after.length := by
  have hlast : (side before ++ [] :: side after).getLast? = (side after).getLast? := by
    rw [List.getLast?_append, List.getLast?_cons]
    cases h : (side after).getLast? with
    | none => exact absurd (List.getLast?_eq_none_iff.1 h) (side_ne_nil after)
    | some part => rfl
  have hlen : (side before ++ [] :: side after).length - (side before).length - 1
      = (side after).length := by
    simp
  rw [wordsAfter, hlast, hlen]
  by_cases hnil : after = []
  · simp [side, hnil]
  · obtain ⟨init, w, rfl⟩ := (List.eq_nil_or_concat after).resolve_left hnil
    rw [side_of_ne_nil hnil]
    simp [hex_ne_nil]

theorem around_side {before after : List Nat} (hlen : before.length + after.length < 8)
    (hbefore : ∀ w ∈ before, w < 2 ^ 16) (hafter : ∀ w ∈ after, w < 2 ^ 16) :
    around (side before ++ [] :: side after) before.length after.length
      = some (ofWords 16 before * 65536 ^ (8 - before.length) + ofWords 16 after) := by
  have htake : (side before ++ [] :: side after).take before.length = before.map hex := by
    by_cases hnil : before = []
    · simp [hnil]
    · rw [side_of_ne_nil hnil, ← List.length_map hex, List.take_left]
  have hdrop : (side before ++ [] :: side after).drop
      ((side before ++ [] :: side after).length - after.length) = after.map hex := by
    by_cases hnil : after = []
    · simp [hnil]
    · have hcount : (side before ++ [] :: after.map hex).length - after.length
          = (side before ++ [[]]).length := by
        simp
        omega
      have happend : side before ++ [] :: after.map hex
          = (side before ++ [[]]) ++ after.map hex := by simp
      rw [side_of_ne_nil hnil, hcount, happend, List.drop_left]
  rw [around, if_neg (by omega), htake, hdrop, hextets_map hbefore, hextets_map hafter]
  rfl

theorem length_side_le (words : List Nat) : (side words).length ≤ words.length + 1 := by
  unfold side
  split <;> simp_all

theorem ofParts_compress {words : List Nat} (hlen : words.length = 8)
    (hlt : ∀ w ∈ words, w < 2 ^ 16) : ofParts (compress words) = some (ofWords 16 words) := by
  rcases compress_cases words with hcompress | ⟨before, length, after, hlong, hwords, hcompress⟩
  · have hskips : skips (words.map hex) = [] := skips_of_words fun part hpart => by
      obtain ⟨w, -, rfl⟩ := List.mem_map.1 hpart
      exact hex_ne_nil w
    rw [hcompress, ofParts, hskips, List.length_map, hlen]
    exact hextets_map hlt
  · have hsum : before.length + length + after.length = 8 := by
      rw [← hlen, hwords]
      simp [Nat.add_assoc]
    have hparts : (side before ++ [] :: side after).length ≤ 9 := by
      have := length_side_le before
      have := length_side_le after
      rw [List.length_append, List.length_cons]
      omega
    have hvalue : ofWords 16 words
        = ofWords 16 before * 65536 ^ (8 - before.length) + ofWords 16 after := by
      have hpow : 8 - before.length = length + after.length := by omega
      rw [hwords, ofWords_append, ofWords_append, ofWords_replicate, List.length_replicate, hpow,
        Nat.pow_add]
      ring
    have hbefore : ∀ w ∈ before, w < 2 ^ 16 := fun w hw => hlt w (by simp [hwords, hw])
    have hafter : ∀ w ∈ after, w < 2 ^ 16 := fun w hw => hlt w (by simp [hwords, hw])
    rw [hcompress, ofParts, if_neg (by omega),
      skips_append (side_ne_nil before) (side_ne_nil after)
        (fun part h => ne_nil_of_mem_side (.inl h)) fun part h => ne_nil_of_mem_side (.inr h)]
    dsimp only
    rw [wordsBefore_side, wordsAfter_side, hvalue]
    exact around_side (by omega) hbefore hafter

theorem hex_of_mem_compress {words : List Nat} {part : Str} (h : part ∈ compress words) :
    part = [] ∨ ∃ w, part = hex w := by
  rcases compress_cases words with hcompress | ⟨before, length, after, -, -, hcompress⟩
  · rw [hcompress] at h
    obtain ⟨w, -, rfl⟩ := List.mem_map.1 h
    exact .inr ⟨w, rfl⟩
  · rw [hcompress, List.mem_append, List.mem_cons] at h
    rcases h with h | rfl | h
    · exact hex_of_mem_side h
    · exact .inl rfl
    · exact hex_of_mem_side h

theorem three_le_length_compress {words : List Nat} (hlen : words.length = 8) :
    3 ≤ (compress words).length := by
  rcases compress_cases words with hcompress | ⟨before, length, after, -, -, hcompress⟩
  · rw [hcompress, List.length_map, hlen]
    decide
  · have := List.length_pos_iff.2 (side_ne_nil before)
    have := List.length_pos_iff.2 (side_ne_nil after)
    rw [hcompress, List.length_append, List.length_cons]
    omega

/-- An IPv6 address without its scope. -/
def v6Text (value : Nat) : Str := (str ":").intercalate (compress (parts 16 8 value))

/-- What is neither a digit nor a colon is not in an address. -/
theorem not_mem_compress {words : List Nat} {c : Nat} (hc : hexValue c = none) {part : Str}
    (hpart : part ∈ compress words) : c ∉ part := by
  rcases hex_of_mem_compress hpart with rfl | ⟨w, rfl⟩
  · exact List.not_mem_nil
  · exact not_mem_hex hc

theorem splitOn_v6Text (value : Nat) :
    (v6Text value).splitOn 58 = compress (parts 16 8 value) := by
  refine List.splitOn_intercalate 58 (fun part hpart => not_mem_compress (by decide) hpart) ?_
  intro hnil
  have := three_le_length_compress (length_parts 16 8 value)
  rw [hnil] at this
  contradiction

theorem v6_text {value : Nat} (h : value < 2 ^ 128) : v6 (v6Text value) = some value := by
  have hwithout : withoutV4 (compress (parts 16 8 value)) = some (compress (parts 16 8 value)) := by
    have hlast : ((compress (parts 16 8 value)).getLastD []).contains 46 = false := by
      rw [List.contains_eq_mem, decide_eq_false_iff_not, List.getLastD_eq_getLast?]
      cases hlast : (compress (parts 16 8 value)).getLast? with
      | none => exact List.not_mem_nil
      | some part => exact not_mem_compress (by decide) (List.mem_of_getLast? hlast)
    rw [withoutV4, hlast]
    rfl
  have hlen := three_le_length_compress (length_parts 16 8 value)
  have hlt : ∀ w ∈ parts 16 8 value, w < 2 ^ 16 := fun w hw => lt_of_mem_parts hw
  rw [v6_eq, splitOn_v6Text, if_neg (by omega), hwithout, Option.bind_some,
    ofParts_compress (length_parts 16 8 value) hlt, ofWords_parts h]

/-! ## Addresses -/

/-- What an address that is read is like: it fits, and only an IPv6 address has a scope, which no
separator is in. -/
structure Valid (a : IpAddress) : Prop where
  lt : a.value < 2 ^ a.family.width
  scope : ∀ scope ∈ a.scope, a.family = .v6 ∧ scope ≠ [] ∧ 37 ∉ scope ∧ 47 ∉ scope

theorem valid_of_parse {s : Str} {a : IpAddress} (h : parse s = some a) : a.Valid := by
  rw [parse] at h
  split at h
  · next value hv4 =>
    cases h
    exact ⟨(v4_eq_some hv4).2, fun scope h => by cases h⟩
  · split at h
    · cases h
    · next hslash =>
      split at h
      · obtain ⟨value, hv6, rfl⟩ := Option.map_eq_some_iff.1 h
        exact ⟨v6_lt hv6, fun scope h => by cases h⟩
      · next body scope hpartition =>
        split at h
        · cases h
        · next hscope =>
          obtain ⟨value, hv6, rfl⟩ := Option.map_eq_some_iff.1 h
          refine ⟨v6_lt hv6, fun scope' h => ?_⟩
          cases h
          simp only [List.contains_eq_mem, Bool.or_eq_true, decide_eq_true_eq,
            not_or] at hscope hslash
          rw [Str.partition_eq_some hpartition] at hslash
          refine ⟨rfl, hscope.1, hscope.2, fun hmem => hslash (List.mem_append_right _ hmem)⟩

/-- A text ends with the scope of the address. -/
theorem scope_suffix {s scope : Str} {a : IpAddress} (h : parse s = some a)
    (hscope : scope ∈ a.scope) : scope <:+ s := by
  rw [parse] at h
  split at h
  · cases h
    cases hscope
  · split at h
    · cases h
    · split at h
      · obtain ⟨value, -, rfl⟩ := Option.map_eq_some_iff.1 h
        cases hscope
      · next body scope' hpartition =>
        split at h
        · cases h
        · obtain ⟨value, -, rfl⟩ := Option.map_eq_some_iff.1 h
          cases hscope
          rw [Str.partition_eq_some hpartition]
          exact List.suffix_append ..

theorem colon_mem_v6Text (value : Nat) : 58 ∈ v6Text value := by
  apply Classical.byContradiction
  intro hmem
  have hlen := three_le_length_compress (length_parts 16 8 value)
  rw [← splitOn_v6Text, List.splitOn_eq_singleton hmem] at hlen
  contradiction

theorem not_mem_v6Text {value c : Nat} (hc : hexValue c = none) (hcolon : c ≠ 58) :
    c ∉ v6Text value := by
  intro hmem
  rcases mem_intercalate hmem with hsep | ⟨part, hpart, hmem⟩
  · exact hcolon (List.mem_singleton.1 hsep)
  · exact not_mem_compress hc hpart hmem

theorem not_mem_v4Text {value c : Nat} (hc : ¬ (48 ≤ c ∧ c ≤ 57)) (hdot : c ≠ 46) :
    c ∉ v4Text value := by
  intro hmem
  rcases mem_intercalate hmem with hsep | ⟨part, hpart, hmem⟩
  · exact hdot (List.mem_singleton.1 hsep)
  · obtain ⟨w, -, rfl⟩ := List.mem_map.1 hpart
    exact hc (digit_of_mem_decimal hmem)

/-- With a colon it is no IPv4 address. -/
theorem v4_of_colon {s : Str} (h : 58 ∈ s) : v4 s = none := by
  rw [Option.eq_none_iff_forall_ne_some]
  intro value hv4
  rw [(v4_eq_some hv4).1] at h
  exact not_mem_v4Text (by decide) (by decide) h

theorem parse_text {a : IpAddress} (h : a.Valid) : parse a.text = some a := by
  obtain ⟨family, value, scope⟩ := a
  obtain ⟨hlt, hscope⟩ := h
  cases family with
  | v4 =>
    cases scope with
    | some scope => cases (hscope scope rfl).1
    | none =>
      show parse (v4Text value) = _
      rw [parse, v4_text hlt]
  | v6 =>
    have hslash : 47 ∉ v6Text value := not_mem_v6Text (by decide) (by decide)
    have hpercent : 37 ∉ v6Text value := not_mem_v6Text (by decide) (by decide)
    have hcolon := colon_mem_v6Text value
    cases scope with
    | none =>
      show parse (v6Text value) = _
      have hcontains : (v6Text value).contains 47 = false := by simpa using hslash
      have hpartition : Str.partition (str "%") (v6Text value) = none :=
        Str.partition_of_not_mem hpercent
      rw [parse, v4_of_colon hcolon]
      dsimp only
      rw [hcontains, hpartition]
      dsimp only
      rw [v6_text hlt]
      rfl
    | some scope =>
      obtain ⟨-, hne, hpercent', hslash'⟩ := hscope scope rfl
      show parse (v6Text value ++ str "%" ++ scope) = _
      have hcontains : (v6Text value ++ str "%" ++ scope).contains 47 = false := by
        simp [hslash, hslash', str]
      have hpartition : Str.partition (str "%") (v6Text value ++ str "%" ++ scope)
          = some (v6Text value, scope) := Str.partition_append hpercent scope
      rw [parse, v4_of_colon (by simp [hcolon])]
      dsimp only
      rw [hcontains, hpartition]
      dsimp only
      rw [v6_text hlt]
      simp [hne, hpercent']

/-! ## What is in a text that is read -/

theorem isSome_of_hextets {parts : List Str} {value c : Nat} (h : hextets parts = some value)
    {part : Str} (hpart : part ∈ parts) (hc : c ∈ part) : (hexValue c).isSome = true := by
  obtain ⟨words, hwords, -⟩ := Option.bind_eq_some_iff.1 h
  obtain ⟨w, hw⟩ := Option.isSome_iff_exists.1 (isSome_of_mapM hwords hpart)
  obtain ⟨digits, hdigits, -⟩ := Option.bind_eq_some_iff.1 hw
  exact isSome_of_mapM hdigits hc

/-- Every part is read but the empty ones of a `::`. -/
theorem isSome_of_ofParts {parts : List Str} {value c : Nat} (h : ofParts parts = some value)
    {part : Str} (hpart : part ∈ parts) (hc : c ∈ part) : (hexValue c).isSome = true := by
  obtain ⟨i, hi, rfl⟩ := List.getElem_of_mem hpart
  rw [ofParts] at h
  split at h
  · cases h
  split at h
  · split at h
    · exact isSome_of_hextets h (List.getElem_mem hi) hc
    · cases h
  · next skip hskips =>
    obtain ⟨hi', hbefore, h⟩ := Option.bind_eq_some_iff.1 h
    obtain ⟨lo, hafter, h⟩ := Option.bind_eq_some_iff.1 h
    rw [around] at h
    split at h
    · cases h
    obtain ⟨high, hhigh, h⟩ := Option.bind_eq_some_iff.1 h
    obtain ⟨low, hlow, -⟩ := Option.map_eq_some_iff.1 h
    have hnone : parts[i] ≠ [] := List.ne_nil_of_mem hc
    have hskip : skip ∈ skips parts := by simp [hskips]
    simp only [skips, List.mem_filter, List.mem_range, Bool.and_eq_true, decide_eq_true_eq] at hskip
    obtain ⟨hlt, ⟨-, -⟩, hempty⟩ := hskip
    rw [List.getD_eq_getElem _ _ hlt] at hempty
    rcases Nat.lt_trichotomy i skip with hlo | rfl | hhi
    · rw [wordsBefore] at hbefore
      split at hbefore
      · obtain rfl := Option.some.inj hbefore
        exact isSome_of_hextets hhigh (List.mem_take_iff_getElem.2 ⟨i, by omega, rfl⟩) hc
      · next hhead =>
        split at hbefore
        · next hone =>
          -- the part before it is the empty one at the start
          obtain rfl : i = 0 := by omega
          rw [not_not, List.head?_eq_getElem?, List.getElem?_eq_getElem hi] at hhead
          exact absurd (Option.some.inj hhead) hnone
        · cases hbefore
    · exact absurd hempty hnone
    · dsimp only [wordsAfter] at hafter
      split at hafter
      · obtain rfl := Option.some.inj hafter
        refine isSome_of_hextets hlow (List.mem_drop_iff_getElem.2 ⟨i - (skip + 1), by omega, ?_⟩)
          hc
        congr 1
        omega
      · next hlast =>
        split at hafter
        · next hone =>
          obtain rfl : i = parts.length - 1 := by omega
          rw [not_not, List.getLast?_eq_getElem?, List.getElem?_eq_getElem hi] at hlast
          exact absurd (Option.some.inj hlast) hnone
        · cases hafter
  · cases h

theorem v6_chars {s : Str} {value c : Nat} (h : v6 s = some value) (hc : c ∈ s) :
    (hexValue c).isSome = true ∨ c = 58 ∨ c = 46 := by
  rw [v6_eq] at h
  split at h
  · cases h
  obtain ⟨parts, hparts, h⟩ := Option.bind_eq_some_iff.1 h
  have hjoined : [58].intercalate (s.splitOn 58) = s := List.intercalate_splitOn 58
  rw [← hjoined] at hc
  rcases mem_intercalate hc with hsep | ⟨part, hpart, hc⟩
  · exact .inr (.inl (List.mem_singleton.1 hsep))
  · unfold withoutV4 at hparts
    dsimp only at hparts
    split at hparts
    · obtain ⟨a, ha, hparts⟩ := Option.bind_eq_some_iff.1 hparts
      obtain rfl := Option.some.inj hparts
      have hne : s.splitOn 58 ≠ [] := List.ne_nil_of_mem hpart
      rw [← List.dropLast_concat_getLast hne, List.mem_append, List.mem_singleton] at hpart
      rcases hpart with hpart | rfl
      · exact .inl (isSome_of_ofParts h (List.mem_append_left _ hpart) hc)
      · -- the IPv4 address at the end
        rw [List.getLastD_eq_getLast?, List.getLast?_eq_some_getLast hne, Option.getD_some] at ha
        rw [(v4_eq_some ha).1] at hc
        by_cases hdot : c = 46
        · exact .inr (.inr hdot)
        · have hdigit : 48 ≤ c ∧ c ≤ 57 := by
            by_contra hno
            exact not_mem_v4Text hno hdot hc
          exact .inl (by simp [hexValue, hdigit])
    · obtain rfl := Option.some.inj hparts
      exact .inl (isSome_of_ofParts h hpart hc)

/-- A character that no number is written with stays: it is in the scope. -/
theorem mem_text_of_parse {s : Str} {a : IpAddress} {c : Nat} (h : parse s = some a) (hc : c ∈ s)
    (hhex : hexValue c = none) (hcolon : c ≠ 58) (hdot : c ≠ 46) (hpercent : c ≠ 37) :
    c ∈ a.text := by
  have hnot : ∀ {s' value}, v6 s' = some value → c ∉ s' := by
    intro s' value hv6 hmem
    rcases v6_chars hv6 hmem with hsome | hc | hc
    · simp [hhex] at hsome
    · exact hcolon hc
    · exact hdot hc
  rw [parse] at h
  split at h
  · next value hv4 =>
    rw [(v4_eq_some hv4).1] at hc
    refine absurd hc (not_mem_v4Text (fun hdigit => ?_) hdot)
    simp [hexValue, hdigit] at hhex
  · split at h
    · cases h
    · split at h
      · obtain ⟨value, hv6, rfl⟩ := Option.map_eq_some_iff.1 h
        exact absurd hc (hnot hv6)
      · next body scope hpartition =>
        split at h
        · cases h
        · obtain ⟨value, hv6, rfl⟩ := Option.map_eq_some_iff.1 h
          rw [Str.partition_eq_some hpartition, List.mem_append, List.mem_append] at hc
          rcases hc with (hc | hc) | hc
          · exact absurd hc (hnot hv6)
          · exact absurd (List.mem_singleton.1 hc) hpercent
          · exact List.mem_append_right _ hc

end IpAddress

end Lib
