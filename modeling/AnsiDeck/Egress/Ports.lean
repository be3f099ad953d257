import AnsiDeck.Lib.Except
import AnsiDeck.Lib.Ranges
import AnsiDeck.Lib.Unicode

/-!
# The ports of an extra entry

`app.egress_allowlist._parse_ports`: a text of ports and ranges of them between commas, as sorted
ranges of which no two touch. They cover what was typed (`Typed` is what a part says), and the text
that the interface shows for them is read as them again.
-/

namespace AnsiDeck

namespace Egress

open Lib (Range Str Unicode decimal ofDigits)

def maxPortRanges : Nat := 20

/-- `ValueError`, with the part it names. -/
inductive PortsError
  /-- Isn't a port or a range like 8000-8100. -/
  | notPorts (part : Str)
  /-- Isn't a port range between 1 and 65535. -/
  | notInRange (part : Str)
  /-- At most 20 ports or ranges. -/
  | tooMany
  deriving DecidableEq, Repr

section

variable (t : Unicode)

def isDigit (c : Nat) : Bool := (t.digit c).isSome

/-- `\d{1,5}`, and what is after it. -/
def portDigits (s : Str) : Option (List Nat × Str) :=
  let run := s.takeWhile (isDigit t)
  if 1 ≤ run.length ∧ run.length ≤ 5 then some (run.filterMap t.digit, s.dropWhile (isDigit t))
  else none

/-- `_PORTS.fullmatch(part)`: the digits of its groups. White space, digits and the hyphen are
different characters, so that the match never goes back. -/
def portsMatch (part : Str) : Option (List Nat × Option (List Nat)) :=
  (portDigits t (part.dropWhile t.isSpace)).bind fun lo =>
    let rest := lo.2.dropWhile t.isSpace
    if rest = [] then some (lo.1, none)
    else if rest.head? = some 45 then
      (portDigits t (rest.tail.dropWhile t.isSpace)).bind fun hi =>
        if hi.2.dropWhile t.isSpace = [] then some (lo.1, some hi.1) else none
    else none

def checkRange (part : Str) (lo hi : Nat) : Except PortsError Range :=
  if 1 ≤ lo ∧ lo ≤ hi ∧ hi ≤ 65535 then .ok (lo, hi) else .error (.notInRange (t.strip part))

def parsePart (part : Str) : Except PortsError Range :=
  match portsMatch t part with
  | none => .error (.notPorts (t.strip part))
  | some (lo, hi) => checkRange t part (ofDigits lo) (ofDigits (hi.getD lo))

def parsePorts (text : Str) : Except PortsError (List Range) := do
  let ranges ← (text.splitOn 44).mapM (parsePart t)
  if ranges.length > maxPortRanges then .error .tooMany
  else .ok (Range.merge ranges)

end

/-- The interface's text of a range. -/
def portText (r : Range) : Str :=
  if r.1 = r.2 then decimal r.1 else decimal r.1 ++ 45 :: decimal r.2

/-- `portsText` of `egress-panel.tsx`. -/
def portsText (ranges : List Range) : Str := [44].intercalate (ranges.map portText)

/-! ## What is typed -/

section

variable (t : Unicode)

/-- A number of at most five digits. -/
structure Numeral (digits : Str) (n : Nat) : Prop where
  digit : ∀ c ∈ digits, isDigit t c = true
  length : 1 ≤ digits.length ∧ digits.length ≤ 5
  value : ofDigits (digits.filterMap t.digit) = n

def Blank (s : Str) : Prop := ∀ c ∈ s, t.isSpace c = true

/-- The ports that a part between commas says. -/
inductive Typed : Str → Range → Prop
  | port {a digits b : Str} {n : Nat} : Blank t a → Numeral t digits n → Blank t b →
      Typed (a ++ (digits ++ b)) (n, n)
  | range {a low b c high d : Str} {lo hi : Nat} : Blank t a → Numeral t low lo → Blank t b →
      Blank t c → Numeral t high hi → Blank t d →
      Typed (a ++ (low ++ (b ++ 45 :: (c ++ (high ++ d))))) (lo, hi)

variable {t}

theorem portDigits_eq_some {s : Str} {r : List Nat × Str} (h : portDigits t s = some r) :
    ∃ digits, s = digits ++ r.2 ∧ Numeral t digits (ofDigits r.1) := by
  rw [portDigits] at h
  split at h
  · next hlen =>
    cases h
    exact ⟨s.takeWhile (isDigit t), List.takeWhile_append_dropWhile.symm,
      fun c hc => List.mem_takeWhile_imp hc, hlen, rfl⟩
  · cases h

/-- White space taken off the front. -/
theorem dropWhile_isSpace (s : Str) : ∃ a, s = a ++ s.dropWhile t.isSpace ∧ Blank t a :=
  ⟨s.takeWhile t.isSpace, List.takeWhile_append_dropWhile.symm, fun _ hc =>
    List.mem_takeWhile_imp hc⟩

theorem blank_of_dropWhile {s : Str} (h : s.dropWhile t.isSpace = []) : Blank t s :=
  List.dropWhile_eq_nil_iff.mp h

theorem typed_of_portsMatch {part : Str} {m : List Nat × Option (List Nat)}
    (h : portsMatch t part = some m) : Typed t part (ofDigits m.1, ofDigits (m.2.getD m.1)) := by
  obtain ⟨a, hpart, ha⟩ := dropWhile_isSpace (t := t) part
  obtain ⟨lo, hlo, h⟩ := Option.bind_eq_some_iff.mp h
  obtain ⟨low, hlow, hnum⟩ := portDigits_eq_some hlo
  obtain ⟨b, hb, hblank⟩ := dropWhile_isSpace (t := t) lo.2
  rw [hpart, hlow]
  dsimp only at h
  split at h
  · next hend =>
    cases h
    exact .port ha hnum (blank_of_dropWhile hend)
  · split at h
    · next hhyphen =>
      obtain ⟨hi, hhi, h⟩ := Option.bind_eq_some_iff.mp h
      obtain ⟨c, hc, hcblank⟩ := dropWhile_isSpace (t := t) (lo.2.dropWhile t.isSpace).tail
      obtain ⟨high, hhigh, hnum'⟩ := portDigits_eq_some hhi
      split at h
      · next hend =>
        cases h
        have hrest : lo.2 = b ++ 45 :: (c ++ (high ++ hi.2)) := by
          rw [← hhigh, ← hc, List.cons_head?_tail hhyphen]
          exact hb
        rw [hrest]
        exact .range ha hnum hblank hcblank hnum' (blank_of_dropWhile hend)
      · cases h
    · cases h

theorem checkRange_eq_ok {part : Str} {lo hi : Nat} {r : Range} :
    checkRange t part lo hi = .ok r ↔ (1 ≤ lo ∧ lo ≤ hi ∧ hi ≤ 65535) ∧ r = (lo, hi) := by
  rw [checkRange]
  split
  · next h => simp [h, eq_comm]
  · next h => simp [h]

theorem parsePart_eq_ok {part : Str} {r : Range} (h : parsePart t part = .ok r) :
    Typed t part r ∧ 1 ≤ r.1 ∧ r.1 ≤ r.2 ∧ r.2 ≤ 65535 := by
  rw [parsePart] at h
  split at h
  · cases h
  · next lo hi hmatch =>
    obtain ⟨hbounds, rfl⟩ := checkRange_eq_ok.mp h
    exact ⟨typed_of_portsMatch hmatch, hbounds⟩

/-! ## The normal form -/

/-- Ports in order, no two ranges touching. -/
structure NormalForm (ranges : List Range) : Prop where
  inside : ∀ r ∈ ranges, 1 ≤ r.1 ∧ r.1 ≤ r.2 ∧ r.2 ≤ 65535
  apart : ranges.Pairwise Range.Apart

theorem normalForm_merge {ranges : List Range}
    (h : ∀ r ∈ ranges, 1 ≤ r.1 ∧ r.1 ≤ r.2 ∧ r.2 ≤ 65535) : NormalForm (Range.merge ranges) where
  inside r hr := by
    have hne := Range.merge_nonempty (fun s hs => (h s hs).2.1) r hr
    obtain ⟨s, hs, hlow⟩ := (Range.covers_merge ranges r.1).mp ⟨r, hr, Nat.le_refl _, hne⟩
    obtain ⟨s', hs', hhigh⟩ := (Range.covers_merge ranges r.2).mp ⟨r, hr, hne, Nat.le_refl _⟩
    exact ⟨(h s hs).1.trans hlow.1, hne, hhigh.2.trans (h s' hs').2.2⟩
  apart := Range.merge_apart ranges

/-! ## The text of ranges -/

theorem isDigit_of_mem_decimal {n c : Nat} (h : c ∈ decimal n) : isDigit t c = true := by
  rw [isDigit, Lib.Unicode.digit_of_decimal h]
  rfl

theorem portDigits_decimal {n : Nat} (h : n ≤ 65535) (rest : Str)
    (hrest : ∀ c, rest.head? = some c → isDigit t c = false) :
    portDigits t (decimal n ++ rest) = some ((decimal n).map (· - 48), rest) := by
  have hdigits : ∀ c ∈ decimal n, isDigit t c = true := fun c hc => isDigit_of_mem_decimal hc
  have hstop : rest.takeWhile (isDigit t) = [] ∧ rest.dropWhile (isDigit t) = rest := by
    cases rest with
    | nil => exact ⟨rfl, rfl⟩
    | cons c rest => simp [hrest c rfl]
  have hlen : 1 ≤ (decimal n).length ∧ (decimal n).length ≤ 5 := by
    refine ⟨List.length_pos_iff.mpr (Lib.decimal_ne_nil n), ?_⟩
    rw [Lib.length_decimal_le (by decide)]
    omega
  have hvalues : (decimal n).filterMap t.digit = (decimal n).map (· - 48) := by
    rw [List.filterMap_congr fun c hc => Lib.Unicode.digit_of_decimal hc]
    simp
  rw [portDigits, List.takeWhile_append_of_pos hdigits, List.dropWhile_append_of_pos hdigits,
    hstop.1, hstop.2, List.append_nil, if_pos hlen, hvalues]

/-- No white space to take off before a numeral. -/
theorem dropWhile_decimal (n : Nat) (rest : Str) :
    (decimal n ++ rest).dropWhile t.isSpace = decimal n ++ rest := by
  obtain ⟨c, digits, h⟩ := List.exists_cons_of_ne_nil (Lib.decimal_ne_nil n)
  have hc : c ∈ decimal n := h ▸ List.mem_cons_self
  rw [h, List.cons_append, List.dropWhile_cons,
    if_neg (by simp [t.isSpace_of_digit (Lib.Unicode.digit_of_decimal hc)])]

theorem not_digit_hyphen : t.digit 45 = none := by
  rw [t.digit_ascii 45 (by decide)]
  rfl

theorem portsMatch_one {n : Nat} (h : n ≤ 65535) :
    portsMatch t (decimal n) = some ((decimal n).map (· - 48), none) := by
  have hdigits := portDigits_decimal (t := t) h [] fun c hc => by cases hc
  have hdrop := dropWhile_decimal (t := t) n []
  rw [List.append_nil] at hdigits hdrop
  rw [portsMatch, hdrop, hdigits]
  rfl

theorem portsMatch_two {lo hi : Nat} (hlo : lo ≤ 65535) (hhi : hi ≤ 65535) :
    portsMatch t (decimal lo ++ 45 :: decimal hi) =
      some ((decimal lo).map (· - 48), some ((decimal hi).map (· - 48))) := by
  have hhyphen : t.isSpace 45 = false := by
    rw [t.isSpace_ascii 45 (by decide)]
    rfl
  have hfirst := portDigits_decimal (t := t) hlo (45 :: decimal hi) fun c hc => by
    obtain rfl := Option.some.inj hc
    rw [isDigit, not_digit_hyphen]
    rfl
  have hsecond := portDigits_decimal (t := t) hhi [] fun c hc => by cases hc
  have hdrop := dropWhile_decimal (t := t) hi []
  rw [List.append_nil] at hsecond hdrop
  rw [portsMatch, dropWhile_decimal, hfirst, Option.bind_some]
  simp [hhyphen, hdrop, hsecond]

theorem parsePart_portText {r : Range} (h : 1 ≤ r.1 ∧ r.1 ≤ r.2 ∧ r.2 ≤ 65535) :
    parsePart t (portText r) = .ok r := by
  obtain ⟨lo, hi⟩ := r
  dsimp only at h
  rw [parsePart, portText]
  by_cases heq : lo = hi
  · subst heq
    rw [if_pos rfl, portsMatch_one (by omega)]
    dsimp only [Option.getD_none]
    rw [Lib.ofDigits_decimal, checkRange_eq_ok]
    exact ⟨h, rfl⟩
  · rw [if_neg heq, portsMatch_two (by omega) h.2.2]
    dsimp only [Option.getD_some]
    rw [Lib.ofDigits_decimal, Lib.ofDigits_decimal, checkRange_eq_ok]
    exact ⟨h, rfl⟩

theorem comma_not_mem_portText (r : Range) : 44 ∉ portText r := by
  have hdigits : ∀ n, 44 ∉ decimal n := fun n hn => by
    have := Lib.digit_of_mem_decimal hn
    omega
  rw [portText]
  split
  · exact hdigits _
  · intro hmem
    rcases List.mem_append.mp hmem with hmem | hmem
    · exact hdigits _ hmem
    · rcases List.mem_cons.mp hmem with hc | hmem
      · omega
      · exact hdigits _ hmem

theorem mapM_portText {ranges : List Range}
    (h : ∀ r ∈ ranges, 1 ≤ r.1 ∧ r.1 ≤ r.2 ∧ r.2 ≤ 65535) :
    (ranges.map portText).mapM (parsePart t) = .ok ranges := by
  rw [Lib.Except.mapM_eq_ok, List.forall₂_map_left_iff, List.forall₂_same]
  exact fun r hr => parsePart_portText (h r hr)

theorem parsePorts_portsText {ranges : List Range} (h : NormalForm ranges)
    (hlen : ranges.length ≤ maxPortRanges) (hne : ranges ≠ []) :
    parsePorts t (portsText ranges) = .ok ranges := by
  have hsplit : (portsText ranges).splitOn 44 = ranges.map portText := by
    apply List.splitOn_intercalate
    · intro part hpart
      obtain ⟨r, -, rfl⟩ := List.mem_map.mp hpart
      exact comma_not_mem_portText r
    · exact fun hnil => hne (List.map_eq_nil_iff.mp hnil)
  have hmerge := Range.merge_eq_self h.apart fun r hr => (h.inside r hr).2.1
  rw [parsePorts, hsplit, mapM_portText h.inside]
  show (if _ then _ else _) = _
  rw [if_neg (by omega), hmerge]

theorem parsePorts_spec {text : Str} {ranges : List Range} (h : parsePorts t text = .ok ranges) :
    ∃ typed, List.Forall₂ (Typed t) (text.splitOn 44) typed ∧ NormalForm ranges ∧
      (∀ port, Range.Covers ranges port ↔ Range.Covers typed port) ∧
      parsePorts t (portsText ranges) = .ok ranges := by
  obtain ⟨typed, htyped, h⟩ := Lib.Except.bind_eq_ok.mp h
  have hparts := Lib.Except.mapM_eq_ok.mp htyped
  split at h
  · cases h
  · next hlen =>
    cases h
    have hinside : ∀ r ∈ typed, 1 ≤ r.1 ∧ r.1 ≤ r.2 ∧ r.2 ≤ 65535 := fun r hr => by
      obtain ⟨part, -, hpart⟩ := (Lib.Except.mem_mapM htyped).mp hr
      exact (parsePart_eq_ok hpart).2
    have hnormal := normalForm_merge hinside
    have hcovers := Range.covers_merge typed
    refine ⟨typed, hparts.imp fun _ _ hpart => (parsePart_eq_ok hpart).1, hnormal, hcovers,
      parsePorts_portsText hnormal ((Range.length_merge_le typed).trans (by omega)) ?_⟩
    -- a text has a part, so that some port is covered
    intro hnil
    cases typed with
    | nil => exact List.splitOn_ne_nil _ _ (List.forall₂_nil_right_iff.mp hparts)
    | cons r typed =>
      have hr := hinside r List.mem_cons_self
      obtain ⟨s, hs, -⟩ := (hcovers r.1).mpr ⟨r, List.mem_cons_self, Nat.le_refl _, hr.2.1⟩
      rw [hnil] at hs
      cases hs

end

theorem parsePorts_spec_web :
    ∃ typed, List.Forall₂ (Typed Unicode.ascii)
        ((Lib.str "80, 443,8000-8100,8050-8200").splitOn 44) typed ∧
      NormalForm [(80, 80), (443, 443), (8000, 8200)] ∧
      (∀ port, Range.Covers [(80, 80), (443, 443), (8000, 8200)] port ↔ Range.Covers typed port) ∧
      parsePorts Unicode.ascii (portsText [(80, 80), (443, 443), (8000, 8200)])
        = .ok [(80, 80), (443, 443), (8000, 8200)] :=
  parsePorts_spec (by decide)

end Egress

end AnsiDeck
