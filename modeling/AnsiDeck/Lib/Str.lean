import Mathlib.Data.List.DropRight

/-!
# Python's `str`

A `str` is its code points. It can hold lone surrogates, which no `String` and no UTF-8 can, and
what is read from JSON often does.
-/

namespace Lib

abbrev Str := List Nat

instance : LawfulBEq Str := inferInstance

def str (s : String) : Str := s.toList.map Char.toNat

namespace Str

/-- `s.strip()`, with the characters to strip as a predicate. -/
def strip (p : Nat → Bool) (s : Str) : Str := (s.dropWhile p).rdropWhile p

/-- `sub in s`. -/
def has (sub s : Str) : Bool := s.tails.any sub.isPrefixOf

/-- `s.partition(sep)` where `sep` occurs: what stands before and after its first place. -/
def partition (sep : Str) : Str → Option (Str × Str)
  | [] => none
  | c :: s =>
    if sep.isPrefixOf (c :: s) then some ([], (c :: s).drop sep.length)
    else (partition sep s).map fun parts => (c :: parts.1, parts.2)

/-- `s.rsplit(sep, 1)` where `sep` occurs: what stands before and after its last place. -/
def rsplit (sep : Str) : Str → Option (Str × Str)
  | [] => none
  | c :: s =>
    match rsplit sep s with
    | some parts => some (c :: parts.1, parts.2)
    | none => if sep.isPrefixOf (c :: s) then some ([], (c :: s).drop sep.length) else none

theorem partition_eq_some {sep s a b : Str} (h : partition sep s = some (a, b)) :
    s = a ++ sep ++ b := by
  induction s generalizing a with
  | nil => cases h
  | cons c s ih =>
    rw [partition] at h
    split at h
    · next hprefix =>
      cases h
      rw [List.nil_append]
      exact (List.prefix_iff_eq_append.1 (List.isPrefixOf_iff_prefix.1 hprefix)).symm
    · obtain ⟨⟨a', b'⟩, hrest, heq⟩ := Option.map_eq_some_iff.1 h
      cases heq
      rw [ih hrest]
      rfl

theorem strip_eq_self {p : Nat → Bool} {s : Str} (h : ∀ c ∈ s, p c = false) :
    strip p s = s := by
  have hdrop : s.dropWhile p = s := by
    rw [List.dropWhile_eq_self_iff]
    intro hpos
    simp [h _ (List.getElem_mem hpos)]
  rw [strip, hdrop, List.rdropWhile_eq_self_iff]
  intro hne
  simp [h _ (List.getLast_mem hne)]

theorem rsplit_eq_none {sep : Str} : ∀ {s : Str}, ¬ sep <:+: s → rsplit sep s = none
  | [], _ => rfl
  | c :: s, h => by
    have hs : ¬ sep <:+: s := fun hi => h (hi.trans (List.suffix_cons c s).isInfix)
    have hpre : ¬ sep.isPrefixOf (c :: s) = true := fun hp =>
      h (List.isPrefixOf_iff_prefix.1 hp).isInfix
    rw [rsplit, rsplit_eq_none hs, if_neg hpre]

/-- The last place of a separator is the one after which its last character does not occur. -/
theorem rsplit_append (sep : Str) {d : Nat} {b : Str} (hb : d ∉ b) (a : Str) :
    rsplit (sep ++ [d]) (a ++ (sep ++ [d]) ++ b) = some (a, b) := by
  induction a with
  | cons c a ih => rw [List.cons_append, List.cons_append, rsplit, ih]
  | nil =>
    -- past its first character what is left of the separator is too short to hold it again
    have hshort : ∀ pre : Str, pre.length ≤ sep.length → ¬ (sep ++ [d]) <:+: (pre ++ b) := by
      rintro pre hlen ⟨x, y, hxy⟩
      rw [List.append_assoc, List.append_assoc, ← List.append_assoc x] at hxy
      rcases List.append_eq_append_iff.1 hxy with ⟨c, hpre, hdy⟩ | ⟨c, -, rfl⟩
      · have hnil : c = [] := List.eq_nil_of_length_eq_zero (by
          have := congrArg List.length hpre
          simp only [List.length_append] at this
          omega)
        rw [hnil, List.nil_append] at hdy
        exact hb (by simp [← hdy])
      · exact hb (by simp)
    have hpre : (sep ++ [d]).isPrefixOf (sep ++ [d] ++ b) = true :=
      List.isPrefixOf_iff_prefix.2 (List.prefix_append _ b)
    cases hsep : sep ++ [d] with
    | nil => simp at hsep
    | cons c rest =>
      have hlen : rest.length ≤ sep.length := by
        have := congrArg List.length hsep
        simp only [List.length_append, List.length_cons, List.length_nil] at this
        omega
      have hrest := rsplit_eq_none (hshort rest hlen)
      rw [hsep] at hrest hpre
      simp only [List.nil_append, List.cons_append] at hpre ⊢
      rw [rsplit, hrest]
      simp [hpre]

end Str

end Lib
