import AnsiDeck.Lib.Unicode

/-!
# Lower case around what has none

White space and brackets are in no letter's lower case and part a text: its lower case is that of
the parts between them (`Unicode.Cases`; not even a capital sigma looks past one). So stripping and
lowering go either way round, and from a text in lower case its parts are found again.
-/

namespace Lib

namespace Unicode

variable {t : Unicode}

/-- White space, or a square bracket. -/
def parts (t : Unicode) (c : Nat) : Bool := t.isSpace c || c = 91 || c = 93

/-- What Unicode says of lower case. -/
structure Cases (t : Unicode) : Prop where
  lower_lower : ∀ s, t.lower (t.lower s) = t.lower s
  lower_append : ∀ l c r, t.parts c = true → t.lower (l ++ c :: r) = t.lower l ++ c :: t.lower r
  mem_of_lower : ∀ {s c}, t.parts c = true → c ∈ t.lower s → c ∈ s
  eq_nil_of_lower : ∀ {s}, t.lower s = [] → s = []

theorem cases_ascii : ascii.Cases where
  lower_lower s := by
    show (s.map lowerAscii).map lowerAscii = s.map lowerAscii
    rw [List.map_map]
    refine List.map_congr_left fun c _ => ?_
    simp only [Function.comp_apply, lowerAscii, Bool.and_eq_true, decide_eq_true_eq]
    split
    · rw [if_neg (by omega)]
    · rfl
  lower_append l c r h := by
    have hc : lowerAscii c = c := by
      simp only [parts, ascii, asciiSpace, Bool.or_eq_true, Bool.and_eq_true,
        decide_eq_true_eq] at h
      simp only [lowerAscii, Bool.and_eq_true, decide_eq_true_eq]
      rw [if_neg (by omega)]
    show (l ++ c :: r).map lowerAscii = l.map lowerAscii ++ c :: r.map lowerAscii
    rw [List.map_append, List.map_cons, hc]
  mem_of_lower {s c} h hc := by
    obtain ⟨d, hd, rfl⟩ := List.mem_map.1 hc
    simp only [parts, ascii, asciiSpace, lowerAscii, Bool.or_eq_true, Bool.and_eq_true,
      decide_eq_true_eq] at h ⊢
    split at h
    · omega
    · next hcase =>
      rw [if_neg hcase]
      exact hd
  eq_nil_of_lower h := List.map_eq_nil_iff.1 h

theorem lower_nil : t.lower [] = [] := t.lower_plain fun _ hc => (nomatch hc)

namespace Cases

variable (ht : t.Cases)
include ht

theorem mem_lower_iff {s : Str} {c : Nat} (hc : t.parts c = true) : c ∈ t.lower s ↔ c ∈ s := by
  refine ⟨ht.mem_of_lower hc, fun hmem => ?_⟩
  obtain ⟨l, r, rfl⟩ := List.append_of_mem hmem
  rw [ht.lower_append l c r hc]
  exact List.mem_append_right _ List.mem_cons_self

/-- The parts around the first one of a text in lower case. -/
theorem split_of_lower {s x y : Str} {c : Nat} (hc : t.parts c = true) (hx : c ∉ x)
    (h : t.lower s = x ++ c :: y) : ∃ l r, s = l ++ c :: r ∧ t.lower l = x ∧ t.lower r = y := by
  have hmem : c ∈ s := ht.mem_of_lower hc (by simp [h])
  obtain ⟨l, r, rfl, hl⟩ := List.eq_append_cons_of_mem hmem
  have hl' : c ∉ t.lower l := fun hin => hl (ht.mem_of_lower hc hin)
  rw [ht.lower_append l c r hc] at h
  rcases List.append_eq_append_iff.1 h with ⟨a, rfl, ha⟩ | ⟨a, hla, ha⟩
  · cases a with
    | nil => exact ⟨l, r, rfl, (List.append_nil _).symm, (List.cons.inj ha).2⟩
    | cons d a =>
      obtain ⟨rfl, -⟩ := List.cons.inj ha
      exact absurd (by simp) hx
  · cases a with
    | nil =>
      rw [List.append_nil] at hla
      exact ⟨l, r, rfl, hla, (List.cons.inj ha).2.symm⟩
    | cons d a =>
      obtain ⟨rfl, -⟩ := List.cons.inj ha
      exact absurd (by simp [hla]) hl'

theorem head_of_lower {s rest : Str} {c : Nat} (hc : t.parts c = true) (h : t.lower s = c :: rest) :
    ∃ r, s = c :: r ∧ t.lower r = rest := by
  obtain ⟨l, r, rfl, hl, hr⟩ := ht.split_of_lower (x := []) hc List.not_mem_nil h
  obtain rfl := ht.eq_nil_of_lower hl
  exact ⟨r, rfl, hr⟩

theorem last_of_lower {s front : Str} {c : Nat} (hc : t.parts c = true)
    (h : t.lower s = front ++ [c]) : ∃ l, s = l ++ [c] := by
  have hmem : c ∈ s.reverse := List.mem_reverse.2 (ht.mem_of_lower hc (by simp [h]))
  obtain ⟨r, l, hs, hr⟩ := List.eq_append_cons_of_mem hmem
  have hs' : s = l.reverse ++ c :: r.reverse := by
    rw [← List.reverse_reverse s, hs, List.reverse_append, List.reverse_cons, List.append_assoc,
      List.singleton_append]
  have hr' : c ∉ t.lower r.reverse := fun hin =>
    hr (List.mem_reverse.1 (ht.mem_of_lower hc hin))
  rw [hs', ht.lower_append _ c _ hc] at h
  cases hlast : t.lower r.reverse using List.reverseRecOn with
  | nil =>
    rw [ht.eq_nil_of_lower hlast] at hs'
    exact ⟨l.reverse, hs'⟩
  | append_singleton rest d _ =>
    rw [hlast, ← List.cons_append, ← List.append_assoc] at h
    obtain ⟨-, hd⟩ := List.append_inj' h rfl
    obtain rfl := (List.cons.inj hd).1
    exact absurd (by simp [hlast]) hr'

theorem dropWhile_lower (s : Str) :
    (t.lower s).dropWhile t.isSpace = t.lower (s.dropWhile t.isSpace) := by
  induction s with
  | nil => rw [List.dropWhile_nil, lower_nil, List.dropWhile_nil]
  | cons c s ih =>
    by_cases hc : t.isSpace c = true
    · have hparts : t.parts c = true := by simp [parts, hc]
      have hlower : t.lower (c :: s) = c :: t.lower s := by
        rw [← List.nil_append (c :: s), ht.lower_append [] c s hparts, lower_nil, List.nil_append]
      rw [hlower, List.dropWhile_cons_of_pos hc, List.dropWhile_cons_of_pos hc, ih]
    · rw [List.dropWhile_cons_of_neg hc]
      cases hlower : t.lower (c :: s) with
      | nil => rfl
      | cons d rest =>
        refine List.dropWhile_cons_of_neg fun hd => hc ?_
        obtain ⟨r, hsame, -⟩ := ht.head_of_lower (by simp [parts, hd]) hlower
        rwa [(List.cons.inj hsame).1]

theorem rdropWhile_lower (s : Str) :
    (t.lower s).rdropWhile t.isSpace = t.lower (s.rdropWhile t.isSpace) := by
  induction s using List.reverseRecOn with
  | nil => rw [List.rdropWhile_nil, lower_nil, List.rdropWhile_nil]
  | append_singleton s c ih =>
    by_cases hc : t.isSpace c = true
    · have hparts : t.parts c = true := by simp [parts, hc]
      have hlower : t.lower (s ++ [c]) = t.lower s ++ [c] := by
        rw [ht.lower_append s c [] hparts, lower_nil]
      rw [hlower, List.rdropWhile_concat_pos _ _ _ hc, List.rdropWhile_concat_pos _ _ _ hc, ih]
    · rw [List.rdropWhile_concat_neg _ _ _ hc]
      cases hlower : t.lower (s ++ [c]) using List.reverseRecOn with
      | nil => rfl
      | append_singleton front d _ =>
        refine List.rdropWhile_concat_neg _ _ _ fun hd => hc ?_
        obtain ⟨l, hsame⟩ := ht.last_of_lower (by simp [parts, hd]) hlower
        have hcd := (List.append_inj' hsame rfl).2
        rwa [(List.cons.inj hcd).1]

theorem strip_lower (s : Str) : t.strip (t.lower s) = t.lower (t.strip s) := by
  rw [strip, Str.strip, ht.dropWhile_lower, ht.rdropWhile_lower]
  rfl

end Cases

end Unicode

end Lib
