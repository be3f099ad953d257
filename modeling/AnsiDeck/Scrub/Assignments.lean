import AnsiDeck.Scrub.Readings

/-!
# The assignment pass, twice

Gone over once by the last pattern, a text is read in the same places again: a name and a sign stay,
a value stays one and has the marker in it, and where nothing was read nothing is. So the pass
changes nothing more.
-/

namespace AnsiDeck.Scrub

open Lib

/-! ## What the pass makes of a reading -/

theorem solid_assignment (u : Unicode) : 0 < (assignment u).minLen :=
  Regex.minLen_seq_pos (by simp [Regex.minLen, minLen_assignedValue])

theorem spells_assignment (u : Unicode) : Pattern.Spells ⟨assignment u, solid_assignment u⟩ redacted
    redactAssignment editsRedactAssignment :=
  spells_redactAssignment u _

def assignmentPass (u : Unicode) : Pass :=
  ⟨⟨assignment u, solid_assignment u⟩, redactAssignment, editsRedactAssignment,
    spells_assignment u⟩

/-- The value of an assignment as the pass leaves it. -/
def redactValue (value : Text) : Text :=
  if redacted <:+: value then value else openingQuote value ++ (redacted ++ openingQuote value)

/-- The pass from a place on. -/
def maskFrom (u : Unicode) (before rest : Text) : Text :=
  (assignmentPass u).pattern.subFrom redactAssignment before rest 0

theorem run_assignmentPass (u : Unicode) (text : Text) :
    (assignmentPass u).run text = maskFrom u [] text := rfl

section mask

variable {u : Unicode}

theorem maskFrom_none {before rest : Text} {c : Nat}
    (h : (assignment u).matchAt before (c :: rest) = none) :
    maskFrom u before (c :: rest) = c :: maskFrom u (c :: before) rest :=
  Lib.Pattern.subFrom_none h

theorem maskFrom_reading (hu : u.Tables) {before name quote space space' value after : Text}
    {sign : Nat} (h : Reading u before name quote space sign space' value after) :
    maskFrom u before (name ++ (gapText quote space sign space' ++ (value ++ after))) =
      name ++ (gapText quote space sign space' ++ (redactValue value ++
        maskFrom u ((name ++ gapText quote space sign space' ++ value).reverse ++ before)
          after)) := by
  let m : Found := ⟨name ++ gapText quote space sign space' ++ value,
    [(.val, value), (.pre, name ++ gapText quote space sign space')]⟩
  have hassoc : name ++ (gapText quote space sign space' ++ (value ++ after)) =
      m.text ++ after := by
    simp [m]
  have hmatch : (assignmentPass u).pattern.regex.matchAt before (m.text ++ after) = some m :=
    hassoc ▸ matchAt_of_reading hu h
  have hrepl : redactAssignment m =
      name ++ (gapText quote space sign space' ++ redactValue value) := by
    have hother : (Group.pre == Group.val) = false := rfl
    by_cases hmarked : redacted <:+: value
    · simp [m, redactAssignment, redactValue, Regex.Match.group, hmarked]
    · simp [m, redactAssignment, redactValue, Regex.Match.group, hmarked, List.lookup_cons, hother]
  rw [hassoc, maskFrom, Lib.Pattern.subFrom_some hmatch, hrepl]
  simp [m, maskFrom]

/-- A text is read from left to right. -/
theorem mask_induction (hu : u.Tables) {motive : Text → Text → Prop}
    (nil : ∀ before, motive before [])
    (keep : ∀ before c rest, (assignment u).matchAt before (c :: rest) = none →
      motive (c :: before) rest → motive before (c :: rest))
    (found : ∀ before name quote space sign space' value after,
      Reading u before name quote space sign space' value after →
      motive ((name ++ gapText quote space sign space' ++ value).reverse ++ before) after →
      motive before (name ++ (gapText quote space sign space' ++ (value ++ after)))) :
    ∀ before rest, motive before rest := by
  apply (assignmentPass u).pattern.sub_induction nil keep
  intro before m rest hm ih
  obtain ⟨name, quote, space, sign, space', value, after, hr, heq⟩ := reading_of_matchAt hu hm
  have hmatch := matchAt_of_reading hu hr
  rw [← heq] at hmatch
  obtain rfl := Option.some.inj (hm.symm.trans hmatch)
  have hsplit : name ++ gapText quote space sign space' ++ value ++ rest =
      name ++ gapText quote space sign space' ++ value ++ after := by
    rw [heq]
    simp
  obtain rfl := List.append_cancel_left hsplit
  rw [heq]
  exact found before name quote space sign space' value rest hr ih

theorem head_maskFrom (hu : u.Tables) (before rest : Text) :
    (maskFrom u before rest).head? = rest.head? := by
  induction before, rest using mask_induction hu with
  | nil before => rfl
  | keep before c rest h _ =>
    rw [maskFrom_none h]
    rfl
  | found before name quote space sign space' value after h _ =>
    rw [maskFrom_reading hu h]
    obtain ⟨c, name', rfl⟩ := List.exists_cons_of_ne_nil h.name.ne_nil
    rfl

theorem bareChar_redacted : ∀ c ∈ redacted, bareChar u c = true := by
  have hchars : ∀ c ∈ redacted, 33 ≤ c ∧ c ≤ 126 ∧ c ∉ txt "\"',\x7d\\" := by decide
  intro c hc
  obtain ⟨hlow, hhigh, hmem⟩ := hchars c hc
  simp [bareChar, u.space_printable c hlow hhigh, hmem]

/-- A value that is left is a value, with the marker in it. -/
theorem isValue_redactValue {value after after' : Text} (h : IsValue u value after)
    (hafter : after'.head? = after.head?) :
    IsValue u (redactValue value) after' ∧ redacted <:+: redactValue value := by
  by_cases hmarked : redacted <:+: value
  · rw [redactValue, if_pos hmarked]
    refine ⟨?_, hmarked⟩
    cases h with
    | quoted q body after hq hbody hslash => exact .quoted q body after' hq hbody hslash
    | bare value after hne hvalue hend => exact .bare value after' hne hvalue (hafter ▸ hend)
  · rw [redactValue, if_neg hmarked]
    refine ⟨?_, openingQuote value, openingQuote value, by rw [List.append_assoc]⟩
    cases h with
    | quoted q body after hq hbody hslash =>
      have hopen : openingQuote (q :: (body ++ [q])) = [q] := by simp [openingQuote, hq]
      have hmark : q ∉ redacted := by
        rcases quote_cases hq with rfl | rfl
        · decide
        · decide
      rw [hopen]
      exact .quoted q redacted after' hq hmark (by decide)
    | bare value after hne hvalue hend =>
      obtain ⟨c, rest, rfl⟩ := List.exists_cons_of_ne_nil hne
      have hc : c ∉ txt "\"'" := by
        intro hq
        have := hvalue c List.mem_cons_self
        rw [not_bareChar_quote hq] at this
        exact absurd this Bool.false_ne_true
      have hopen : openingQuote (c :: rest) = [] := by simp [openingQuote, hc]
      rw [hopen, List.append_nil, List.nil_append]
      exact .bare redacted after' (by decide) bareChar_redacted (hafter ▸ hend)

/-! ## A masked text is read in the same places -/

theorem matchAt_none_of_edge (hu : u.Tables) {before rest : Text} {c : Nat}
    (h : nameChar u c = false ∨ before.head?.any (nameChar u) = true) :
    (assignment u).matchAt before (c :: rest) = none := by
  cases hm : (assignment u).matchAt before (c :: rest) with
  | none => rfl
  | some m =>
    obtain ⟨name, quote, space, sign, space', value, after, hr, heq⟩ := reading_of_matchAt hu hm
    obtain ⟨d, name', rfl⟩ := List.exists_cons_of_ne_nil hr.name.ne_nil
    obtain ⟨rfl, -⟩ := List.cons.inj heq
    rcases h with hc | hedge
    · rw [hr.name.chars c List.mem_cons_self] at hc
      exact absurd hc.symm Bool.false_ne_true
    · rw [hr.edge] at hedge
      exact absurd hedge Bool.false_ne_true

/-- No reading begins at a character of `w`: it is of no name, or a name goes on there. -/
def Unread (u : Unicode) : Text → Text → Prop
  | _, [] => True
  | before, c :: w =>
    (nameChar u c = false ∨ before.head?.any (nameChar u) = true) ∧ Unread u (c :: before) w

theorem unread_name {w : Text} (hw : ∀ c ∈ w, nameChar u c = true) :
    ∀ {before : Text}, before.head?.any (nameChar u) = true → Unread u before w := by
  induction w with
  | nil => exact fun _ => trivial
  | cons c w ih =>
    intro before hbefore
    obtain ⟨hc, hw⟩ := List.forall_mem_cons.1 hw
    exact ⟨.inr hbefore, ih hw (by simpa using hc)⟩

theorem unread_other {w : Text} (hw : ∀ c ∈ w, nameChar u c = false) :
    ∀ {before : Text}, Unread u before w := by
  induction w with
  | nil => exact trivial
  | cons c w ih =>
    intro before
    obtain ⟨hc, hw⟩ := List.forall_mem_cons.1 hw
    exact ⟨.inl hc, ih hw⟩

/-- What stands in the masked text before any reading begins, stood in the text. -/
theorem split_unread (hu : u.Tables) {w : Text} : ∀ {before rest out : Text},
    Unread u before w → maskFrom u before rest = w ++ out →
      ∃ rest', rest = w ++ rest' ∧ out = maskFrom u (w.reverse ++ before) rest' := by
  induction w with
  | nil => exact fun _ h => ⟨_, rfl, h.symm⟩
  | cons c w ih =>
    intro before rest out hunread h
    obtain ⟨hc, hunread⟩ := hunread
    have hhead : rest.head? = some c := by rw [← head_maskFrom hu before rest, h]; rfl
    obtain ⟨r, rfl⟩ := List.head?_eq_some_iff.1 hhead
    rw [maskFrom_none (matchAt_none_of_edge hu hc)] at h
    obtain ⟨rest', rfl, hout⟩ := ih hunread (List.cons.inj h).2
    exact ⟨rest', rfl, by rw [hout]; simp⟩

theorem gap_chars (hu : u.Tables) {quote space space' : Text} {sign : Nat}
    (h : Gap u quote space sign space') :
    ∀ c ∈ gapText quote space sign space', nameChar u c = false ∧ c ≠ 92 := by
  have hslash : u.isSpace 92 = false := not_space_of_mem (by decide)
  have hspace : ∀ c, u.isSpace c = true → nameChar u c = false ∧ c ≠ 92 := by
    intro c hc
    refine ⟨not_nameChar_space hu hc, ?_⟩
    rintro rfl
    rw [hslash] at hc
    exact absurd hc Bool.false_ne_true
  intro c hc
  simp only [gapText, List.mem_append, List.mem_cons] at hc
  rcases hc with hc | hc | rfl | hc
  · rcases h.quote with rfl | ⟨q, hq, rfl⟩
    · exact absurd hc List.not_mem_nil
    · obtain rfl := List.mem_singleton.1 hc
      rcases quote_cases hq with rfl | rfl
      · exact ⟨not_nameChar hu (by decide), by decide⟩
      · exact ⟨not_nameChar hu (by decide), by decide⟩
  · exact hspace c (h.space c hc)
  · have hsign : c = 61 ∨ c = 58 := by
      have := h.sign
      revert this
      simp [txt]
    rcases hsign with rfl | rfl
    · exact ⟨not_nameChar hu (by decide), by decide⟩
    · exact ⟨not_nameChar hu (by decide), by decide⟩
  · exact hspace c (h.space' c hc)

theorem backslash_not_mem_value {value after : Text} (h : IsValue u value after) : 92 ∉ value := by
  intro hmem
  cases h with
  | quoted q body after hq _ hslash =>
    have hq92 : 92 ≠ q := by
      rintro rfl
      exact absurd hq (by decide)
    simp [hq92, hslash] at hmem
  | bare value after _ hvalue _ =>
    have := hvalue 92 hmem
    rw [not_bareChar_backslash] at this
    exact absurd this Bool.false_ne_true

theorem mem_redactValue {value : Text} {c : Nat} (h : c ∈ redactValue value) :
    c ∈ value ∨ c ∈ redacted := by
  have hopen : ∀ c ∈ openingQuote value, c ∈ value := by
    intro c hc
    cases value with
    | nil => exact hc
    | cons d rest =>
      simp only [openingQuote] at hc
      split at hc
      · obtain rfl := List.mem_singleton.1 hc
        exact List.mem_cons_self
      · exact absurd hc List.not_mem_nil
  unfold redactValue at h
  split at h
  · exact .inl h
  · simp only [List.mem_append] at h
    rcases h with h | h | h
    · exact .inl (hopen c h)
    · exact .inr h
    · exact .inl (hopen c h)

/-- No quote comes to stand before the first backslash. -/
theorem quote_mem_of_masked (hu : u.Tables) {q : Nat} (hq : q ∈ txt "\"'") (before rest : Text) :
    q ∈ (maskFrom u before rest).takeWhile (· ≠ 92) → q ∈ rest.takeWhile (· ≠ 92) := by
  have hmark : q ∉ redacted := by
    rcases quote_cases hq with rfl | rfl
    · decide
    · decide
  induction before, rest using mask_induction hu with
  | nil before => exact id
  | keep before c rest h ih =>
    rw [maskFrom_none h]
    intro hmem
    by_cases hc : c = 92
    · simp [hc] at hmem
    · simp only [ne_eq, hc, not_false_eq_true, decide_true, List.takeWhile_cons_of_pos,
        List.mem_cons] at hmem ⊢
      exact hmem.imp_right ih
  | found before name quote space sign space' value after h ih =>
    rw [maskFrom_reading hu h]
    have hname : ∀ c ∈ name, decide (c ≠ 92) = true := by
      intro c hc
      apply decide_eq_true
      rintro rfl
      have := h.name.chars 92 hc
      rw [not_nameChar hu (by decide)] at this
      exact absurd this Bool.false_ne_true
    have hgap : ∀ c ∈ gapText quote space sign space', decide (c ≠ 92) = true :=
      fun c hc => decide_eq_true (gap_chars hu h.gap c hc).2
    have hslash := backslash_not_mem_value h.value
    have hvalue : ∀ c ∈ value, decide (c ≠ 92) = true := by
      intro c hc
      apply decide_eq_true
      rintro rfl
      exact hslash hc
    have hredact : ∀ c ∈ redactValue value, decide (c ≠ 92) = true := by
      intro c hc
      apply decide_eq_true
      rintro rfl
      rcases mem_redactValue hc with hc | hc
      · exact hslash hc
      · exact absurd hc (by decide)
    rw [List.takeWhile_append_of_pos hname, List.takeWhile_append_of_pos hgap,
      List.takeWhile_append_of_pos hredact, List.takeWhile_append_of_pos hname,
      List.takeWhile_append_of_pos hgap, List.takeWhile_append_of_pos hvalue]
    simp only [List.mem_append]
    rintro (hmem | hmem | hmem | hmem)
    · exact .inl hmem
    · exact .inr (.inl hmem)
    · rcases mem_redactValue hmem with hmem | hmem
      · exact .inr (.inr (.inl hmem))
      · exact absurd hmem hmark
    · exact .inr (.inr (.inr (ih hmem)))

/-- A value of the masked text begins where one of the text did. -/
theorem exists_value (hu : u.Tables) {before rest value' after' : Text}
    (hvalue : IsValue u value' after') (h : maskFrom u before rest = value' ++ after') :
    ∃ value after, rest = value ++ after ∧ IsValue u value after := by
  have hhead : rest.head? = (value' ++ after').head? := by rw [← h, head_maskFrom hu]
  cases hvalue with
  | bare value' after' hne hbare _ =>
    obtain ⟨c, w, rfl⟩ := List.exists_cons_of_ne_nil hne
    obtain ⟨value, after, rfl, hin, hend⟩ := exists_run (bareChar u) rest
    refine ⟨value, after, rfl, .bare value after ?_ hin hend⟩
    rintro rfl
    have := hend c hhead
    rw [hbare c List.mem_cons_self] at this
    exact absurd this.symm Bool.false_ne_true
  | quoted q body after' hq hbody hslash =>
    have hnot : nameChar u q = false := by
      rcases quote_cases hq with rfl | rfl
      · exact not_nameChar hu (by decide)
      · exact not_nameChar hu (by decide)
    have hsplit : maskFrom u before rest = [q] ++ (body ++ q :: after') := by
      rw [h]
      simp
    obtain ⟨r, rfl, hout⟩ := split_unread hu (unread_other (by simpa using hnot)) hsplit
    -- the closing quote is before the first backslash, in the text as in the masked text
    have hmem : q ∈ (maskFrom u ([q].reverse ++ before) r).takeWhile (· ≠ 92) := by
      have hin : ∀ c ∈ body ++ [q], decide (c ≠ 92) = true := by
        intro c hc
        apply decide_eq_true
        rintro rfl
        rcases List.mem_append.1 hc with hc | hc
        · exact hslash hc
        · obtain rfl := List.mem_singleton.1 hc
          exact absurd hq (by decide)
      have hassoc : body ++ q :: after' = (body ++ [q]) ++ after' := by simp
      rw [← hout, hassoc, List.takeWhile_append_of_pos hin]
      simp
    have hmem' := quote_mem_of_masked hu hq _ r hmem
    obtain ⟨body₂, tail, hbody₂, hnotin⟩ := List.eq_append_cons_of_mem hmem'
    have hbefore : 92 ∉ body₂ := by
      intro hmem92
      have hall :=
        List.all_eq_true.1 (List.all_takeWhile (p := fun c => decide (c ≠ 92)) (l := r)) 92
        (by rw [hbody₂]; exact List.mem_append_left _ hmem92)
      simp at hall
    refine ⟨q :: (body₂ ++ [q]), tail ++ r.dropWhile (· ≠ 92), ?_,
      .quoted q body₂ _ hq hnotin hbefore⟩
    have hr : r = r.takeWhile (· ≠ 92) ++ r.dropWhile (· ≠ 92) :=
      List.takeWhile_append_dropWhile.symm
    rw [hbody₂] at hr
    simpa using hr

/-- Where nothing was read, nothing is read in the masked text. -/
theorem not_read (hu : u.Tables) {before before' rest : Text} {c : Nat}
    (h : (assignment u).matchAt before (c :: rest) = none)
    (hedge : nameChar u c = true →
      before.head?.any (nameChar u) = before'.head?.any (nameChar u)) :
    (assignment u).matchAt before' (c :: maskFrom u (c :: before) rest) = none := by
  cases hm : (assignment u).matchAt before' (c :: maskFrom u (c :: before) rest) with
  | none => rfl
  | some m =>
    obtain ⟨name, quote, space, sign, space', value', after', hr, heq⟩ := reading_of_matchAt hu hm
    obtain ⟨d, name, rfl⟩ := List.exists_cons_of_ne_nil hr.name.ne_nil
    obtain ⟨rfl, hout⟩ := List.cons.inj heq
    obtain ⟨hc, hname⟩ := List.forall_mem_cons.1 hr.name.chars
    -- the name, then the sign, then the value
    obtain ⟨rest₁, rfl, hout₁⟩ := split_unread hu (unread_name hname (by simpa using hc)) hout
    obtain ⟨rest₂, rfl, hout₂⟩ := split_unread hu
      (unread_other fun c hc => (gap_chars hu hr.gap c hc).1) hout₁.symm
    obtain ⟨value, after, rfl, hvalue⟩ := exists_value hu hr.value hout₂.symm
    have hread : Reading u before (c :: name) quote space sign space' value after :=
      ⟨(hedge hc).trans hr.edge, hr.name, hr.gap, hvalue⟩
    have hsome := matchAt_of_reading hu hread
    rw [List.cons_append, h] at hsome
    exact absurd hsome (by simp)

theorem maskFrom_maskFrom (hu : u.Tables) (before rest : Text) : ∀ before',
    (∀ c ∈ rest.head?, nameChar u c = true →
      before.head?.any (nameChar u) = before'.head?.any (nameChar u)) →
    maskFrom u before' (maskFrom u before rest) = maskFrom u before rest := by
  induction before, rest using mask_induction hu with
  | nil before => exact fun _ _ => rfl
  | keep before c rest h ih =>
    intro before' hedge
    rw [maskFrom_none h, maskFrom_none (not_read hu h (hedge c rfl)), ih (c :: before')]
    intro d _ _
    rfl
  | found before name quote space sign space' value after h ih =>
    intro before' hedge
    rw [maskFrom_reading hu h]
    let out := maskFrom u ((name ++ gapText quote space sign space' ++ value).reverse ++ before)
      after
    obtain ⟨hvalue, hmarked⟩ := isValue_redactValue h.value (head_maskFrom hu _ after)
    have hread : Reading u before' name quote space sign space' (redactValue value) out := by
      refine ⟨?_, h.name, h.gap, hvalue⟩
      obtain ⟨c, w, hname⟩ := List.exists_cons_of_ne_nil h.name.ne_nil
      have hc : nameChar u c = true := h.name.chars c (by rw [hname]; exact List.mem_cons_self)
      rw [← hedge c (by rw [hname]; rfl) hc]
      exact h.edge
    have hagain : redactValue (redactValue value) = redactValue value := if_pos hmarked
    rw [maskFrom_reading hu hread, hagain, ih]
    -- behind a value no name goes on, or the value ends with the quote it had
    intro c hc hname
    cases h.value with
    | bare value after _ _ hend =>
      have := hend c hc
      rw [bareChar_of_nameChar hu hname] at this
      exact absurd this.symm Bool.false_ne_true
    | quoted q body after hq _ _ =>
      have hopen : openingQuote (q :: (body ++ [q])) = [q] := by simp [openingQuote, hq]
      have hlast : ∃ w, redactValue (q :: (body ++ [q])) = w ++ [q] := by
        unfold redactValue
        split
        · exact ⟨q :: body, rfl⟩
        · exact ⟨[q] ++ redacted, by rw [hopen, List.append_assoc]⟩
      obtain ⟨w, hw⟩ := hlast
      simp [hw]

/-- The last pattern finds nothing more in what it left. -/
theorem assignmentPass_again (hu : u.Tables) (text : Text) :
    (assignmentPass u).run ((assignmentPass u).run text) = (assignmentPass u).run text := by
  simp only [run_assignmentPass]
  exact maskFrom_maskFrom hu [] text [] fun _ _ _ => rfl

end mask

end AnsiDeck.Scrub
