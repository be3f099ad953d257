import AnsiDeck.Lib.Regex

/-!
# Putting a marker in the place of pieces of a text

What a replacement does to a text, as a list of edits: a character is kept, or some characters are
cut and the marker stands there instead. A word that has nothing to do with the marker (`Apart`)
occurs in the result only where it occurred in the text.
-/

namespace Lib

inductive Edit
  | keep
  | cut (n : Nat)

namespace Edit

variable {α β : Type}

@[grind =] def apply (mark : List α) : List Edit → List α → List α
  | [], _ => []
  | keep :: es, [] => apply mark es []
  | keep :: es, c :: text => c :: apply mark es text
  | cut n :: es, text => mark ++ apply mark es (text.drop n)

/-- How many characters of the text the edits go over. -/
@[grind =] def span : List Edit → Nat
  | [] => 0
  | keep :: es => span es + 1
  | cut n :: es => n + span es

@[simp] theorem span_keeps (n : Nat) : span (List.replicate n keep) = n := by
  induction n with
  | zero => rfl
  | succ n ih => simp [List.replicate_succ, span, ih]

theorem span_append (es es' : List Edit) : span (es ++ es') = span es + span es' := by
  induction es with
  | nil => simp [span]
  | cons e es ih =>
    cases e with
    | keep => simp only [List.cons_append, span, ih]; omega
    | cut n => simp only [List.cons_append, span, ih]; omega

theorem apply_append (mark : List α) (es es' : List Edit) :
    ∀ a b, span es = a.length →
      apply mark (es ++ es') (a ++ b) = apply mark es a ++ apply mark es' b := by
  induction es with
  | nil =>
    intro a b h
    rw [List.length_eq_zero_iff.1 h.symm]
    rfl
  | cons e es ih =>
    intro a b h
    cases e with
    | keep =>
      cases a with
      | nil => exact absurd h (by simp [span])
      | cons c a =>
        have : span es = a.length := by simpa [span] using h
        simp [apply, ih a b this]
    | cut n =>
      have hn : n ≤ a.length := by simp only [span] at h; omega
      have : span es = (a.drop n).length := by rw [List.length_drop]; simp only [span] at h; omega
      simp [apply, List.drop_append_of_le_length hn, ih _ b this]

theorem apply_keeps (mark a : List α) : apply mark (List.replicate a.length keep) a = a := by
  induction a with
  | nil => rfl
  | cons c a ih => simp [List.replicate_succ, apply, ih]

theorem apply_map (f : α → β) (mark : List α) (es : List Edit) :
    ∀ text, (apply mark es text).map f = apply (mark.map f) es (text.map f) := by
  induction es with
  | nil => intro text; rfl
  | cons e es ih =>
    intro text
    cases e with
    | keep => cases text <;> simp [apply, ih]
    | cut n => simp [apply, ih, List.map_drop]

/-- Without a cut the text stays as it is. -/
theorem apply_of_no_cut {mark : List α} :
    ∀ {es text}, (∀ n, cut n ∉ es) → span es = text.length → apply mark es text = text := by
  intro es
  induction es with
  | nil => exact fun _ hspan => (List.length_eq_zero_iff.1 hspan.symm).symm
  | cons e es ih =>
    intro text hcut hspan
    cases e with
    | keep =>
      cases text with
      | nil => exact absurd hspan (by simp [span])
      | cons c text =>
        have hrest := ih (fun n hn => hcut n (List.mem_cons_of_mem _ hn))
          (by simpa [span] using hspan)
        rw [apply, hrest]
    | cut n => exact absurd List.mem_cons_self (hcut n)

/-- What one of the cuts takes. -/
theorem exists_cut {es₁ es₂ : List Edit} {n : Nat} {text : List α}
    (hspan : span (es₁ ++ cut n :: es₂) = text.length) :
    ∃ x w z, text = x ++ (w ++ z) ∧ span es₁ = x.length ∧ w.length = n := by
  rw [span_append, span] at hspan
  refine ⟨text.take (span es₁), (text.drop (span es₁)).take n,
    (text.drop (span es₁)).drop n, ?_, ?_, ?_⟩
  · rw [List.take_append_drop, List.take_append_drop]
  · rw [List.length_take]
    omega
  · rw [List.length_take, List.length_drop]
    omega

/-- A character is in the result, or it is cut. -/
theorem mem_apply_or_cut (mark : List α) {c : α} :
    ∀ {es text}, span es = text.length → c ∈ text → c ∈ apply mark es text ∨
      ∃ es₁ es₂ x w z, es = es₁ ++ cut w.length :: es₂ ∧ text = x ++ (w ++ z) ∧
        span es₁ = x.length ∧ c ∈ w := by
  intro es
  induction es with
  | nil =>
    intro text hspan hc
    rw [List.length_eq_zero_iff.1 hspan.symm] at hc
    exact absurd hc List.not_mem_nil
  | cons e es ih =>
    intro text hspan hc
    cases e with
    | keep =>
      cases text with
      | nil => exact absurd hc List.not_mem_nil
      | cons d text =>
        rcases List.mem_cons.1 hc with rfl | hc
        · exact .inl List.mem_cons_self
        · rcases ih (by simpa [span] using hspan) hc with h | ⟨es₁, es₂, x, w, z, rfl, rfl, hx, hw⟩
          · exact .inl (List.mem_cons_of_mem _ h)
          · exact .inr ⟨keep :: es₁, es₂, d :: x, w, z, rfl, rfl, by simp [span, hx], hw⟩
    | cut n =>
      have hfirst : span ([] ++ cut n :: es) = text.length := hspan
      obtain ⟨x, w, z, rfl, hx, rfl⟩ := exists_cut hfirst
      obtain rfl : x = [] := List.length_eq_zero_iff.1 hx.symm
      have hrest : span es = z.length := by
        rw [List.nil_append, List.length_append, span] at hspan
        omega
      rw [List.nil_append] at hc ⊢
      rcases List.mem_append.1 hc with hc | hc
      · exact .inr ⟨[], es, [], w, z, rfl, rfl, rfl, hc⟩
      · rw [apply, List.drop_left]
        rcases ih hrest hc with h | ⟨es₁, es₂, x, w', z', rfl, rfl, hx, hw⟩
        · exact .inl (List.mem_append_right _ h)
        · refine .inr ⟨cut w.length :: es₁, es₂, w ++ x, w', z', rfl, by simp, ?_, hw⟩
          rw [span, hx, List.length_append]

/-- A character that is not in the marker does not become more frequent. -/
theorem count_apply_le [DecidableEq α] {mark : List α} {c : α} (hc : c ∉ mark) :
    ∀ {es text}, span es = text.length → (apply mark es text).count c ≤ text.count c := by
  intro es
  induction es with
  | nil =>
    intro text _
    exact Nat.zero_le _
  | cons e es ih =>
    intro text hspan
    cases e with
    | keep =>
      cases text with
      | nil => exact absurd hspan (by simp [span])
      | cons d text =>
        have hrest : span es = text.length := by simpa [span] using hspan
        have := ih hrest
        rw [apply, List.count_cons, List.count_cons]
        omega
    | cut n =>
      have hfirst : span ([] ++ cut n :: es) = text.length := hspan
      obtain ⟨x, w, z, rfl, hx, rfl⟩ := exists_cut hfirst
      obtain rfl : x = [] := List.length_eq_zero_iff.1 hx.symm
      have hrest : span es = z.length := by
        rw [List.nil_append, List.length_append, span] at hspan
        omega
      have := ih hrest
      rw [List.nil_append, apply, List.drop_left, List.count_append, List.count_append,
        List.count_eq_zero.2 hc]
      omega

/-- The result with each marker as one hole, and the markers put in. -/
theorem apply_eq_fill (mark : List α) (es : List Edit) : ∀ text,
    apply mark es text =
      (apply [none] es (text.map some)).flatMap fun o => o.elim mark fun c => [c] := by
  induction es with
  | nil => exact fun _ => rfl
  | cons e es ih =>
    intro text
    cases e with
    | keep =>
      cases text with
      | nil => exact ih []
      | cons c text => simp [apply, ih]
    | cut n => simp [apply, ih, List.map_drop]

/-! ## Words apart from the marker -/

/-- `w` can't be part of the marker, nor overlap an end of it. -/
structure Apart (mark w : List α) : Prop where
  marked : mark ≠ []
  first : ∀ c ∈ mark.head?, c ∉ w
  last : ∀ c ∈ mark.getLast?, c ∉ w
  part : ¬ w <:+: mark

theorem Apart.ne_nil {mark w : List α} (h : Apart mark w) : w ≠ [] := by
  rintro rfl
  exact h.part (List.nil_infix)

/-- A word apart from the marker begins behind it or before it, never within. -/
theorem left_of_apart {mark rest left w right : List α} (hw : Apart mark w)
    (h : mark ++ rest = left ++ (w ++ right)) :
    ∃ left', left = mark ++ left' ∧ rest = left' ++ (w ++ right) := by
  rcases List.append_eq_append_iff.1 h with ⟨left', hl, hr⟩ | ⟨tail, hm, htail⟩
  · exact ⟨left', hl, hr⟩
  · by_cases ht : tail = []
    · subst ht
      exact ⟨[], by simpa using hm.symm, htail.symm⟩
    · rcases List.append_eq_append_iff.1 htail with ⟨v, hv, -⟩ | ⟨v, hv, -⟩
      · exact absurd ⟨left, v, by rw [hm, hv, List.append_assoc]⟩ hw.part
      · -- the last character of the marker is the last of `tail`, which the word has
        have hlast : tail.getLast ht ∈ mark.getLast? := by
          rw [hm, List.getLast?_append_of_ne_nil _ ht, List.getLast?_eq_some_getLast ht]
          rfl
        exact absurd (hv ▸ List.mem_append_left _ (List.getLast_mem ht)) (hw.last _ hlast)

/-- A word without the marker's first character begins the result where only kept characters
spell it. -/
theorem prefix_of_apply {mark : List α} (hmark : mark ≠ []) :
    ∀ {w es text right}, (∀ c ∈ mark.head?, c ∉ w) → span es = text.length →
      apply mark es text = w ++ right →
      ∃ es' text', es = List.replicate w.length keep ++ es' ∧ text = w ++ text' ∧
        span es' = text'.length ∧ apply mark es' text' = right := by
  intro w
  induction w with
  | nil => exact fun _ hspan h => ⟨_, _, rfl, rfl, hspan, h⟩
  | cons c w ih =>
    intro es text right hfirst hspan h
    cases es with
    | nil => exact absurd h (by simp [apply])
    | cons e es =>
      cases e with
      | keep =>
        cases text with
        | nil => exact absurd hspan (by simp [span])
        | cons d text =>
          obtain ⟨rfl, hout⟩ : d = c ∧ apply mark es text = w ++ right := by simpa [apply] using h
          have hlen : span es = text.length := by simpa [span] using hspan
          obtain ⟨es', text', rfl, rfl, hspan', h'⟩ :=
            ih (fun x hx hw => hfirst x hx (List.mem_cons_of_mem _ hw)) hlen hout
          exact ⟨es', text', rfl, rfl, hspan', h'⟩
      | cut n =>
        -- here the marker begins, not the word
        cases mark with
        | nil => exact absurd rfl hmark
        | cons m mark =>
          have : m = c := by simpa [apply] using (List.cons.inj h).1
          exact absurd (this ▸ List.mem_cons_self) (hfirst m rfl)

/-- Where a word apart from the marker stands in the result, it stood in the text, and all of its
characters were kept. -/
theorem split_of_apply {mark w : List α} (hw : Apart mark w) :
    ∀ {es text left right}, span es = text.length → apply mark es text = left ++ (w ++ right) →
      ∃ es₁ es₂ a b, es = es₁ ++ (List.replicate w.length keep ++ es₂) ∧ text = a ++ (w ++ b) ∧
        span es₁ = a.length ∧ span es₂ = b.length ∧
        apply mark es₁ a = left ∧ apply mark es₂ b = right := by
  intro es
  induction es with
  | nil =>
    intro text left right _ h
    have : w = [] := by
      have := congrArg List.length h
      exact List.length_eq_zero_iff.1 (by simp [apply] at this; omega)
    exact absurd this hw.ne_nil
  | cons e es ih =>
    intro text left right hspan h
    cases e with
    | keep =>
      cases text with
      | nil => exact absurd hspan (by simp [span])
      | cons d text =>
        cases left with
        | nil =>
          obtain ⟨es', text', hes, htext, hspan', h'⟩ := prefix_of_apply hw.marked hw.first hspan h
          exact ⟨[], es', [], text', hes, htext, rfl, hspan', rfl, h'⟩
        | cons c left =>
          obtain ⟨rfl, hout⟩ : d = c ∧ apply mark es text = left ++ (w ++ right) := by
            simpa [apply] using h
          have hlen : span es = text.length := by simpa [span] using hspan
          obtain ⟨es₁, es₂, a, b, rfl, rfl, h₁, h₂, rfl, hr⟩ := ih hlen hout
          exact ⟨keep :: es₁, es₂, d :: a, b, rfl, rfl, by simp [span, h₁], h₂, rfl, hr⟩
    | cut n =>
      simp only [span] at hspan
      have hrest : span es = (text.drop n).length := by rw [List.length_drop]; omega
      obtain ⟨left', rfl, h'⟩ := left_of_apart hw h
      obtain ⟨es₁, es₂, a, b, rfl, htext, h₁, h₂, rfl, hr⟩ := ih hrest h'
      have hlen : (text.take n).length = n := by rw [List.length_take]; omega
      refine ⟨cut n :: es₁, es₂, text.take n ++ a, b, rfl, ?_, ?_, h₂, ?_, hr⟩
      · rw [List.append_assoc, ← htext, List.take_append_drop]
      · simp only [span, List.length_append, hlen, h₁]
      · simp [apply, hlen]

theorem infix_of_infix_apply {mark w text : List α} {es : List Edit} (hw : Apart mark w)
    (hspan : span es = text.length) (h : w <:+: apply mark es text) : w <:+: text := by
  obtain ⟨left, right, h⟩ := h
  obtain ⟨-, -, a, b, -, rfl, -⟩ := split_of_apply hw hspan (h.symm.trans (List.append_assoc ..))
  exact ⟨a, b, List.append_assoc ..⟩

end Edit

/-! ## A replacement as edits -/

namespace Pattern

open Edit

variable {α γ : Type}

/-- The edits of `sub`, where `each` are the ones within a match. -/
def editsFrom (r : Pattern α γ) (each : Regex.Match α γ → List Edit) :
    List α → List α → Nat → List Edit
  | _, [], _ => []
  | before, c :: rest, skip + 1 => editsFrom r each (c :: before) rest skip
  | before, c :: rest, 0 =>
    match r.regex.matchAt before (c :: rest) with
    | some m => each m ++ editsFrom r each (c :: before) rest (m.text.length - 1)
    | none => keep :: editsFrom r each (c :: before) rest 0

def edits (r : Pattern α γ) (each : Regex.Match α γ → List Edit) (text : List α) : List Edit :=
  r.editsFrom each [] text 0

/-- `each` says what `repl` does to a match. -/
def Spells (r : Pattern α γ) (mark : List α) (repl : Regex.Match α γ → List α)
    (each : Regex.Match α γ → List Edit) : Prop :=
  ∀ before rest m, r.regex.matchAt before rest = some m →
    span (each m) = m.text.length ∧ repl m = apply mark (each m) m.text

/-- The rest of the text behind a match, as `subFrom` reaches it. -/
theorem exists_of_matchAt {r : Pattern α γ} {before : List α} {c : α} {rest : List α}
    {m : Regex.Match α γ} (h : r.regex.matchAt before (c :: rest) = some m) :
    ∃ w rest', m.text = c :: w ∧ rest = w ++ rest' := by
  obtain ⟨rest', hne, hrest⟩ := text_of_matchAt h
  cases htext : m.text with
  | nil => exact absurd htext hne
  | cons d w =>
    rw [htext] at hrest
    obtain ⟨rfl, htail⟩ := List.cons.inj hrest
    exact ⟨w, rest', rfl, htail⟩

theorem span_editsFrom {r : Pattern α γ} {mark : List α} {repl each}
    (h : r.Spells mark repl each) :
    ∀ rest before skip, skip ≤ rest.length →
      span (r.editsFrom each before rest skip) = (rest.drop skip).length := by
  intro rest
  induction rest with
  | nil => intro before skip _; simp [editsFrom, span]
  | cons c rest ih =>
    intro before skip hskip
    cases skip with
    | succ skip => exact ih _ _ (by simpa using hskip)
    | zero =>
      simp only [editsFrom]
      cases hm : r.regex.matchAt before (c :: rest) with
      | none => simp [span, ih _ 0 (Nat.zero_le _)]
      | some m =>
        obtain ⟨w, rest', htext, rfl⟩ := exists_of_matchAt hm
        have hlen : m.text.length - 1 = w.length := by simp [htext]
        simp only [span_append, (h _ _ _ hm).1, hlen, ih (c :: before) w.length (by simp)]
        simp [htext]
        omega

theorem subFrom_eq_apply {r : Pattern α γ} {mark : List α} {repl each}
    (h : r.Spells mark repl each) :
    ∀ rest before skip, skip ≤ rest.length →
      r.subFrom repl before rest skip =
        apply mark (r.editsFrom each before rest skip) (rest.drop skip) := by
  intro rest
  induction rest with
  | nil => intro before skip _; simp [subFrom, editsFrom, apply]
  | cons c rest ih =>
    intro before skip hskip
    cases skip with
    | succ skip => exact ih _ _ (by simpa using hskip)
    | zero =>
      simp only [subFrom, editsFrom]
      cases hm : r.regex.matchAt before (c :: rest) with
      | none => simp [apply, ih _ 0 (Nat.zero_le _)]
      | some m =>
        obtain ⟨w, rest', htext, rfl⟩ := exists_of_matchAt hm
        have hlen : m.text.length - 1 = w.length := by simp [htext]
        have hsplit : (c :: (w ++ rest')).drop 0 = m.text ++ rest' := by simp [htext]
        simp only [hlen, ih (c :: before) w.length (by simp), List.drop_left]
        rw [hsplit, apply_append _ _ _ _ _ (h _ _ _ hm).1, (h _ _ _ hm).2]

theorem sub_eq_apply {r : Pattern α γ} {mark : List α} {repl each}
    (h : r.Spells mark repl each) (text : List α) :
    r.sub repl text = apply mark (r.edits each text) text :=
  subFrom_eq_apply h text [] 0 (Nat.zero_le _)

theorem span_edits {r : Pattern α γ} {mark : List α} {repl each} (h : r.Spells mark repl each)
    (text : List α) : span (r.edits each text) = text.length :=
  span_editsFrom h text [] 0 (Nat.zero_le _)

theorem infix_of_infix_sub {r : Pattern α γ} {mark w text : List α} {repl each}
    (h : r.Spells mark repl each) (hw : Apart mark w) (hin : w <:+: r.sub repl text) :
    w <:+: text :=
  infix_of_infix_apply hw (span_edits h text) (sub_eq_apply h text ▸ hin)

/-- An element of a concatenation is one of the first list or of the second. -/
theorem mem_append_split {β : Type} {xs ys es₁ es₂ : List β} {e : β}
    (h : xs ++ ys = es₁ ++ e :: es₂) :
    (∃ gs, es₁ = xs ++ gs ∧ ys = gs ++ e :: es₂) ∨ ∃ gs, xs = es₁ ++ e :: gs := by
  rcases List.append_eq_append_iff.1 h with ⟨gs, h₁, h₂⟩ | ⟨gs, h₁, h₂⟩
  · exact .inl ⟨gs, h₁, h₂⟩
  · cases gs with
    | nil => exact .inl ⟨[], by simpa using h₁.symm, by simpa using h₂.symm⟩
    | cons g gs =>
      obtain ⟨rfl, -⟩ := List.cons.inj h₂
      exact .inr ⟨gs, h₁⟩

theorem editsFrom_skip (r : Pattern α γ) (each : Regex.Match α γ → List Edit) (w : List α) :
    ∀ before rest, r.editsFrom each before (w ++ rest) w.length =
      r.editsFrom each (w.reverse ++ before) rest 0 := by
  induction w with
  | nil => exact fun _ _ => rfl
  | cons c w ih =>
    intro before rest
    rw [List.cons_append, List.length_cons, editsFrom, ih, List.reverse_cons, List.append_assoc]
    rfl

/-- An edit, behind `es₁`, is one within a match, or it keeps a character at which no match
begins. -/
theorem editsFrom_cases {r : Pattern α γ} {mark : List α} {repl each}
    (h : r.Spells mark repl each) :
    ∀ n rest before es₁ e es₂ a t, rest.length ≤ n →
      r.editsFrom each before rest 0 = es₁ ++ e :: es₂ → span es₁ = a.length → rest = a ++ t →
      (e = keep ∧ r.regex.matchAt (a.reverse ++ before) t = none) ∨
        ∃ x y m fs₁ fs₂, a = x ++ y ∧ r.regex.matchAt (x.reverse ++ before) (y ++ t) = some m ∧
          each m = fs₁ ++ e :: fs₂ ∧ span fs₁ = y.length ∧ fs₂ <+: es₂ := by
  intro n
  induction n with
  | zero =>
    intro rest before es₁ e es₂ a t hn hes
    rw [List.length_eq_zero_iff.1 (Nat.le_zero.1 hn)] at hes
    exact absurd hes (by simp [editsFrom])
  | succ n ih =>
    intro rest before es₁ e es₂ a t hn hes hspan htext
    cases rest with
    | nil => exact absurd hes (by simp [editsFrom])
    | cons c rest =>
      simp only [editsFrom] at hes
      cases hm : r.regex.matchAt before (c :: rest) with
      | none =>
        rw [hm] at hes
        cases es₁ with
        | nil =>
          obtain ⟨rfl, -⟩ := List.cons.inj hes
          obtain rfl : a = [] := List.length_eq_zero_iff.1 hspan.symm
          exact .inl ⟨rfl, by rw [← hm, htext]; rfl⟩
        | cons d es₁ =>
          obtain ⟨rfl, hes'⟩ := List.cons.inj hes
          cases a with
          | nil => exact absurd hspan (by simp [span])
          | cons d a =>
            obtain ⟨rfl, htail⟩ := List.cons.inj htext
            have hspan' : span es₁ = a.length := by simpa [span] using hspan
            rcases ih rest (c :: before) es₁ e es₂ a t (by simpa using hn) hes' hspan' htail with
              ⟨he, hnone⟩ | ⟨x, y, m, fs₁, fs₂, rfl, hx, hfs⟩
            · exact .inl ⟨he, by simpa using hnone⟩
            · exact .inr ⟨c :: x, y, m, fs₁, fs₂, rfl, by simpa using hx, hfs⟩
      | some m =>
        obtain ⟨w, rest', hmtext, rfl⟩ := exists_of_matchAt hm
        obtain ⟨hmspan, -⟩ := h _ _ _ hm
        have hlen : m.text.length - 1 = w.length := by simp [hmtext]
        rw [hm] at hes
        simp only [hlen, editsFrom_skip] at hes
        rcases mem_append_split hes with ⟨gs, rfl, hes'⟩ | ⟨gs, hes'⟩
        · -- behind the match
          have hsplit : m.text ++ rest' = a ++ t := by rw [hmtext, ← htext]; rfl
          rw [span_append, hmspan] at hspan
          obtain ⟨a', rfl⟩ := List.prefix_of_prefix_length_le ⟨rest', rfl⟩ ⟨t, hsplit.symm⟩
            (by omega : m.text.length ≤ a.length)
          rw [List.append_assoc] at hsplit
          have htail : rest' = a' ++ t := List.append_cancel_left hsplit
          have hspan' : span gs = a'.length := by rw [List.length_append] at hspan; omega
          have hshort : rest'.length ≤ n := by simp at hn; omega
          have hbefore : w.reverse ++ c :: before = m.text.reverse ++ before := by simp [hmtext]
          rcases ih rest' _ gs e es₂ a' t hshort hes' hspan' htail with
            ⟨he, hnone⟩ | ⟨x, y, m', fs₁, fs₂, rfl, hx, hfs⟩
          · exact .inl ⟨he, by rw [hbefore] at hnone; simpa using hnone⟩
          · refine .inr ⟨m.text ++ x, y, m', fs₁, fs₂, by rw [List.append_assoc], ?_, hfs⟩
            rw [hbefore] at hx
            simpa using hx
        · refine .inr ⟨[], a, m, es₁, gs, rfl, ?_, hes', hspan, ?_⟩
          · rw [← hm, htext]
            rfl
          · rw [hes', List.append_assoc] at hes
            obtain ⟨-, htail⟩ := List.cons.inj (List.append_cancel_left hes)
            exact ⟨_, htail⟩

theorem edits_cases {r : Pattern α γ} {mark : List α} {repl each} (h : r.Spells mark repl each)
    {text a t : List α} {es₁ es₂ : List Edit} {e : Edit} (hes : r.edits each text = es₁ ++ e :: es₂)
    (hspan : span es₁ = a.length) (htext : text = a ++ t) :
    (e = keep ∧ r.regex.matchAt a.reverse t = none) ∨
      ∃ x y m fs₁ fs₂, a = x ++ y ∧ r.regex.matchAt x.reverse (y ++ t) = some m ∧
        each m = fs₁ ++ e :: fs₂ ∧ span fs₁ = y.length ∧ fs₂ <+: es₂ := by
  simpa using editsFrom_cases h _ text [] es₁ e es₂ a t (Nat.le_refl _) hes hspan htext

/-! ## Replacing whole matches -/

def cutWhole (m : Regex.Match α γ) : List Edit := [cut m.text.length]

theorem spells_cutWhole (r : Pattern α γ) (mark : List α) :
    r.Spells mark (fun _ => mark) cutWhole := by
  intro before rest m _
  simp [cutWhole, span, apply]

/-- Where whole matches are cut, a character is kept only where no match begins. -/
theorem matchAt_of_keep {r : Pattern α γ} {text a t : List α} {es₁ es₂ : List Edit}
    (hes : r.edits cutWhole text = es₁ ++ keep :: es₂) (hspan : span es₁ = a.length)
    (htext : text = a ++ t) : r.regex.matchAt a.reverse t = none := by
  rcases edits_cases (r.spells_cutWhole []) hes hspan htext with
    ⟨-, hnone⟩ | ⟨x, y, m, fs₁, fs₂, -, -, hfs, -⟩
  · exact hnone
  · have hmem : keep ∈ cutWhole m := hfs ▸ List.mem_append_right _ List.mem_cons_self
    exact absurd hmem (by simp [cutWhole])

end Pattern

end Lib
