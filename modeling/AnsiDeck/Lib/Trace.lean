import AnsiDeck.Lib.Edits

/-!
# Which characters edits leave

Edits one after the other, on a text whose characters carry the place they had at first: what the
marker puts in has none. For a word that is still there, what stands beside it in the result is
what stood beside it in the text, or the marker, and then the text's own neighbour is gone
(`Beside`).
-/

namespace Lib.Edit

variable {α : Type}

/-- A character and its place in the text at first. -/
abbrev Cell (α : Type) := α × Option Nat

def cellsFrom : Nat → List α → List (Cell α)
  | _, [] => []
  | n, c :: text => (c, some n) :: cellsFrom (n + 1) text

def cells (text : List α) : List (Cell α) := cellsFrom 0 text

def inserted (mark : List α) : List (Cell α) := mark.map (·, none)

def chars (cs : List (Cell α)) : List α := cs.map Prod.fst

def places (cs : List (Cell α)) : List Nat := cs.filterMap Prod.snd

@[simp] theorem chars_append (a b : List (Cell α)) : chars (a ++ b) = chars a ++ chars b :=
  List.map_append

@[simp] theorem places_append (a b : List (Cell α)) : places (a ++ b) = places a ++ places b :=
  List.filterMap_append

@[simp] theorem length_chars (cs : List (Cell α)) : (chars cs).length = cs.length :=
  List.length_map _

theorem chars_reverse (cs : List (Cell α)) : chars cs.reverse = (chars cs).reverse :=
  List.map_reverse

theorem places_reverse (cs : List (Cell α)) : places cs.reverse = (places cs).reverse :=
  List.filterMap_reverse

@[simp] theorem chars_inserted (mark : List α) : chars (inserted mark) = mark := by
  simp [chars, inserted, Function.comp_def]

@[simp] theorem places_inserted (mark : List α) : places (inserted mark) = [] := by
  simp [places, inserted, List.filterMap_map]

theorem cellsFrom_append (a b : List α) : ∀ n,
    cellsFrom n (a ++ b) = cellsFrom n a ++ cellsFrom (n + a.length) b := by
  induction a with
  | nil => exact fun n => rfl
  | cons c a ih =>
    intro n
    simp only [List.cons_append, cellsFrom, ih, List.length_cons]
    rw [Nat.add_assoc, Nat.add_comm 1]

@[simp] theorem chars_cellsFrom (text : List α) : ∀ n, chars (cellsFrom n text) = text := by
  induction text with
  | nil => exact fun n => rfl
  | cons c text ih => exact fun n => congrArg (c :: ·) (ih (n + 1))

theorem snd_cellsFrom (text : List α) : ∀ n,
    (cellsFrom n text).map Prod.snd = (List.range' n text.length).map some := by
  induction text with
  | nil => exact fun n => rfl
  | cons c text ih => exact fun n => congrArg (some n :: ·) (ih (n + 1))

theorem places_cellsFrom (text : List α) : ∀ n,
    places (cellsFrom n text) = List.range' n text.length := by
  induction text with
  | nil => exact fun n => rfl
  | cons c text ih => exact fun n => congrArg (n :: ·) (ih (n + 1))

/-- Cells split where the text does. -/
theorem cellsFrom_eq_append : ∀ {a b : List (Cell α)} {text : List α} {n : Nat},
    cellsFrom n text = a ++ b →
      text = chars a ++ chars b ∧ a = cellsFrom n (chars a) ∧
        b = cellsFrom (n + (chars a).length) (chars b) := by
  intro a b text n h
  have htext : text = chars a ++ chars b := by
    rw [← chars_append, ← h, chars_cellsFrom]
  have hcells := h
  rw [htext, cellsFrom_append] at hcells
  have hlen : (cellsFrom n (chars a)).length = a.length := by
    rw [← length_chars, chars_cellsFrom, length_chars]
  obtain ⟨ha, hb⟩ := List.append_inj hcells hlen
  exact ⟨htext, ha.symm, hb.symm⟩

theorem cellsFrom_start {m n : Nat} {w w' : List α} (h : cellsFrom m w = cellsFrom n w')
    (hw : w ≠ []) : m = n := by
  cases w with
  | nil => exact absurd rfl hw
  | cons c w =>
    cases w' with
    | nil => exact absurd h (by simp [cellsFrom])
    | cons c' w' =>
      have := congrArg Prod.snd (List.cons.inj h).1
      simpa using this

theorem cellsFrom_ne_nil {n : Nat} {w : List α} (hw : w ≠ []) : cellsFrom n w ≠ [] := by
  cases w with
  | nil => exact absurd rfl hw
  | cons c w => simp [cellsFrom]

theorem snd_ne_none {n : Nat} {w : List α} : ∀ c ∈ cellsFrom n w, c.2 ≠ none := by
  intro c hc hnone
  have hmem : c.2 ∈ (cellsFrom n w).map Prod.snd := List.mem_map_of_mem hc
  rw [snd_cellsFrom, hnone] at hmem
  simp at hmem

theorem place_of_head {n : Nat} {w : List α} : ∀ c ∈ (cellsFrom n w).head?, c.2 = some n := by
  intro c hc
  cases w with
  | nil => exact absurd hc (by simp [cellsFrom])
  | cons d w =>
    obtain rfl : (d, some n) = c := by simpa [cellsFrom] using hc
    rfl

theorem place_of_last {w : List α} :
    ∀ c ∈ (cellsFrom 0 w).reverse.head?, c.2 = some (w.length - 1) := by
  intro c hc
  rcases List.eq_nil_or_concat w with rfl | ⟨v, d, rfl⟩
  · exact absurd hc (by simp [cellsFrom])
  · rw [List.concat_eq_append, cellsFrom_append] at hc
    obtain rfl : (d, some (0 + v.length)) = c := by simpa [cellsFrom] using hc
    simp

theorem chars_apply (mark : List α) (es : List Edit) (cs : List (Cell α)) :
    chars (apply (inserted mark) es cs) = apply mark es (chars cs) := by
  rw [chars, apply_map]
  congr 1
  exact chars_inserted mark

/-- Edits bring no place back and keep their order. -/
theorem places_apply (mark : List α) (es : List Edit) :
    ∀ cs, (places (apply (inserted mark) es cs)).Sublist (places cs) := by
  induction es with
  | nil => exact fun cs => List.nil_sublist _
  | cons e es ih =>
    intro cs
    cases e with
    | keep =>
      cases cs with
      | nil => exact ih []
      | cons c cs =>
        have hsplit : ∀ ds : List (Cell α), places (c :: ds) = places [c] ++ places ds :=
          fun ds => places_append [c] ds
        rw [apply, hsplit, hsplit cs]
        exact (List.Sublist.refl _).append (ih cs)
    | cut n =>
      simp only [apply, places_append, places_inserted, List.nil_append]
      exact (ih _).trans ((List.drop_sublist n cs).filterMap _)

theorem span_reverse (es : List Edit) : span es.reverse = span es := by
  induction es with
  | nil => rfl
  | cons e es ih =>
    simp only [List.reverse_cons, span_append, ih]
    cases e with
    | keep => rfl
    | cut n => simp [span, Nat.add_comm]

theorem apply_reverse (mark : List α) (es : List Edit) :
    ∀ text, span es = text.length →
      (apply mark es text).reverse = apply mark.reverse es.reverse text.reverse := by
  induction es with
  | nil => intro text _; rfl
  | cons e es ih =>
    intro text h
    cases e with
    | keep =>
      cases text with
      | nil => exact absurd h (by simp [span])
      | cons c text =>
        have hlen : span es = text.length := by simpa [span] using h
        simp only [apply, List.reverse_cons]
        rw [ih text hlen, apply_append _ _ _ _ _ (by simp [span_reverse, hlen])]
        rfl
    | cut n =>
      simp only [span] at h
      have hlen : span es = (text.drop n).length := by rw [List.length_drop]; omega
      have htext : text.reverse = (text.drop n).reverse ++ (text.take n).reverse := by
        rw [← List.reverse_append, List.take_append_drop]
      simp only [apply, List.reverse_append, List.reverse_cons]
      rw [ih _ hlen, htext, apply_append _ _ _ _ _ (by simp [span_reverse, hlen])]
      simp [apply]

/-! ## Beside a word -/

/-- What can become of the cells beside a word. The first of them is the same, or it is not a word
character and the place of a word character that was there is gone. -/
structure Beside (word : α → Bool) (b b' : List (Cell α)) : Prop where
  old : ∀ i ∈ places b', i ∈ places b
  head : b'.head? = b.head? ∨ (chars b').head?.any word = false ∧
    ∀ c i, b.head? = some (c, some i) → word c = true → i ∉ places b'

theorem Beside.refl (word : α → Bool) (b : List (Cell α)) : Beside word b b :=
  ⟨fun _ h => h, .inl rfl⟩

theorem head?_chars {b b' : List (Cell α)} (h : b'.head? = b.head?) :
    (chars b').head? = (chars b).head? := by
  simp [chars, List.head?_map, h]

theorem Beside.trans {word : α → Bool} {b b' b'' : List (Cell α)} (h : Beside word b b')
    (h' : Beside word b' b'') : Beside word b b'' := by
  refine ⟨fun i hi => h.old i (h'.old i hi), ?_⟩
  rcases h'.head with hsame | ⟨hedge, hgone⟩
  · rcases h.head with hsame' | ⟨hedge, hgone⟩
    · exact .inl (hsame.trans hsame')
    · exact .inr ⟨head?_chars hsame ▸ hedge, fun c i hc hw hi => hgone c i hc hw (h'.old i hi)⟩
  · refine .inr ⟨hedge, fun c i hc hw hi => ?_⟩
    rcases h.head with hsame | ⟨-, hgone'⟩
    · exact hgone c i (hsame.trans hc) hw hi
    · exact hgone' c i hc hw (h'.old i hi)

/-- A marker may be put between two characters only where neither is a word character. -/
def Fair (word : α → Bool) (es : List Edit) (text : List α) : Prop :=
  ∀ es₁ es₂ a b, es = es₁ ++ cut 0 :: es₂ → text = a ++ b → span es₁ = a.length →
    a.reverse.head?.any word = false ∧ b.head?.any word = false

theorem beside_apply {mark : List α} {word : α → Bool} {es : List Edit} {cs : List (Cell α)}
    (hne : mark ≠ []) (hmark : mark.head?.any word = false) (hspan : span es = cs.length)
    (hnodup : (places cs).Nodup)
    (hfair : ∀ es', es = cut 0 :: es' → (chars cs).head?.any word = false) :
    Beside word cs (apply (inserted mark) es cs) := by
  refine ⟨fun i hi => (places_apply mark es cs).subset hi, ?_⟩
  cases es with
  | nil =>
    rw [List.length_eq_zero_iff.1 hspan.symm]
    exact .inl rfl
  | cons e es =>
    cases e with
    | keep =>
      cases cs with
      | nil => exact absurd hspan (by simp [span])
      | cons c cs => exact .inl rfl
    | cut n =>
      refine .inr ⟨?_, fun c i hc hw hi => ?_⟩
      · rw [chars_apply, apply, List.head?_append_of_ne_nil _ hne]
        exact hmark
      · cases cs with
        | nil => exact absurd hc (by simp)
        | cons d cs =>
          obtain rfl : d = (c, some i) := by simpa using hc
          cases n with
          | zero => exact absurd (hfair es rfl) (by simp [chars, hw])
          | succ n =>
            have hplaces : places ((c, some i) :: cs) = i :: places cs := rfl
            rw [hplaces] at hnodup
            refine (List.nodup_cons.1 hnodup).1 ?_
            simp only [apply, List.drop_succ_cons, places_append, places_inserted,
              List.nil_append] at hi
            exact (List.drop_sublist n cs).filterMap _ |>.subset
              ((places_apply mark es _).subset hi)

/-- A word that is left was there; what stands beside it now stood there, or the marker does. -/
theorem split_of_apply_cells {mark : List α} {word : α → Bool} {es : List Edit}
    {cs w left right : List (Cell α)} (hne : mark ≠ []) (hfirst : mark.head?.any word = false)
    (hlast : mark.reverse.head?.any word = false) (hspan : span es = cs.length)
    (hfair : Fair word es (chars cs)) (hnodup : (places cs).Nodup)
    (hw : Apart (inserted mark) w) (h : apply (inserted mark) es cs = left ++ (w ++ right)) :
    ∃ es₁ es₂ a b, es = es₁ ++ (List.replicate w.length keep ++ es₂) ∧ cs = a ++ (w ++ b) ∧
      span es₁ = a.length ∧ Beside word a.reverse left.reverse ∧ Beside word b right := by
  obtain ⟨es₁, es₂, a, b, rfl, rfl, h₁, h₂, rfl, rfl⟩ := split_of_apply hw hspan h
  simp only [places_append] at hnodup
  obtain ⟨ha, hwb, -⟩ := List.nodup_append.1 hnodup
  obtain ⟨-, hb, -⟩ := List.nodup_append.1 hwb
  refine ⟨es₁, es₂, a, b, rfl, rfl, h₁, ?_, ?_⟩
  · have hreverse : (inserted mark).reverse = inserted mark.reverse := by simp [inserted]
    rw [apply_reverse _ _ _ h₁, hreverse]
    refine beside_apply (by simpa using hne) hlast (by rw [span_reverse, h₁, List.length_reverse])
      (by rw [places_reverse]; exact (List.reverse_perm _).nodup_iff.2 ha) fun es' hes' => ?_
    have hes : es₁ = es'.reverse ++ [cut 0] := by
      rw [← List.reverse_reverse es₁, hes', List.reverse_cons]
    have hlen : span es'.reverse = (chars a).length := by
      have : span es₁ = span es'.reverse + 0 := by rw [hes, span_append]; rfl
      rw [length_chars, ← h₁, this, Nat.add_zero]
    have := hfair es'.reverse (List.replicate w.length keep ++ es₂) (chars a) (chars (w ++ b))
      (by rw [hes]; simp) (by simp) hlen
    rw [chars_reverse]
    exact this.1
  · refine beside_apply hne hfirst h₂ hb fun es' hes' => ?_
    have hlen : span (es₁ ++ List.replicate w.length keep) = (chars (a ++ w)).length := by
      rw [span_append, span_keeps, length_chars, List.length_append, h₁]
    have := hfair (es₁ ++ List.replicate w.length keep) es' (chars (a ++ w)) (chars b)
      (by rw [hes']; simp) (by simp) hlen
    exact this.2

/-! ## Edits one after the other -/

/-- A way to edit texts that goes over all of a text and is fair. -/
structure Editor (word : α → Bool) (edits : List α → List Edit) : Prop where
  span_eq : ∀ text, span (edits text) = text.length
  fair : ∀ text, Fair word (edits text) text

def trace (mark : List α) (es : List (List α → List Edit)) (cs : List (Cell α)) : List (Cell α) :=
  es.foldl (fun cs edits => apply (inserted mark) (edits (chars cs)) cs) cs

theorem trace_cons (mark : List α) (e : List α → List Edit) (es : List (List α → List Edit))
    (cs : List (Cell α)) :
    trace mark (e :: es) cs = trace mark es (apply (inserted mark) (e (chars cs)) cs) := rfl

theorem trace_append (mark : List α) (es fs : List (List α → List Edit)) (cs : List (Cell α)) :
    trace mark (es ++ fs) cs = trace mark fs (trace mark es cs) :=
  List.foldl_append

theorem places_trace (mark : List α) (es : List (List α → List Edit)) :
    ∀ cs, (places (trace mark es cs)).Sublist (places cs) := by
  induction es with
  | nil => exact fun cs => List.Sublist.refl _
  | cons e es ih => exact fun cs => (ih _).trans (places_apply mark _ cs)

theorem chars_trace (mark : List α) (es : List (List α → List Edit)) :
    ∀ cs, chars (trace mark es cs) =
      es.foldl (fun text edits => apply mark (edits text) text) (chars cs) := by
  induction es with
  | nil => exact fun cs => rfl
  | cons e es ih =>
    intro cs
    rw [List.foldl_cons, ← chars_apply]
    exact ih _

theorem split_trace {mark : List α} {word : α → Bool} (hne : mark ≠ [])
    (hfirst : mark.head?.any word = false) (hlast : mark.reverse.head?.any word = false)
    {w left right : List (Cell α)} (hw : Apart (inserted mark) w)
    (es : List (List α → List Edit)) (hes : ∀ e ∈ es, Editor word e) :
    ∀ cs, (places cs).Nodup → trace mark es cs = left ++ (w ++ right) →
      ∃ a b, cs = a ++ (w ++ b) ∧ Beside word a.reverse left.reverse ∧ Beside word b right := by
  induction es with
  | nil => exact fun cs _ h => ⟨left, right, h, .refl word _, .refl word _⟩
  | cons e es ih =>
    intro cs hnodup h
    have he := hes e List.mem_cons_self
    have hnodup' := hnodup.sublist (places_apply mark (e (chars cs)) cs)
    obtain ⟨a', b', hcs', hleft', hright'⟩ :=
      ih (fun e' he' => hes e' (List.mem_cons_of_mem _ he')) _ hnodup' h
    have hspan : span (e (chars cs)) = cs.length := by rw [he.span_eq, length_chars]
    obtain ⟨-, -, a, b, -, hcs, -, hleft, hright⟩ :=
      split_of_apply_cells hne hfirst hlast hspan (he.fair _) hnodup hw hcs'
    exact ⟨a, b, hcs, hleft.trans hleft', hright.trans hright'⟩

/-- A word character that stood beside a word does not any more where its place is gone. -/
theorem Beside.edge_iff {word : α → Bool} {b b' : List (Cell α)} {q : Nat}
    (h : Beside word b b') (hq : ∀ c ∈ b.head?, c.2 = some q) :
    (chars b').head?.any word = false ↔ ((chars b).head?.any word = true → q ∉ places b') := by
  rcases h.head with hsame | ⟨hedge, hgone⟩
  · rw [head?_chars hsame]
    cases b with
    | nil => simp [chars]
    | cons c b =>
      have hc : c.2 = some q := hq c rfl
      cases b' with
      | nil => exact absurd hsame (by simp)
      | cons c' b' =>
        obtain rfl : c' = c := by simpa using hsame
        simp [chars, places, hc]
  · refine iff_of_true hedge fun hword => ?_
    cases b with
    | nil => exact absurd hword (by simp [chars])
    | cons c b =>
      obtain ⟨c, i⟩ := c
      obtain rfl : i = some q := hq (c, i) rfl
      exact hgone c q rfl (by simpa [chars] using hword)

/-- A word apart from the marker is apart from it as cells too. -/
theorem apart_inserted {mark : List α} {w : List (Cell α)} (h : Apart mark (chars w)) :
    Apart (inserted mark) w where
  marked := by simpa [inserted] using h.marked
  first := by
    intro c hc hmem
    have hmap : mark.head?.map (fun d => (d, (none : Option Nat))) = some c := by
      rw [← List.head?_map]
      exact hc
    obtain ⟨d, hd, rfl⟩ := Option.map_eq_some_iff.1 hmap
    exact h.first d hd (List.mem_map_of_mem hmem)
  last := by
    intro c hc hmem
    have hmap : mark.getLast?.map (fun d => (d, (none : Option Nat))) = some c := by
      rw [← List.getLast?_map]
      exact hc
    obtain ⟨d, hd, rfl⟩ := Option.map_eq_some_iff.1 hmap
    exact h.last d hd (List.mem_map_of_mem hmem)
  part := by
    rintro ⟨x, y, hxy⟩
    refine h.part ⟨chars x, chars y, ?_⟩
    rw [← chars_append, ← chars_append, hxy, chars_inserted]

/-- Cells with places are none of the marker's. -/
theorem apart_of_places {mark : List α} {w : List (Cell α)} (hmark : mark ≠ []) (hw : w ≠ [])
    (h : ∀ c ∈ w, c.2 ≠ none) : Apart (inserted mark) w := by
  have hnone : ∀ c ∈ inserted mark, c ∉ w := by
    intro c hc hmem
    obtain ⟨d, -, rfl⟩ := List.mem_map.1 hc
    exact h _ hmem rfl
  refine ⟨by simpa [inserted] using hmark, ?_, ?_, ?_⟩
  · exact fun c hc => hnone c (List.mem_of_mem_head? hc)
  · exact fun c hc => hnone c (List.mem_of_mem_getLast? hc)
  · intro hpart
    cases w with
    | nil => exact absurd rfl hw
    | cons c w => exact hnone c (hpart.subset List.mem_cons_self) List.mem_cons_self

end Lib.Edit
