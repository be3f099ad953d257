import AnsiDeck.Lib.Trace
import AnsiDeck.Scrub.Patterns

/-!
# Short forms as whole words

A form of four to seven characters is only searched for as a whole word, but what stands beside it
may be replaced later in the same run, and then it is one. `FreedIn` says when that has happened to
an occurrence of a form; a short form is a whole word of a scrubbed text exactly when it is freed
somewhere.
-/

namespace AnsiDeck.Scrub

open Lib
open Lib.Edit
  (Apart Beside Cell Editor Fair apply cells cellsFrom chars cut inserted keep places span trace)

/-- The characters of a scrubbed text with the places they had in the text. -/
def left (u : Unicode) (secrets : List Text) (text : Text) : List (Cell Nat) :=
  trace redacted ((passes u secrets).map Pass.edits) (cells text)

/-- The character at a place of the text is not among those that are left. -/
def Gone (cs : List (Cell Nat)) (i : Nat) : Prop := i ∉ places cs

/-- `w` is in the text, not as a whole word; among the characters that are left it is in one piece,
and the word characters directly beside it are gone. -/
def FreedIn (u : Unicode) (cs : List (Cell Nat)) (w text : Text) : Prop :=
  ∃ a b, text = a ++ (w ++ b) ∧ ¬ Clear u a.reverse b ∧
    (List.range' a.length w.length).map some <:+: cs.map Prod.snd ∧
    (a.reverse.head?.any u.isWord = true → Gone cs (a.length - 1)) ∧
    (b.head?.any u.isWord = true → Gone cs (a.length + w.length))

/-- `w` is a whole word of the text. -/
def Stands (u : Unicode) (w text : Text) : Prop :=
  ∃ a b, text = a ++ (w ++ b) ∧ Clear u a.reverse b

/-! ## Every pass is fair -/

theorem isWord_punctuation (u : Unicode) {c : Nat} (hc : c ∈ txt "[]\"'") : u.isWord c = false := by
  have hund : ¬ c = 95 := by
    rintro rfl
    exact absurd hc (by decide)
  simp [Unicode.isWord, u.alnum_punctuation c hc, hund]

/-- Within a match a marker is only put between two characters that are no word characters. -/
def FairMatch (u : Unicode) (p : Pass) : Prop :=
  ∀ before rest m fs₁ fs₂ a b, p.pattern.regex.matchAt before rest = some m →
    p.each m = fs₁ ++ cut 0 :: fs₂ → m.text = a ++ b → span fs₁ = a.length →
    ∃ a' x y b', a = a' ++ [x] ∧ b = y :: b' ∧ u.isWord x = false ∧ u.isWord y = false

theorem editor_of_fairMatch {u : Unicode} {p : Pass} (h : FairMatch u p) :
    Editor u.isWord p.edits where
  span_eq := p.span_edits
  fair := by
    rintro text es₁ es₂ a b hes rfl hspan
    rcases Pattern.edits_cases p.spells hes hspan rfl with
      ⟨h, -⟩ | ⟨x, y, m, fs₁, fs₂, rfl, hm, hfs, hfspan, -⟩
    · exact absurd h (by simp)
    · have hlen : y.length ≤ m.text.length := by
        rw [← hfspan, ← (p.spells _ _ _ hm).1, hfs, Edit.span_append]
        exact Nat.le_add_right _ _
      obtain ⟨rest', -, htext⟩ := Pattern.text_of_matchAt hm
      obtain ⟨b', hb'⟩ := List.prefix_of_prefix_length_le ⟨b, rfl⟩ ⟨rest', htext.symm⟩ hlen
      rw [← hb', List.append_assoc] at htext
      obtain rfl : b = b' ++ rest' := List.append_cancel_left htext
      obtain ⟨a', c, d, b'', rfl, rfl, hc, hd⟩ := h _ _ m fs₁ fs₂ y b' hm hfs hb'.symm hfspan
      constructor
      · simp [hc]
      · simp [hd]

theorem mem_of_split {β : Type} {l xs ys : List β} {e : β} (h : l = xs ++ e :: ys) : e ∈ l :=
  h ▸ List.mem_append_right _ List.mem_cons_self

theorem fairMatch_whole (u : Unicode) (r : Lib.Pattern Nat Group) : FairMatch u (.whole r) := by
  intro before rest m fs₁ fs₂ a b hm hfs
  have hmem : cut 0 ∈ Pattern.cutWhole m := mem_of_split hfs
  have hnil : m.text = [] := by simpa [Pattern.cutWhole, eq_comm] using hmem
  exact absurd hnil (Pattern.text_of_matchAt hm).choose_spec.1

theorem fairMatch_keepPrefix (u : Unicode) {r t : Expr} (ht : t.plain = true)
    (hpos : 0 < t.minLen) :
    FairMatch u ⟨⟨.seq (.group .pre r) t, Regex.minLen_seq_pos hpos⟩, keepPrefix, editsKeepPrefix,
      spells_keepPrefix ht _⟩ := by
  intro before rest m fs₁ fs₂ a b hm hfs
  obtain ⟨s, s', w, w', gs, htext, hs, hs', hmoves, hgroups⟩ := Regex.matchAt_group_seq hm
  have hpre : m.group .pre = w := by
    simp [Regex.Match.group, hgroups, Regex.groups_run t ht _ _ hs', hs]
  have hlen : 0 < w'.length := by
    have := Regex.minLen_le t _ _ hs'
    rw [hmoves.1, List.length_append] at this
    omega
  have hmem : cut 0 ∈ editsKeepPrefix m := mem_of_split hfs
  have : m.text.length - w.length = 0 := by
    simpa [editsKeepPrefix, hpre, List.mem_replicate, eq_comm] using hmem
  rw [htext, List.length_append] at this
  omega

theorem fairMatch_assignment (u : Unicode) (hsolid : 0 < (assignment u).minLen) :
    FairMatch u ⟨⟨assignment u, hsolid⟩, redactAssignment, editsRedactAssignment,
      spells_redactAssignment u hsolid⟩ := by
  intro before rest m fs₁ fs₂ a b hm hfs hab hspan
  obtain ⟨htext, hvalue⟩ := assignment_groups hm
  have hmem : cut 0 ∈ editsRedactAssignment m := mem_of_split hfs
  have hfs : editsRedactAssignment m = fs₁ ++ cut 0 :: fs₂ := hfs
  by_cases hmarked : redacted <:+: m.group .val
  · simp [editsRedactAssignment, hmarked, List.mem_replicate] at hmem
  · simp only [editsRedactAssignment, hmarked, if_false] at hmem hfs
    rw [hab] at htext
    generalize m.group .pre = pre at *
    generalize m.group .val = value at *
    cases hvalue with
    | bare c rest hc =>
      -- a bare value is never empty
      simp [openingQuote, hc, List.mem_replicate, eq_comm] at hmem
    | quoted q body hq =>
      have hopen : openingQuote (q :: (body ++ [q])) = [q] := by simp [openingQuote, hq]
      simp only [hopen, List.mem_append, List.mem_replicate, List.mem_cons] at hmem
      have hbody : body = [] := by
        rcases hmem with ⟨-, h⟩ | h | ⟨-, h⟩
        · cases h
        · exact List.length_eq_zero_iff.1 (by simpa [eq_comm] using h)
        · cases h
      subst hbody
      have hedits : List.replicate (pre ++ [q]).length keep ++ [cut 0, keep] =
          fs₁ ++ cut 0 :: fs₂ := by
        have hopen' : openingQuote [q, q] = [q] := hopen
        simpa [hopen'] using hfs
      have hlen : span fs₁ = (pre ++ [q]).length := by
        rcases Pattern.mem_append_split hedits with ⟨gs, rfl, hgs⟩ | ⟨gs, hgs⟩
        · cases gs with
          | nil => simp
          | cons g gs =>
            have hgs' : [keep] = gs ++ cut 0 :: fs₂ := (List.cons.inj hgs).2
            exact absurd (mem_of_split hgs') (by simp)
        · exact absurd (mem_of_split hgs) (by simp [List.mem_replicate])
      have hsplit : a ++ b = (pre ++ [q]) ++ [q] := by simpa using htext
      obtain ⟨rfl, rfl⟩ := List.append_inj hsplit (by rw [← hspan, hlen])
      have hword : u.isWord q = false :=
        isWord_punctuation u (by revert hq; simp [txt]; omega)
      exact ⟨pre, q, q, [], rfl, rfl, hword, hword⟩

theorem editor_patterns (u : Unicode) : ∀ p ∈ patterns u, Editor u.isWord p.edits := by
  intro p hp
  refine editor_of_fairMatch ?_
  simp only [patterns, List.mem_cons, List.not_mem_nil, or_false] at hp
  rcases hp with rfl | rfl | rfl | rfl | rfl | rfl
  · exact fairMatch_whole u _
  · exact fairMatch_keepPrefix u rfl (by decide)
  · exact fairMatch_keepPrefix u rfl (by simp [Regex.minLen, Regex.plus])
  · exact fairMatch_whole u _
  · exact fairMatch_whole u _
  · exact fairMatch_assignment u _

theorem editor_passes (u : Unicode) (secrets : List Text) :
    ∀ e ∈ (passes u secrets).map Pass.edits, Editor u.isWord e := by
  intro e he
  obtain ⟨p, hp, rfl⟩ := List.mem_map.1 he
  rcases List.mem_append.1 hp with hp | hp
  · obtain ⟨r, -, rfl⟩ := Option.map_eq_some_iff.1 (Option.mem_toList.1 hp)
    exact editor_of_fairMatch (fairMatch_whole u r)
  · exact editor_patterns u p hp

/-! ## What stands beside a form that is left -/

theorem chars_trace_passes (ps : List Pass) (cs : List (Cell Nat)) :
    chars (trace redacted (ps.map Pass.edits) cs) = ps.foldl (fun t p => p.run t) (chars cs) := by
  have hrun : (fun t (p : Pass) => p.run t) = fun t p => apply redacted (p.edits t) t := by
    funext t p
    exact p.run_eq_apply t
  rw [Edit.chars_trace, hrun, List.foldl_map]

theorem chars_left (u : Unicode) (secrets : List Text) (text : Text) :
    chars (left u secrets text) = scrubText u secrets text := by
  rw [left, chars_trace_passes, cells, Edit.chars_cellsFrom, scrubText]

theorem edge_redacted (u : Unicode) : redacted.head?.any u.isWord = false ∧
    redacted.reverse.head?.any u.isWord = false := by
  have hopen : u.isWord 91 = false := isWord_punctuation u (by decide)
  have hclose : u.isWord 93 = false := isWord_punctuation u (by decide)
  exact ⟨hopen, hclose⟩

theorem nodup_places_cells (text : Text) : (places (cells text)).Nodup := by
  rw [cells, Edit.places_cellsFrom]
  exact List.nodup_range'

theorem places_left_sorted (u : Unicode) (secrets : List Text) (text : Text) :
    (places (left u secrets text)).Pairwise (· < ·) := by
  refine List.Pairwise.sublist (Edit.places_trace _ _ _) ?_
  rw [cells, Edit.places_cellsFrom]
  exact List.pairwise_lt_range'

/-- A word that is left, as the cells of the text it was in. -/
theorem split_left {u : Unicode} {secrets : List Text} {text : Text}
    {before w after : List (Cell Nat)} (hw : Apart (inserted redacted) w)
    (h : left u secrets text = before ++ (w ++ after)) :
    ∃ a b, text = a ++ (chars w ++ b) ∧ w = cellsFrom a.length (chars w) ∧
      Beside u.isWord (cellsFrom 0 a).reverse before.reverse ∧
      Beside u.isWord (cellsFrom (a.length + (chars w).length) b) after := by
  obtain ⟨hfirst, hlast⟩ := edge_redacted u
  obtain ⟨a, b, hcells, hbefore, hafter⟩ := Edit.split_trace (by decide) hfirst hlast hw _
    (editor_passes u secrets) _ (nodup_places_cells text) h
  obtain ⟨htext, ha, hwb⟩ := Edit.cellsFrom_eq_append hcells
  obtain ⟨-, hw', hb⟩ := Edit.cellsFrom_eq_append hwb.symm
  simp only [Nat.zero_add] at hw' hb
  refine ⟨chars a, chars b, by rw [htext, Edit.chars_append], hw', ha ▸ hbefore, ?_⟩
  rw [← hb]
  exact hafter

/-- The places say which word of the text is left. -/
theorem split_left_of_places {u : Unicode} {secrets : List Text} {a w b : Text}
    {before ws after : List (Cell Nat)} (hne : w ≠ [])
    (hplaces : ws.map Prod.snd = (List.range' a.length w.length).map some)
    (h : left u secrets (a ++ (w ++ b)) = before ++ (ws ++ after)) :
    ws = cellsFrom a.length w ∧ Beside u.isWord (cellsFrom 0 a).reverse before.reverse ∧
      Beside u.isWord (cellsFrom (a.length + w.length) b) after := by
  have hsome : ∀ c ∈ ws, c.2 ≠ none := by
    intro c hc hnone
    have hmem : c.2 ∈ ws.map Prod.snd := List.mem_map_of_mem hc
    rw [hplaces, hnone] at hmem
    simp at hmem
  have hlen : (chars ws).length = w.length := by
    have := congrArg List.length hplaces
    simpa using this
  have hwsne : ws ≠ [] := by
    rintro rfl
    exact hne (List.length_eq_zero_iff.1 hlen.symm)
  obtain ⟨a', b', htext, hws, hbefore, hafter⟩ :=
    split_left (Edit.apart_of_places (by decide) hwsne hsome) h
  have hstart : a.length = a'.length := by
    obtain ⟨n, hn⟩ : ∃ n, w.length = n + 1 :=
      Nat.exists_eq_succ_of_ne_zero (Nat.ne_of_gt (List.length_pos_iff.2 hne))
    rw [hws, Edit.snd_cellsFrom, hlen, hn, List.range'_succ, List.range'_succ] at hplaces
    have := (List.cons.inj hplaces).1
    simpa using this.symm
  obtain ⟨rfl, htail⟩ := List.append_inj htext hstart
  obtain ⟨hchars, rfl⟩ := List.append_inj htail hlen.symm
  rw [← hchars] at hws hafter
  exact ⟨hws, hbefore, hafter⟩

/-- A form that is left was no whole word: the exact pass would have replaced it. -/
theorem not_clear_of_left {u : Unicode} {secrets : List Text} {a b w : Text}
    {before after : List (Cell Nat)} (hw : w ∈ forms u secrets)
    (h : left u secrets (a ++ (w ++ b)) = before ++ (cellsFrom a.length w ++ after)) :
    ¬ Clear u a.reverse b := by
  obtain ⟨p, hp, hkept⟩ := not_kept_of_mem_forms hw
  obtain ⟨hfirst, hlast⟩ := edge_redacted u
  have hne : w ≠ [] := by
    rintro rfl
    exact absurd (length_of_mem_forms hw) (by decide)
  have hapart : Apart (inserted redacted) (cellsFrom a.length w) :=
    Edit.apart_of_places (by decide) (Edit.cellsFrom_ne_nil hne) Edit.snd_ne_none
  -- the patterns first, then the exact pass before them
  let text := a ++ (w ++ b)
  have hleft : trace redacted ((patterns u).map Pass.edits)
      (apply (inserted redacted) (p.edits text) (cells text)) =
        before ++ (cellsFrom a.length w ++ after) := by
    rw [← h, left, passes, hp]
    simp [trace, cells, text]
  have hspan : span (p.edits text) = (cells text).length := by
    rw [p.span_edits, ← Edit.length_chars, cells, Edit.chars_cellsFrom]
  have hnodup := (nodup_places_cells text).sublist (Edit.places_apply redacted (p.edits text) _)
  obtain ⟨x, y, hxy, -, -⟩ := Edit.split_trace (by decide) hfirst hlast hapart _
    (fun e he => by
      obtain ⟨q, hq, rfl⟩ := List.mem_map.1 he
      exact editor_patterns u q hq) _ hnodup hleft
  obtain ⟨es₁, es₂, a', b', hes, hsplit, hspan₁, -⟩ := Edit.split_of_apply hapart hspan hxy
  obtain ⟨-, ha', hrest⟩ := Edit.cellsFrom_eq_append hsplit
  obtain ⟨-, hw', -⟩ := Edit.cellsFrom_eq_append hrest.symm
  have hlen : a.length = a'.length := by
    have := Edit.cellsFrom_start hw' hne
    simpa using this
  have hwlen : (cellsFrom a.length w).length = w.length := by
    rw [← Edit.length_chars, Edit.chars_cellsFrom]
  rw [hwlen] at hes
  exact fun hclear => hkept es₁ es₂ a b hes (hspan₁.trans hlen.symm) (.inr hclear)

/-! ## The exact condition -/

/-- Where a word was and is left, its right neighbour's place is gone when it is not beside it. -/
theorem gone_right_iff {u : Unicode} {secrets : List Text} {text a w : Text}
    {before after : List (Cell Nat)} (hw : w ≠ [])
    (h : left u secrets text = before ++ (cellsFrom a.length w ++ after)) :
    Gone (left u secrets text) (a.length + w.length) ↔ a.length + w.length ∉ places after := by
  have hsorted := places_left_sorted u secrets text
  rw [h, Edit.places_append, Edit.places_append, Edit.places_cellsFrom] at hsorted
  obtain ⟨-, -, hbefore⟩ := List.pairwise_append.1 hsorted
  have hpos := List.length_pos_iff.2 hw
  have hb : a.length + w.length ∉ places before := by
    intro hmem
    have := hbefore _ hmem a.length
      (List.mem_append_left _ (List.mem_range'_1.2 ⟨Nat.le_refl _, by omega⟩))
    omega
  rw [Gone, h, Edit.places_append, Edit.places_append, Edit.places_cellsFrom]
  simp only [List.mem_append, List.mem_range'_1, hb, false_or, not_or]
  exact ⟨fun h' => h'.2, fun h' => ⟨by omega, h'⟩⟩

theorem gone_left_iff {u : Unicode} {secrets : List Text} {text a w : Text}
    {before after : List (Cell Nat)} (hw : w ≠ []) (ha : a ≠ [])
    (h : left u secrets text = before ++ (cellsFrom a.length w ++ after)) :
    Gone (left u secrets text) (a.length - 1) ↔ a.length - 1 ∉ places before := by
  have hsorted := places_left_sorted u secrets text
  rw [h, Edit.places_append, Edit.places_append, Edit.places_cellsFrom] at hsorted
  obtain ⟨-, hrest, -⟩ := List.pairwise_append.1 hsorted
  obtain ⟨-, -, hafter⟩ := List.pairwise_append.1 hrest
  have hpos := List.length_pos_iff.2 hw
  have hapos := List.length_pos_iff.2 ha
  have hb : a.length - 1 ∉ places after := by
    intro hmem
    have := hafter a.length (List.mem_range'_1.2 ⟨Nat.le_refl _, by omega⟩) _ hmem
    omega
  rw [Gone, h, Edit.places_append, Edit.places_append, Edit.places_cellsFrom]
  simp only [List.mem_append, List.mem_range'_1, hb, or_false, not_or]
  exact ⟨fun h' => h'.1, fun h' => ⟨h', by omega⟩⟩

/-- A word that is left is a whole word of the result when the word characters beside it are
gone. -/
theorem clear_iff_gone {u : Unicode} {secrets : List Text} {text a b w : Text}
    {before after : List (Cell Nat)} (hw : w ≠ [])
    (h : left u secrets text = before ++ (cellsFrom a.length w ++ after))
    (hbefore : Beside u.isWord (cellsFrom 0 a).reverse before.reverse)
    (hafter : Beside u.isWord (cellsFrom (a.length + w.length) b) after) :
    Clear u (chars before).reverse (chars after) ↔
      (a.reverse.head?.any u.isWord = true → Gone (left u secrets text) (a.length - 1)) ∧
        (b.head?.any u.isWord = true → Gone (left u secrets text) (a.length + w.length)) := by
  refine and_congr ?_ ?_
  · have hedge := hbefore.edge_iff Edit.place_of_last
    rw [Edit.chars_reverse, Edit.chars_reverse, Edit.chars_cellsFrom, Edit.places_reverse,
      List.mem_reverse] at hedge
    rw [hedge]
    refine forall_congr' fun hword => ?_
    have ha : a ≠ [] := by
      rintro rfl
      exact absurd hword (by simp)
    exact (gone_left_iff hw ha h).symm
  · have hedge := hafter.edge_iff Edit.place_of_head
    rw [Edit.chars_cellsFrom] at hedge
    rw [hedge, gone_right_iff hw h]

theorem stands_iff_freed {u : Unicode} {secrets : List Text} {w : Text} (hw : w ∈ forms u secrets)
    (hapart : Apart redacted w) (text : Text) :
    Stands u w (scrubText u secrets text) ↔ FreedIn u (left u secrets text) w text := by
  have hne := hapart.ne_nil
  constructor
  · rintro ⟨x, y, hout, hclear⟩
    rw [← chars_left] at hout
    obtain ⟨before, rest, hleft, rfl, hrest⟩ := List.map_eq_append_iff.1 hout
    obtain ⟨cs, after, rfl, hchars, rfl⟩ := List.map_eq_append_iff.1 hrest
    have hchars : chars cs = w := hchars
    obtain ⟨a, b, rfl, hcs, hbefore, hafter⟩ :=
      split_left (Edit.apart_inserted (hchars ▸ hapart)) hleft
    rw [hchars] at hcs hafter hleft
    rw [hcs] at hleft
    have hgone := (clear_iff_gone hne hleft hbefore hafter).1 hclear
    rw [hchars]
    refine ⟨a, b, rfl, not_clear_of_left hw hleft, ?_, hgone⟩
    rw [hleft, List.map_append, List.map_append, Edit.snd_cellsFrom]
    exact ⟨before.map Prod.snd, after.map Prod.snd, by simp⟩
  · rintro ⟨a, b, rfl, -, ⟨l, r, hlr⟩, hgone⟩
    rw [List.append_assoc] at hlr
    obtain ⟨before, rest, hleft, rfl, hrest⟩ := List.map_eq_append_iff.1 hlr.symm
    obtain ⟨cs, after, rfl, hplaces, rfl⟩ := List.map_eq_append_iff.1 hrest
    obtain ⟨rfl, hbefore, hafter⟩ := split_left_of_places hne hplaces hleft
    have hclear := (clear_iff_gone hne hleft hbefore hafter).2 hgone
    refine ⟨chars before, chars after, ?_, hclear⟩
    rw [← chars_left, hleft, Edit.chars_append, Edit.chars_append, Edit.chars_cellsFrom]

end AnsiDeck.Scrub
