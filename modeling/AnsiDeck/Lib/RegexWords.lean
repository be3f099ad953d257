import AnsiDeck.Lib.RegexLocal
import Mathlib.Data.List.Forall2

/-!
# The words of an expression

Which words an expression without groups matches between two texts (`Reaches`), one rule for each
way to build an expression: with them an expression is read as what it says, whatever way the
matcher takes through it. What it prefers is said apart, for the first of several alternatives and
for a loop that goes as seldom as it can.
-/

namespace Lib

namespace Regex

variable {α γ : Type} {gs : List (γ × List α)} {r t : Regex α γ} {before w rest : List α}
  {p : α → Bool}

/-- One of the ways through the expression takes it over the word. -/
def Reaches (gs : List (γ × List α)) (r : Regex α γ) (before w rest : List α) : Prop :=
  ⟨w.reverse ++ before, rest, gs⟩ ∈ run r ⟨before, w ++ rest, gs⟩

theorem mem_run_iff (hr : r.plain = true) {text : List α} {s' : Pos α γ} :
    s' ∈ run r ⟨before, text, gs⟩ ↔
      ∃ w rest, text = w ++ rest ∧ s' = ⟨w.reverse ++ before, rest, gs⟩ ∧
        Reaches gs r before w rest := by
  constructor
  · intro h
    obtain ⟨w, hrest, hbefore⟩ := moves_run r _ _ h
    have hgroups := groups_run r hr _ _ h
    obtain ⟨before', rest', groups'⟩ := s'
    simp only at hrest hbefore hgroups
    subst hrest hbefore hgroups
    exact ⟨w, rest', rfl, rfl, h⟩
  · rintro ⟨w, rest, rfl, rfl, h⟩
    exact h

theorem run_ne_nil_iff (hr : r.plain = true) {text : List α} :
    run r ⟨before, text, gs⟩ ≠ [] ↔ ∃ w rest, text = w ++ rest ∧ Reaches gs r before w rest := by
  constructor
  · intro h
    obtain ⟨s', hs'⟩ := List.exists_mem_of_ne_nil _ h
    obtain ⟨w, rest, htext, -, hw⟩ := (mem_run_iff hr).1 hs'
    exact ⟨w, rest, htext, hw⟩
  · rintro ⟨w, rest, rfl, hw⟩
    exact List.ne_nil_of_mem hw

theorem eq_nil_of_place
    (h : (⟨w.reverse ++ before, rest, gs⟩ : Pos α γ) = ⟨before, w ++ rest, gs⟩) :
    w = [] := by
  have hrest : rest = w ++ rest := (Pos.mk.inj h).2.1
  have hlen := congrArg List.length hrest
  rw [List.length_append] at hlen
  exact List.length_eq_zero_iff.1 (by omega)

/-- An expression that only asks about the place. -/
theorem reaches_check (holds : Pos α γ → Bool) (hr : ∀ s, run r s = check (holds s) s) :
    Reaches gs r before w rest ↔ w = [] ∧ holds ⟨before, rest, gs⟩ = true := by
  rw [Reaches, hr]
  constructor
  · intro h
    obtain rfl := eq_nil_of_place (eq_of_mem_check h)
    refine ⟨rfl, ?_⟩
    by_contra hno
    rw [Bool.not_eq_true] at hno
    rw [List.nil_append, hno] at h
    exact absurd h List.not_mem_nil
  · rintro ⟨rfl, h⟩
    rw [List.nil_append, h]
    exact List.mem_singleton_self _

theorem reaches_empty : Reaches gs (empty : Regex α γ) before w rest ↔ w = [] := by
  constructor
  · intro h
    exact eq_nil_of_place (List.mem_singleton.1 h)
  · rintro rfl
    exact List.mem_singleton_self _

theorem reaches_one : Reaches gs (one p) before w rest ↔ ∃ c, w = [c] ∧ p c = true := by
  constructor
  · intro h
    obtain ⟨c, hc, hmove, -⟩ := moves_one h
    have hword : Moves (⟨before, w ++ rest, gs⟩ : Pos α γ) w ⟨w.reverse ++ before, rest, gs⟩ :=
      ⟨rfl, rfl⟩
    exact ⟨c, hword.unique hmove, hc⟩
  · rintro ⟨c, rfl, hc⟩
    simp [Reaches, run, hc]

theorem reaches_seq (hr : r.plain = true) :
    Reaches gs (seq r t) before w rest ↔ ∃ x y, w = x ++ y ∧ Reaches gs r before x (y ++ rest) ∧
      Reaches gs t (x.reverse ++ before) y rest := by
  constructor
  · intro h
    obtain ⟨m, hm, h⟩ := List.mem_flatMap.1 h
    obtain ⟨x, y, rfl, rfl⟩ := between (moves_run r _ _ hm) (moves_run t _ _ h)
      (groups_run r hr _ _ hm)
    rw [List.append_assoc] at hm
    rw [List.reverse_append, List.append_assoc] at h
    exact ⟨x, y, rfl, hm, h⟩
  · rintro ⟨x, y, rfl, hx, hy⟩
    rw [Reaches, List.append_assoc, List.reverse_append, List.append_assoc]
    exact List.mem_flatMap.2 ⟨_, hx, hy⟩

theorem reaches_alt : Reaches gs (alt r t) before w rest ↔
    Reaches gs r before w rest ∨ Reaches gs t before w rest := List.mem_append

theorem reaches_opt : Reaches gs (opt r) before w rest ↔ Reaches gs r before w rest ∨ w = [] := by
  rw [opt, reaches_alt, reaches_empty]

theorem reaches_alts {ts : List (Regex α γ)} : Reaches gs (alts r ts) before w rest ↔
    ∃ t ∈ r :: ts, Reaches gs t before w rest := by
  induction ts generalizing r with
  | nil => simp [alts]
  | cons t ts ih => rw [alts, reaches_alt, ih, List.exists_mem_cons_iff (a := r)]

theorem reaches_lit [DecidableEq α] {v : List α} : Reaches gs (lit v) before w rest ↔ w = v := by
  constructor
  · intro h
    have hword : Moves (⟨before, w ++ rest, gs⟩ : Pos α γ) w ⟨w.reverse ++ before, rest, gs⟩ :=
      ⟨rfl, rfl⟩
    exact hword.unique (moves_lit h)
  · rintro rfl
    rw [Reaches, run_lit]
    exact List.mem_singleton_self _

theorem plain_lit [DecidableEq α] (v : List α) : (lit v : Regex α γ).plain = true := by
  induction v with
  | nil => rfl
  | cons c v ih => exact ih

theorem reaches_litBy {eqv : α → α → Bool} {v : List α} :
    Reaches gs (litBy eqv v) before w rest ↔ List.Forall₂ (fun c x => eqv c x = true) w v := by
  induction v generalizing before w with
  | nil => rw [litBy, reaches_empty, List.forall₂_nil_right_iff]
  | cons x v ih =>
    rw [litBy, reaches_seq rfl]
    simp only [reaches_one, ih]
    constructor
    · rintro ⟨_, y, rfl, ⟨c, rfl, hc⟩, hy⟩
      exact .cons hc hy
    · intro h
      cases h with
      | @cons c _ y _ hc hy => exact ⟨[c], y, rfl, ⟨c, rfl, hc⟩, hy⟩

theorem reaches_many_one : Reaches gs (many (one p)) before w rest ↔ ∀ c ∈ w, p c = true := by
  rw [Reaches, mem_run_many_one]
  constructor
  · rintro ⟨v, hv, hmoves, -⟩
    have hword : Moves (⟨before, w ++ rest, gs⟩ : Pos α γ) w ⟨w.reverse ++ before, rest, gs⟩ :=
      ⟨rfl, rfl⟩
    rwa [hword.unique hmoves]
  · exact fun h => ⟨w, h, ⟨rfl, rfl⟩, rfl⟩

theorem reaches_plus_one : Reaches gs (plus (one p)) before w rest ↔ w ≠ [] ∧ ∀ c ∈ w,
    p c = true := by
  rw [Reaches, mem_run_plus_one]
  constructor
  · rintro ⟨v, hne, hv, hmoves, -⟩
    have hword : Moves (⟨before, w ++ rest, gs⟩ : Pos α γ) w ⟨w.reverse ++ before, rest, gs⟩ :=
      ⟨rfl, rfl⟩
    rw [hword.unique hmoves]
    exact ⟨hne, hv⟩
  · exact fun h => ⟨w, h.1, h.2, ⟨rfl, rfl⟩, rfl⟩

theorem reaches_times_one {n : Nat} : Reaches gs (times n (one p)) before w rest ↔
    w.length = n ∧ ∀ c ∈ w, p c = true := by
  induction n generalizing before w with
  | zero =>
    rw [times, reaches_empty, List.length_eq_zero_iff]
    constructor
    · rintro rfl
      simp
    · exact fun h => h.1
  | succ n ih =>
    rw [times, reaches_seq rfl]
    simp only [reaches_one, ih]
    constructor
    · rintro ⟨_, y, rfl, ⟨c, rfl, hc⟩, hlen, hy⟩
      exact ⟨by simp [hlen], by simpa [hc] using hy⟩
    · rintro ⟨hlen, hw⟩
      obtain ⟨c, y, rfl⟩ := List.exists_cons_of_length_eq_add_one hlen
      obtain ⟨hc, hy⟩ := List.forall_mem_cons.1 hw
      exact ⟨[c], y, rfl, ⟨c, rfl, hc⟩, by simpa using hlen, hy⟩

theorem reaches_notBehind : Reaches gs (notBehind p : Regex α γ) before w rest ↔
    w = [] ∧ before.head?.any p = false := by
  rw [reaches_check (fun s => !s.before.head?.any p) fun _ => rfl, Bool.not_eq_true']

theorem reaches_boundary : Reaches gs (boundary p : Regex α γ) before w rest ↔
    w = [] ∧ before.head?.any p ≠ rest.head?.any p := by
  rw [reaches_check (fun s => s.before.head?.any p != s.rest.head?.any p) fun _ => rfl,
    bne_iff_ne]

theorem reaches_atEnd : Reaches gs (atEnd : Regex α γ) before w rest ↔ w = [] ∧ rest = [] := by
  rw [reaches_check (fun s => s.rest.isEmpty) fun _ => rfl, List.isEmpty_iff]

theorem reaches_notAhead (hr : r.plain = true) : Reaches gs (notAhead r) before w rest ↔
    w = [] ∧ ∀ x y, rest = x ++ y → ¬ Reaches gs r before x y := by
  rw [reaches_check (fun s => (run r s).isEmpty) fun _ => rfl, List.isEmpty_iff]
  refine and_congr_right fun _ => ?_
  rw [← not_ne_iff, run_ne_nil_iff hr]
  simp only [not_exists, not_and]

theorem reaches_notAhead_one : Reaches gs (notAhead (one p)) before w rest ↔
    w = [] ∧ rest.head?.any p = false := by
  rw [reaches_notAhead rfl]
  refine and_congr_right fun _ => ?_
  simp only [reaches_one]
  cases rest with
  | nil => simp
  | cons c rest =>
    constructor
    · intro h
      exact Bool.eq_false_iff.2 fun hc => h [c] rest rfl ⟨c, rfl, hc⟩
    · rintro hc _ y heq ⟨d, rfl, hd⟩
      obtain ⟨rfl, -⟩ := List.cons.inj heq
      rw [show p c = false from hc] at hd
      cases hd

/-- A loop stops at once or goes on behind a turn that takes something. -/
theorem reaches_many (hr : r.plain = true) : Reaches gs (many r) before w rest ↔
    w = [] ∨ ∃ x y, x ≠ [] ∧ w = x ++ y ∧ Reaches gs r before x (y ++ rest) ∧
      Reaches gs (many r) (x.reverse ++ before) y rest := by
  have hagain : ∀ s : Pos α γ, again (run r) (s.rest.length + 1) s = run (many r) s := fun s =>
    again_fuel _ _ _ _ (Nat.le_succ _) (Nat.le_refl _)
  rw [Reaches, ← hagain]
  constructor
  · intro h
    rcases List.mem_append.1 h with h | h
    · obtain ⟨m, hm, h⟩ := List.mem_flatMap.1 h
      obtain ⟨hm, hlt⟩ := List.mem_filter.1 hm
      have hrun : ∃ w', Moves m w' ⟨w.reverse ++ before, rest, gs⟩ :=
        moves_again (moves_run r) _ _ _ h
      obtain ⟨x, y, rfl, rfl⟩ := between (moves_run r _ _ hm) hrun (groups_run r hr _ _ hm)
      have hx : x ≠ [] := by
        rintro rfl
        simp at hlt
      have hle : (y ++ rest).length ≤ (x ++ y ++ rest).length := by simp
      rw [again_fuel _ _ _ _ hle (Nat.le_refl _), List.reverse_append, List.append_assoc] at h
      rw [List.append_assoc] at hm
      exact .inr ⟨x, y, hx, rfl, hm, h⟩
    · exact .inl (eq_nil_of_place (List.mem_singleton.1 h))
  · rintro (rfl | ⟨x, y, hx, rfl, hxr, hyr⟩)
    · exact List.mem_append_right _ (List.mem_singleton_self _)
    · apply List.mem_append_left
      have hpos := List.length_pos_iff.2 hx
      have hle : (y ++ rest).length ≤ (x ++ y ++ rest).length := by simp
      refine List.mem_flatMap.2
        ⟨⟨x.reverse ++ before, y ++ rest, gs⟩, List.mem_filter.2 ⟨?_, ?_⟩, ?_⟩
      · rw [List.append_assoc]
        exact hxr
      · simpa using hpos
      · rw [again_fuel _ _ _ _ hle (Nat.le_refl _), List.reverse_append, List.append_assoc]
        exact hyr

/-! ## What is preferred -/

/-- The first of the alternatives that finds something. -/
theorem head_run_alts {ts : List (Regex α γ)} {s s' : Pos α γ}
    (h : (run (alts r ts) s).head? = some s') :
    ∃ l₁ q l₂, r :: ts = l₁ ++ q :: l₂ ∧ (∀ t ∈ l₁, run t s = []) ∧ (run q s).head? = some s' := by
  induction ts generalizing r with
  | nil => exact ⟨[], r, [], rfl, by simp, h⟩
  | cons t ts ih =>
    have hrun : (run r s ++ run (alts t ts) s).head? = some s' := h
    cases hr : run r s with
    | nil =>
      rw [hr, List.nil_append] at hrun
      obtain ⟨l₁, q, l₂, hl, hnone, hq⟩ := ih hrun
      exact ⟨r :: l₁, q, l₂, by rw [hl]; rfl, List.forall_mem_cons.2 ⟨hr, hnone⟩, hq⟩
    | cons m ms =>
      rw [hr] at hrun
      exact ⟨[], r, t :: ts, rfl, by simp, by rw [hr]; exact hrun⟩

/-- A lazy loop over all characters ends where what comes next finds something first. -/
theorem head_run_lazy (hend : ∀ before, run t ⟨before, [], gs⟩ ≠ []) (text before : List α) :
    ∃ x y s', text = x ++ y ∧
      (run (seq (manyLazy (one fun _ => true)) t) ⟨before, text, gs⟩).head? = some s' ∧
      (run t ⟨x.reverse ++ before, y, gs⟩).head? = some s' ∧
      ∀ x₁ x₂, x = x₁ ++ x₂ → x₂ ≠ [] → run t ⟨x₁.reverse ++ before, x₂ ++ y, gs⟩ = [] := by
  induction text generalizing before with
  | nil =>
    obtain ⟨s', hs'⟩ := Option.ne_none_iff_exists'.1 (mt List.head?_eq_none_iff.1 (hend before))
    refine ⟨[], [], s', rfl, ?_, hs', ?_⟩
    · simp [run, againLazy, hs']
    · rintro x₁ x₂ hx hne
      exact absurd (List.append_eq_nil_iff.1 hx.symm).2 hne
  | cons c text ih =>
    have hrun : run (seq (manyLazy (one fun _ => true)) t) ⟨before, c :: text, gs⟩ =
        run t ⟨before, c :: text, gs⟩ ++
          run (seq (manyLazy (one fun _ => true)) t) ⟨c :: before, text, gs⟩ := by
      simp [run, againLazy]
    rw [hrun]
    cases hfirst : run t ⟨before, c :: text, gs⟩ with
    | nil =>
      obtain ⟨x, y, s', rfl, hs', hy, hnone⟩ := ih (c :: before)
      refine ⟨c :: x, y, s', rfl, hs', by simpa using hy, fun x₁ x₂ hx hne => ?_⟩
      cases x₁ with
      | nil =>
        rw [List.nil_append] at hx
        rw [← hx]
        exact hfirst
      | cons d x₁ =>
        obtain ⟨rfl, htail⟩ := List.cons.inj hx
        simpa using hnone x₁ x₂ htail hne
    | cons s' l =>
      refine ⟨[], c :: text, s', rfl, rfl, by simp [hfirst], ?_⟩
      rintro x₁ x₂ hx hne
      exact absurd (List.append_eq_nil_iff.1 hx.symm).2 hne

end Regex

end Lib
