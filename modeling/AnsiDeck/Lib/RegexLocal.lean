import AnsiDeck.Lib.Regex

/-!
# What a match depends on

An expression over one class of characters sees nothing of a text beyond a run of that class
(`run_within`), and one whose only conditions are boundaries sees no more than the text it matches
and whether the characters beside it are of the class (`Carried`). A loop over single characters
takes any part of a run.
-/

namespace Lib

/-- Two splits of a text before one of its characters are the same if as many come before. -/
theorem append_cons_inj_of_count {α : Type} [DecidableEq α] {d : α} {a a' b b' : List α}
    (h : a ++ d :: b = a' ++ d :: b') (hcount : a.count d = a'.count d) : a = a' ∧ b = b' := by
  rcases List.append_eq_append_iff.1 h with ⟨t, ht, htail⟩ | ⟨t, ht, htail⟩
  · cases t with
    | nil => exact ⟨by simpa using ht.symm, by simpa using htail⟩
    | cons e t =>
      obtain ⟨rfl, -⟩ := List.cons.inj htail
      simp [ht] at hcount
  · cases t with
    | nil => exact ⟨by simpa using ht, by simpa using htail.symm⟩
    | cons e t =>
      obtain ⟨rfl, -⟩ := List.cons.inj htail
      simp [ht] at hcount

/-- The run of a class that a text begins with. -/
theorem exists_run {α : Type} (p : α → Bool) (text : List α) :
    ∃ w t, text = w ++ t ∧ (∀ c ∈ w, p c = true) ∧ ∀ c ∈ t.head?, p c = false := by
  induction text with
  | nil => exact ⟨[], [], rfl, by simp, by simp⟩
  | cons c text ih =>
    by_cases hc : p c = true
    · obtain ⟨w, t, rfl, hw, ht⟩ := ih
      exact ⟨c :: w, t, rfl, List.forall_mem_cons.2 ⟨hc, hw⟩, ht⟩
    · exact ⟨[], c :: text, rfl, by simp, by simpa using hc⟩

/-- Two runs of a class at the beginning of a text, each up to a character that is not of it. -/
theorem run_unique {α : Type} {p : α → Bool} {w w' t t' : List α} (h : w ++ t = w' ++ t')
    (hw : ∀ c ∈ w, p c = true) (hw' : ∀ c ∈ w', p c = true) (ht : ∀ c ∈ t.head?, p c = false)
    (ht' : ∀ c ∈ t'.head?, p c = false) : w = w' ∧ t = t' := by
  rcases List.append_eq_append_iff.1 h with ⟨v, hv, htail⟩ | ⟨v, hv, htail⟩
  · cases v with
    | nil => exact ⟨by simpa using hv.symm, by simpa using htail⟩
    | cons c v =>
      have hin := hw' c (by rw [hv]; simp)
      rw [ht c (by rw [htail]; rfl)] at hin
      exact absurd hin Bool.false_ne_true
  · cases v with
    | nil => exact ⟨by simpa using hv, by simpa using htail.symm⟩
    | cons c v =>
      have hin := hw c (by rw [hv]; simp)
      rw [ht' c (by rw [htail]; rfl)] at hin
      exact absurd hin Bool.false_ne_true

namespace Regex

variable {α γ : Type}

theorem run_seq (r t : Regex α γ) (s : Pos α γ) : run (seq r t) s = (run r s).flatMap (run t) := rfl

theorem matchAt_eq_none {r : Regex α γ} {before rest : List α} :
    r.matchAt before rest = none ↔ r.run ⟨before, rest, []⟩ = [] := by
  rw [matchAt, Option.map_eq_none_iff, List.head?_eq_none_iff]

/-! ## Words -/

theorem moves_lit [DecidableEq α] {v : List α} : ∀ {s s' : Pos α γ}, s' ∈ run (lit v) s →
    Moves s v s' := by
  induction v with
  | nil =>
    intro s s' h
    rw [List.mem_singleton.1 h]
    exact .refl s
  | cons c v ih =>
    intro s s' h
    obtain ⟨m, hm, hrest⟩ := List.mem_flatMap.1 h
    obtain ⟨d, hd, hmove, -⟩ := moves_one hm
    obtain rfl : d = c := by simpa using hd
    exact hmove.trans (ih hrest)

theorem moves_litBy {eqv : α → α → Bool} {v : List α} : ∀ {s s' : Pos α γ},
    s' ∈ run (litBy eqv v) s → ∃ w, Moves s w s' ∧
      List.Forall₂ (fun c x => eqv c x = true) w v := by
  induction v with
  | nil =>
    intro s s' h
    rw [List.mem_singleton.1 h]
    exact ⟨[], .refl s, .nil⟩
  | cons x v ih =>
    intro s s' h
    obtain ⟨m, hm, h⟩ := List.mem_flatMap.1 h
    obtain ⟨c, hc, hmove, -⟩ := moves_one hm
    obtain ⟨w, hmoves, hw⟩ := ih h
    exact ⟨c :: w, hmove.trans hmoves, .cons hc hw⟩

theorem run_alts_eq_nil {r : Regex α γ} {ts : List (Regex α γ)} {s : Pos α γ}
    (h : ∀ t ∈ r :: ts, run t s = []) : run (alts r ts) s = [] := by
  induction ts generalizing r with
  | nil => exact h r List.mem_cons_self
  | cons t ts ih =>
    obtain ⟨hr, ht⟩ := List.forall_mem_cons.1 h
    rw [alts, run, hr, ih ht]
    rfl

theorem moves_times_one {p : α → Bool} : ∀ {n : Nat} {s s' : Pos α γ},
    s' ∈ run (times n (one p)) s → ∃ w, Moves s w s' ∧ w.length = n ∧ ∀ c ∈ w, p c = true := by
  intro n
  induction n with
  | zero =>
    intro s s' h
    rw [List.mem_singleton.1 h]
    exact ⟨[], .refl s, rfl, by simp⟩
  | succ n ih =>
    intro s s' h
    obtain ⟨m, hm, h⟩ := List.mem_flatMap.1 h
    obtain ⟨c, hc, hmove, -⟩ := moves_one hm
    obtain ⟨w, hmoves, hlen, hw⟩ := ih h
    exact ⟨c :: w, hmove.trans hmoves, by rw [List.length_cons, hlen],
      List.forall_mem_cons.2 ⟨hc, hw⟩⟩

/-! ## Loops -/

/-- More turns than there are characters are not taken. -/
theorem again_fuel (f : Pos α γ → List (Pos α γ)) :
    ∀ n m s, s.rest.length ≤ n → s.rest.length ≤ m → again f n s = again f m s := by
  -- a turn that leaves nothing shorter is dropped, so no turn is left at the end of the text
  have hstop : ∀ n s, s.rest.length = 0 → again f n s = [s] := by
    intro n s hs
    cases n with
    | zero => rfl
    | succ n => simp [again, hs]
  intro n
  induction n with
  | zero =>
    intro m s hn _
    rw [hstop m s (Nat.le_zero.1 hn), hstop 0 s (Nat.le_zero.1 hn)]
  | succ n ih =>
    intro m s hn hm
    cases m with
    | zero => rw [hstop (n + 1) s (Nat.le_zero.1 hm), hstop 0 s (Nat.le_zero.1 hm)]
    | succ m =>
      rw [again, again]
      congr 1
      apply List.flatMap_congr
      intro t ht
      have hlt : t.rest.length < s.rest.length := by simpa using (List.mem_filter.1 ht).2
      exact ih m t (by omega) (by omega)

/-- A loop over single characters stops anywhere in a run. -/
theorem mem_run_many_one {p : α → Bool} : ∀ {s s' : Pos α γ},
    s' ∈ run (many (one p)) s ↔
      ∃ w, (∀ c ∈ w, p c = true) ∧ Moves s w s' ∧ s'.groups = s.groups := by
  suffices h : ∀ rest before (groups : List (γ × List α)) s',
      s' ∈ run (many (one p)) ⟨before, rest, groups⟩ ↔
        ∃ w, (∀ c ∈ w, p c = true) ∧ Moves ⟨before, rest, groups⟩ w s' ∧ s'.groups = groups from
    fun {s s'} => h s.rest s.before s.groups s'
  intro rest
  induction rest with
  | nil =>
    intro before groups s'
    constructor
    · intro h
      rw [List.mem_singleton.1 h]
      exact ⟨[], by simp, .refl _, rfl⟩
    · rintro ⟨w, -, hw, hgroups⟩
      obtain ⟨hrest, hbefore⟩ := hw
      obtain ⟨rfl, hrest'⟩ := List.nil_eq_append_iff.1 hrest
      obtain ⟨before', rest', groups'⟩ := s'
      simp only at hrest' hbefore hgroups
      subst hrest' hgroups
      simp [run, again, hbefore]
  | cons c rest ih =>
    intro before groups s'
    have hturn : s' ∈ run (many (one p)) ⟨before, c :: rest, groups⟩ ↔
        (p c = true ∧ s' ∈ run (many (one p)) ⟨c :: before, rest, groups⟩) ∨
          s' = ⟨before, c :: rest, groups⟩ := by
      by_cases hc : p c = true
      · simp [run, again, hc]
      · simp [run, again, hc]
    rw [hturn]
    constructor
    · rintro (⟨hc, h⟩ | rfl)
      · obtain ⟨w, hw, hmoves, hgroups⟩ := (ih _ _ _).1 h
        have hstep : Moves ⟨before, c :: rest, groups⟩ [c] ⟨c :: before, rest, groups⟩ := ⟨rfl, rfl⟩
        exact ⟨c :: w, List.forall_mem_cons.2 ⟨hc, hw⟩, hstep.trans hmoves, hgroups⟩
      · exact ⟨[], by simp, .refl _, rfl⟩
    · rintro ⟨w, hw, hmoves, hgroups⟩
      cases w with
      | nil =>
        right
        obtain ⟨hrest, hbefore⟩ := hmoves
        obtain ⟨before', rest', groups'⟩ := s'
        simp only [List.nil_append, List.reverse_nil] at hrest hbefore hgroups
        rw [hrest, hbefore, hgroups]
      | cons d w =>
        left
        obtain ⟨hrest, hbefore⟩ := hmoves
        obtain ⟨rfl, htail⟩ := List.cons.inj hrest
        obtain ⟨hd, hw⟩ := List.forall_mem_cons.1 hw
        exact ⟨hd, (ih _ _ _).2 ⟨w, hw, ⟨htail, by simpa using hbefore⟩, hgroups⟩⟩

/-- `plus` of single characters takes any part of a run but the empty one. -/
theorem mem_run_plus_one {p : α → Bool} {s s' : Pos α γ} :
    s' ∈ run (plus (one p)) s ↔
      ∃ w, w ≠ [] ∧ (∀ c ∈ w, p c = true) ∧ Moves s w s' ∧ s'.groups = s.groups := by
  constructor
  · intro h
    obtain ⟨m, hm, h⟩ := List.mem_flatMap.1 h
    obtain ⟨c, hc, hmove, hgroups⟩ := moves_one hm
    obtain ⟨w, hw, hmoves, hgroups'⟩ := mem_run_many_one.1 h
    exact ⟨c :: w, List.cons_ne_nil _ _, List.forall_mem_cons.2 ⟨hc, hw⟩, hmove.trans hmoves,
      hgroups'.trans hgroups⟩
  · rintro ⟨w, hne, hw, ⟨hrest, hbefore⟩, hgroups⟩
    cases w with
    | nil => exact absurd rfl hne
    | cons c w =>
      obtain ⟨hc, hw⟩ := List.forall_mem_cons.1 hw
      obtain ⟨before, rest, groups⟩ := s
      simp only at hrest hbefore hgroups
      subst hrest
      apply List.mem_flatMap.2
      refine ⟨⟨c :: before, w ++ s'.rest, groups⟩, by simp [run, hc], ?_⟩
      apply mem_run_many_one.2
      exact ⟨w, hw, ⟨rfl, by simpa using hbefore⟩, hgroups⟩

/-- The longest part comes first. -/
theorem head_run_many_one {p : α → Bool} {t : List α} (ht : ∀ c ∈ t.head?, p c = false)
    (gs : List (γ × List α)) : ∀ {w : List α}, (∀ c ∈ w, p c = true) → ∀ b,
      (run (many (one p)) ⟨b, w ++ t, gs⟩).head? = some ⟨w.reverse ++ b, t, gs⟩ := by
  intro w
  induction w with
  | nil =>
    intro _ b
    have hstop : run (one p) ⟨b, t, gs⟩ = [] := by
      cases t with
      | nil => rfl
      | cons d t => simp [run, ht d rfl]
    rw [List.nil_append, run, again_stop hstop]
    rfl
  | cons c w ih =>
    intro hw b
    obtain ⟨hc, hw⟩ := List.forall_mem_cons.1 hw
    have hturn : (run (one p) ⟨b, c :: (w ++ t), gs⟩).head? = some ⟨c :: b, w ++ t, gs⟩ := by
      simp [run, hc]
    have hrest : (run (many (one p)) ⟨b, c :: (w ++ t), gs⟩).head? =
        some ⟨w.reverse ++ c :: b, t, gs⟩ := by
      apply again_turn hturn (by simp)
      exact ih hw (c :: b)
    simpa using hrest

theorem head_run_plus_one {p : α → Bool} {t : List α} (ht : ∀ c ∈ t.head?, p c = false)
    (gs : List (γ × List α)) {w : List α} (hne : w ≠ []) (hw : ∀ c ∈ w, p c = true) (b : List α) :
    (run (plus (one p)) ⟨b, w ++ t, gs⟩).head? = some ⟨w.reverse ++ b, t, gs⟩ := by
  cases w with
  | nil => exact absurd rfl hne
  | cons c w =>
    obtain ⟨hc, hw⟩ := List.forall_mem_cons.1 hw
    have hfirst : run (one p) ⟨b, c :: (w ++ t), gs⟩ = [⟨c :: b, w ++ t, gs⟩] := by
      simp [run, hc]
    have hrest := head_run_many_one ht gs hw (c :: b)
    rw [List.cons_append, plus, run, hfirst, List.flatMap_cons, List.flatMap_nil, List.append_nil,
      hrest]
    simp

/-- So the first match is a whole run. -/
theorem exists_of_head_plus_one {p : α → Bool} {s s' : Pos α γ}
    (h : (run (plus (one p)) s).head? = some s') :
    ∃ w, w ≠ [] ∧ (∀ c ∈ w, p c = true) ∧ Moves s w s' ∧ (∀ c ∈ s'.rest.head?, p c = false) ∧
      s'.groups = s.groups := by
  obtain ⟨v, hv, hin, hmoves, -⟩ := mem_run_plus_one.1 (List.mem_of_mem_head? h)
  obtain ⟨before, rest, groups⟩ := s
  obtain ⟨w, t, rfl, hw, ht⟩ := exists_run p rest
  have hne : w ≠ [] := by
    rintro rfl
    obtain ⟨c, v, rfl⟩ := List.exists_cons_of_ne_nil hv
    have hc := ht c (by rw [show t = c :: (v ++ s'.rest) from hmoves.1]; rfl)
    rw [hin c List.mem_cons_self] at hc
    exact absurd hc.symm Bool.false_ne_true
  have hfirst := head_run_plus_one ht groups hne hw before
  rw [h] at hfirst
  obtain rfl := Option.some.inj hfirst
  exact ⟨w, hne, hw, ⟨rfl, rfl⟩, ht, rfl⟩

/-- Where all but one of the places go nowhere, the first way on is the first one from there. -/
theorem head_flatMap {β δ : Type} {f : β → List δ} {l : List β} {b : β} (hb : b ∈ l)
    (h : ∀ b' ∈ l, f b' ≠ [] → b' = b) : (l.flatMap f).head? = (f b).head? := by
  induction l with
  | nil => exact absurd hb List.not_mem_nil
  | cons d l ih =>
    obtain ⟨hd, hl⟩ := List.forall_mem_cons.1 h
    rw [List.flatMap_cons]
    cases hfd : f d with
    | nil =>
      rcases List.mem_cons.1 hb with rfl | hb
      · -- the place itself goes nowhere, and so do the others
        have hnil : l.flatMap f = [] := by
          apply List.flatMap_eq_nil_iff.2
          intro b' hb'
          by_contra hne
          rw [hl b' hb' hne] at hne
          exact hne hfd
        rw [hnil, hfd]
        rfl
      · rw [List.nil_append, ih hb hl]
    | cons y ys =>
      have hdb : d = b := hd (by simp [hfd])
      rw [← hdb, hfd]
      rfl

/-! ## Runs of a class -/

/-- An expression over the characters of `p` alone, without groups or a look behind. -/
def Within (p : α → Bool) : Regex α γ → Prop
  | empty => True
  | one q => ∀ c, q c = true → p c = true
  | seq r t => Within p r ∧ Within p t
  | alt r t => Within p r ∧ Within p t
  | many r => Within p r
  | manyLazy _ => False
  | group _ _ => False
  | atomic r => Within p r
  | ahead r => Within p r
  | notAhead r => Within p r
  | notBehind _ => False
  | boundary _ => False
  | atEnd => False

/-- The place in a longer text, with `b` before it and `t` behind it. -/
def Pos.into (b t : List α) (gs : List (γ × List α)) (s : Pos α γ) : Pos α γ :=
  ⟨s.before ++ b, s.rest ++ t, s.groups ++ gs⟩

theorem within_litBy {p : α → Bool} {eqv : α → α → Bool} {v : List α}
    (h : ∀ x ∈ v, ∀ c, eqv c x = true → p c = true) : Within p (litBy eqv v : Regex α γ) := by
  induction v with
  | nil => exact trivial
  | cons x v ih =>
    obtain ⟨hx, hv⟩ := List.forall_mem_cons.1 h
    exact ⟨hx, ih hv⟩

theorem run_into_again {f : Pos α γ → List (Pos α γ)} {p : α → Bool} {b t : List α}
    {gs : List (γ × List α)} (hmove : ∀ s s', s' ∈ f s → ∃ w, Moves s w s')
    (hf : ∀ s, (∀ c ∈ s.rest, p c = true) → f (s.into b t gs) = (f s).map (Pos.into b t gs)) :
    ∀ n s, (∀ c ∈ s.rest, p c = true) →
      again f n (s.into b t gs) = (again f n s).map (Pos.into b t gs) := by
  intro n
  induction n with
  | zero => exact fun s _ => rfl
  | succ n ih =>
    intro s hs
    have hlen : ∀ s' : Pos α γ, decide ((s'.into b t gs).rest.length < (s.into b t gs).rest.length)
      =
        decide (s'.rest.length < s.rest.length) := by
      intro s'
      simp [Pos.into]
    rw [again, again, hf s hs, List.filter_map, List.flatMap_map, List.map_append,
      List.map_flatMap]
    congr 1
    have hfilter : ((fun t_1 : Pos α γ => decide (t_1.rest.length < (s.into b t gs).rest.length)) ∘
        Pos.into b t gs) = fun s' => decide (s'.rest.length < s.rest.length) := funext hlen
    rw [hfilter]
    apply List.flatMap_congr
    intro s' hs'
    obtain ⟨w, hw, -⟩ := hmove s s' (List.mem_of_mem_filter hs')
    exact ih s' fun c hc => hs c (hw ▸ List.mem_append_right _ hc)

/-- Within a run of its class an expression finds the same, whatever stands around the run. -/
theorem run_into {p : α → Bool} {b t : List α} {gs : List (γ × List α)}
    (ht : ∀ c ∈ t.head?, p c = false) (r : Regex α γ) (hr : Within p r) :
    ∀ s : Pos α γ, (∀ c ∈ s.rest, p c = true) →
      run r (s.into b t gs) = (run r s).map (Pos.into b t gs) := by
  induction r with
  | empty => exact fun s _ => rfl
  | one q =>
    intro s hs
    obtain ⟨before, rest, groups⟩ := s
    cases rest with
    | nil =>
      -- the character behind the run is not of the class
      cases t with
      | nil => rfl
      | cons d t =>
        have hd : q d = false := by
          have hp := ht d rfl
          exact Bool.eq_false_iff.2 fun hq => by simp [hr d hq] at hp
        simp [run, Pos.into, hd]
    | cons c rest =>
      by_cases hc : q c = true
      · simp [run, Pos.into, hc]
      · simp [run, Pos.into, hc]
  | seq r u ihr ihu =>
    intro s hs
    obtain ⟨hr, hu⟩ := hr
    rw [run, run, ihr hr s hs, List.flatMap_map, List.map_flatMap]
    apply List.flatMap_congr
    intro m hm
    obtain ⟨w, hw, -⟩ := moves_run r s m hm
    exact ihu hu m fun c hc => hs c (hw ▸ List.mem_append_right _ hc)
  | alt r u ihr ihu =>
    intro s hs
    rw [run, run, ihr hr.1 s hs, ihu hr.2 s hs, List.map_append]
  | many r ih =>
    intro s hs
    have hlen : (s.into b t gs).rest.length = s.rest.length + t.length := List.length_append
    have hfuel : again (run r) s.rest.length s = again (run r) (s.rest.length + t.length) s :=
      again_fuel _ _ _ _ (Nat.le_refl _) (Nat.le_add_right _ _)
    rw [run, run, hlen, hfuel]
    exact run_into_again (moves_run r) (ih hr) _ s hs
  | manyLazy r _ => exact absurd hr (by simp [Within])
  | group name r _ => exact absurd hr (by simp [Within])
  | atomic r ih =>
    intro s hs
    rw [run, run, ih hr s hs, List.map_take]
  | ahead r ih =>
    intro s hs
    simp only [run, ih hr s hs, check, List.isEmpty_map]
    cases (run r s).isEmpty <;> rfl
  | notAhead r ih =>
    intro s hs
    simp only [run, ih hr s hs, check, List.isEmpty_map]
    cases (run r s).isEmpty <;> rfl
  | notBehind q => exact absurd hr (by simp [Within])
  | boundary q => exact absurd hr (by simp [Within])
  | atEnd => exact absurd hr (by simp [Within])

/-! ## Edges -/

/-- An expression that looks at the text beside its match only to compare it with the class `p`. -/
def Carried (p : α → Bool) : Regex α γ → Prop
  | empty => True
  | one _ => True
  | seq r t => Carried p r ∧ Carried p t
  | alt r t => Carried p r ∧ Carried p t
  | many r => Carried p r
  | boundary q => q = p
  | _ => False

theorem carried_litBy (p : α → Bool) (eqv : α → α → Bool) (v : List α) :
    Carried p (litBy eqv v : Regex α γ) := by
  induction v with
  | nil => exact trivial
  | cons x v ih => exact ⟨trivial, ih⟩

/-- One character beside a place is of the class exactly when the other is. -/
def SameEdge (p : α → Bool) (x y : List α) : Prop := x.head?.any p = y.head?.any p

theorem SameEdge.append {p : α → Bool} {x y : List α} (h : SameEdge p x y) (w : List α) :
    SameEdge p (w ++ x) (w ++ y) := by
  cases w with
  | nil => exact h
  | cons c w => rfl

theorem plain_of_carried {p : α → Bool} {r : Regex α γ} (h : Carried p r) : r.plain = true := by
  induction r with
  | empty => rfl
  | one _ => rfl
  | seq r t ihr iht => simp [plain, ihr h.1, iht h.2]
  | alt r t ihr iht => simp [plain, ihr h.1, iht h.2]
  | many r ih => exact ih h
  | boundary _ => rfl
  | manyLazy _ _ => exact absurd h (by simp [Carried])
  | group _ _ _ => exact absurd h (by simp [Carried])
  | atomic _ _ => exact absurd h (by simp [Carried])
  | ahead _ _ => exact absurd h (by simp [Carried])
  | notAhead _ _ => exact absurd h (by simp [Carried])
  | notBehind _ => exact absurd h (by simp [Carried])
  | atEnd => exact absurd h (by simp [Carried])

/-- The place after `w`, reached through a place in between. -/
theorem between {w before rest : List α} {gs : List (γ × List α)} {m : Pos α γ}
    (hm : ∃ w', Moves ⟨before, w ++ rest, gs⟩ w' m)
    (hs : ∃ w', Moves m w' ⟨w.reverse ++ before, rest, gs⟩) (hgroups : m.groups = gs) :
    ∃ w₁ w₂, w = w₁ ++ w₂ ∧ m = ⟨w₁.reverse ++ before, w₂ ++ rest, gs⟩ := by
  obtain ⟨w₁, h₁⟩ := hm
  obtain ⟨w₂, h₂⟩ := hs
  have hw : w = w₁ ++ w₂ := by
    have hwhole : Moves ⟨before, w ++ rest, gs⟩ w ⟨w.reverse ++ before, rest, gs⟩ := ⟨rfl, rfl⟩
    exact hwhole.unique (h₁.trans h₂)
  refine ⟨w₁, w₂, hw, ?_⟩
  obtain ⟨before', rest', groups'⟩ := m
  rw [← h₁.2, ← hgroups, ← h₂.1]

/-- `f` finds the same words in every place with the same edges. -/
def Carries (p : α → Bool) (f : Pos α γ → List (Pos α γ)) : Prop :=
  ∀ {w before before' rest rest' : List α} {gs : List (γ × List α)},
    SameEdge p before before' → SameEdge p rest rest' →
    ⟨w.reverse ++ before, rest, gs⟩ ∈ f ⟨before, w ++ rest, gs⟩ →
    ⟨w.reverse ++ before', rest', gs⟩ ∈ f ⟨before', w ++ rest', gs⟩

theorem carries_again {p : α → Bool} {f : Pos α γ → List (Pos α γ)}
    (hmove : ∀ s s', s' ∈ f s → ∃ w, Moves s w s')
    (hgroups : ∀ s s', s' ∈ f s → s'.groups = s.groups) (hf : Carries p f) :
    ∀ n n' (w before before' rest rest' : List α) (gs : List (γ × List α)),
      w.length ≤ n' → SameEdge p before before' → SameEdge p rest rest' →
      ⟨w.reverse ++ before, rest, gs⟩ ∈ again f n ⟨before, w ++ rest, gs⟩ →
      ⟨w.reverse ++ before', rest', gs⟩ ∈ again f n' ⟨before', w ++ rest', gs⟩ := by
  intro n
  induction n with
  | zero =>
    intro n' w before before' rest rest' gs hn' hb hr h
    have hw : w = [] := by
      have := congrArg (List.length ∘ Pos.rest) (List.mem_singleton.1 h)
      exact List.length_eq_zero_iff.1 (by simpa using this)
    subst hw
    cases n' with
    | zero => exact List.mem_singleton_self _
    | succ n' => exact List.mem_append_right _ (List.mem_singleton_self _)
  | succ n ih =>
    intro n' w before before' rest rest' gs hn' hb hr h
    rcases List.mem_append.1 h with h | h
    · -- a turn over `w₁`, the other turns over `w₂`
      obtain ⟨m, hm, h⟩ := List.mem_flatMap.1 h
      obtain ⟨hm, hlt⟩ := List.mem_filter.1 hm
      obtain ⟨w₁, w₂, rfl, rfl⟩ := between (hmove _ _ hm) (moves_again hmove n _ _ h)
        (hgroups _ _ hm)
      have hpos : 0 < w₁.length := by simpa using hlt
      rw [List.length_append] at hn'
      cases n' with
      | zero => omega
      | succ n' =>
        rw [List.reverse_append, List.append_assoc] at h ⊢
        rw [List.append_assoc] at hm ⊢
        have hturn := hf hb (hr.append w₂) hm
        have hedge : SameEdge p (w₁.reverse ++ before) (w₁.reverse ++ before') := hb.append _
        have hturns := ih n' w₂ _ _ rest rest' gs (by omega) hedge hr h
        apply List.mem_append_left
        apply List.mem_flatMap.2
        exact ⟨_, List.mem_filter.2 ⟨hturn, by simpa using hpos⟩, hturns⟩
    · have hw : w = [] := by
        have := congrArg (List.length ∘ Pos.rest) (List.mem_singleton.1 h)
        exact List.length_eq_zero_iff.1 (by simpa using this)
      subst hw
      cases n' with
      | zero => exact List.mem_singleton_self _
      | succ n' => exact List.mem_append_right _ (List.mem_singleton_self _)

/-- A match in one place is a match in another with the same edges. -/
theorem carries_run {p : α → Bool} (r : Regex α γ) (hr : Carried p r) : Carries p (run r) := by
  induction r with
  | empty =>
    intro w before before' rest rest' gs _ _ h
    have hw : w = [] := by
      have := congrArg (List.length ∘ Pos.rest) (List.mem_singleton.1 h)
      exact List.length_eq_zero_iff.1 (by simpa using this)
    subst hw
    exact List.mem_singleton_self _
  | one q =>
    intro w before before' rest rest' gs _ _ h
    obtain ⟨c, hc, hmove, -⟩ := moves_one h
    obtain rfl : w = [c] := by
      have hwhole : Moves ⟨before, w ++ rest, gs⟩ w ⟨w.reverse ++ before, rest, gs⟩ := ⟨rfl, rfl⟩
      exact hwhole.unique hmove
    simp [run, hc]
  | seq r t ihr iht =>
    intro w before before' rest rest' gs hb hrest h
    obtain ⟨m, hm, h⟩ := List.mem_flatMap.1 h
    obtain ⟨w₁, w₂, rfl, rfl⟩ := between (moves_run r _ _ hm) (moves_run t _ _ h)
      (groups_run r (plain_of_carried hr.1) _ _ hm)
    rw [List.reverse_append, List.append_assoc] at h ⊢
    rw [List.append_assoc] at hm ⊢
    have hfirst := ihr hr.1 hb (hrest.append w₂) hm
    have hedge : SameEdge p (w₁.reverse ++ before) (w₁.reverse ++ before') := hb.append _
    exact List.mem_flatMap.2 ⟨_, hfirst, iht hr.2 hedge hrest h⟩
  | alt r t ihr iht =>
    intro w before before' rest rest' gs hb hrest h
    rcases List.mem_append.1 h with h | h
    · exact List.mem_append_left _ (ihr hr.1 hb hrest h)
    · exact List.mem_append_right _ (iht hr.2 hb hrest h)
  | many r ih =>
    intro w before before' rest rest' gs hb hrest h
    exact carries_again (moves_run r) (groups_run r (plain_of_carried (r := r) hr)) (ih hr) _ _
      w before before' rest rest' gs (by simp) hb hrest h
  | boundary q =>
    intro w before before' rest rest' gs hb hrest h
    obtain rfl : q = p := hr
    have hw : w = [] := by
      have := congrArg (List.length ∘ Pos.rest) (eq_of_mem_check h)
      exact List.length_eq_zero_iff.1 (by simpa using this)
    subst hw
    have hb' : before.head?.any q = before'.head?.any q := hb
    have hr' : rest.head?.any q = rest'.head?.any q := hrest
    simp only [List.nil_append, List.reverse_nil, run, hb', hr', check] at h ⊢
    split at h
    · rename_i hcheck
      rw [if_pos hcheck]
      exact List.mem_singleton_self _
    · exact absurd h List.not_mem_nil
  | manyLazy _ _ => exact absurd hr (by simp [Carried])
  | group _ _ _ => exact absurd hr (by simp [Carried])
  | atomic _ _ => exact absurd hr (by simp [Carried])
  | ahead _ _ => exact absurd hr (by simp [Carried])
  | notAhead _ _ => exact absurd hr (by simp [Carried])
  | notBehind _ => exact absurd hr (by simp [Carried])
  | atEnd => exact absurd hr (by simp [Carried])

end Regex

/-! ## One step of a replacement -/

namespace Pattern

variable {α γ : Type}

theorem subFrom_none {r : Pattern α γ} {repl : Regex.Match α γ → List α} {before : List α} {c : α}
    {rest : List α} (h : r.regex.matchAt before (c :: rest) = none) :
    r.subFrom repl before (c :: rest) 0 = c :: r.subFrom repl (c :: before) rest 0 := by
  simp [subFrom, h]

theorem subFrom_some {r : Pattern α γ} {repl : Regex.Match α γ → List α} {before rest : List α}
    {m : Regex.Match α γ} (h : r.regex.matchAt before (m.text ++ rest) = some m) :
    r.subFrom repl before (m.text ++ rest) 0 =
      repl m ++ r.subFrom repl (m.text.reverse ++ before) rest 0 := by
  cases htext : m.text with
  | nil =>
    obtain ⟨-, hne, -⟩ := text_of_matchAt h
    exact absurd htext hne
  | cons c w =>
    rw [htext] at h
    rw [List.cons_append] at h ⊢
    have hlen : m.text.length - 1 = w.length := by simp [htext]
    rw [subFrom, h]
    simp only [hlen, subFrom_skip, List.reverse_cons, List.append_assoc, List.singleton_append]

/-- A text is gone over from left to right. -/
theorem sub_induction (r : Pattern α γ) {motive : List α → List α → Prop}
    (nil : ∀ before, motive before [])
    (keep : ∀ before c rest, r.regex.matchAt before (c :: rest) = none →
      motive (c :: before) rest → motive before (c :: rest))
    (found : ∀ before m rest, r.regex.matchAt before (m.text ++ rest) = some m →
      motive (m.text.reverse ++ before) rest → motive before (m.text ++ rest)) :
    ∀ before rest, motive before rest := by
  suffices h : ∀ n before rest, rest.length ≤ n → motive before rest from
    fun before rest => h rest.length before rest (Nat.le_refl _)
  intro n
  induction n with
  | zero =>
    intro before rest hn
    rw [List.length_eq_zero_iff.1 (Nat.le_zero.1 hn)]
    exact nil before
  | succ n ih =>
    intro before rest hn
    cases rest with
    | nil => exact nil before
    | cons c rest =>
      cases hm : r.regex.matchAt before (c :: rest) with
      | none => exact keep before c rest hm (ih _ _ (by simpa using hn))
      | some m =>
        obtain ⟨rest', hne, heq⟩ := text_of_matchAt hm
        rw [heq] at hm hn ⊢
        refine found before m rest' hm (ih _ _ ?_)
        have hpos := List.length_pos_iff.2 hne
        rw [List.length_append] at hn
        omega

end Pattern

end Lib
