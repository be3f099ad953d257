import Mathlib.Data.List.Basic

/-!
# Backtracking regular expressions

A matcher that tries its alternatives in order, as `re` does: `run` lists every way an expression
matches at a position, the preferred one first, and a search takes the head. Characters are of any
type and a class is a predicate on them; a lookbehind sees one character, a group records the text
it matched under a name of type `γ`.
-/

namespace Lib

inductive Regex (α γ : Type)
  | empty
  | one (p : α → Bool)
  | seq (r s : Regex α γ)
  | alt (r s : Regex α γ)
  | many (r : Regex α γ)
  | manyLazy (r : Regex α γ)
  | group (name : γ) (r : Regex α γ)
  | atomic (r : Regex α γ)
  | ahead (r : Regex α γ)
  | notAhead (r : Regex α γ)
  | notBehind (p : α → Bool)
  | boundary (p : α → Bool)
  | atEnd

namespace Regex

variable {α γ : Type}

/-- Where a match stands: the text before it (nearest character first), the text after it and the
groups closed so far (the last one first). -/
structure Pos (α γ : Type) where
  before : List α
  rest : List α
  groups : List (γ × List α)

/-- What lies between two positions of one match. -/
def Pos.upTo (s s' : Pos α γ) : List α := s.rest.take (s.rest.length - s'.rest.length)

/-- `f` any number of times, at most `n`, as often as it goes. A turn that consumes nothing ends
the loop, so the length of the text is enough turns. -/
@[grind =] def again (f : Pos α γ → List (Pos α γ)) : Nat → Pos α γ → List (Pos α γ)
  | 0, s => [s]
  | n + 1, s => ((f s).filter (·.rest.length < s.rest.length)).flatMap (again f n) ++ [s]

/-- `again`, as seldom as it goes. -/
def againLazy (f : Pos α γ → List (Pos α γ)) : Nat → Pos α γ → List (Pos α γ)
  | 0, s => [s]
  | n + 1, s => s :: ((f s).filter (·.rest.length < s.rest.length)).flatMap (againLazy f n)

/-- A condition on the place, which consumes nothing. -/
def check (holds : Bool) (s : Pos α γ) : List (Pos α γ) := if holds then [s] else []

@[grind =] def run : Regex α γ → Pos α γ → List (Pos α γ)
  | empty, s => [s]
  | one p, s =>
    match s.rest with
    | [] => []
    | c :: rest => if p c then [{ s with before := c :: s.before, rest := rest }] else []
  | seq r t, s => (run r s).flatMap (run t)
  | alt r t, s => run r s ++ run t s
  | many r, s => again (run r) s.rest.length s
  | manyLazy r, s => againLazy (run r) s.rest.length s
  | group name r, s => (run r s).map fun s' => { s' with groups := (name, s.upTo s') :: s'.groups }
  | atomic r, s => (run r s).take 1
  | ahead r, s => check (!(run r s).isEmpty) s
  | notAhead r, s => check (run r s).isEmpty s
  | notBehind p, s => check (!s.before.head?.any p) s
  | boundary p, s => check (s.before.head?.any p != s.rest.head?.any p) s
  | atEnd, s => check s.rest.isEmpty s

/-! ## Derived forms -/

def lit [DecidableEq α] : List α → Regex α γ
  | [] => empty
  | c :: cs => seq (one (· = c)) (lit cs)

/-- `lit` with each character up to `eqv`. -/
def litBy (eqv : α → α → Bool) : List α → Regex α γ
  | [] => empty
  | c :: cs => seq (one (eqv · c)) (litBy eqv cs)

def plus (r : Regex α γ) : Regex α γ := seq r (many r)

def opt (r : Regex α γ) : Regex α γ := alt r empty

/-- `r*+`, which gives nothing back. -/
def possessive (r : Regex α γ) : Regex α γ := atomic (many r)

def times : Nat → Regex α γ → Regex α γ
  | 0, _ => empty
  | n + 1, r => seq r (times n r)

/-- The alternatives of a list, in its order. -/
def alts : Regex α γ → List (Regex α γ) → Regex α γ
  | r, [] => r
  | r, t :: ts => alt r (alts t ts)

/-! ## A match moves forward -/

/-- `s'` is `s` after the text `w`. -/
def Moves (s : Pos α γ) (w : List α) (s' : Pos α γ) : Prop :=
  s.rest = w ++ s'.rest ∧ s'.before = w.reverse ++ s.before

theorem Moves.refl (s : Pos α γ) : Moves s [] s := ⟨rfl, rfl⟩

theorem Moves.trans {s s' s'' : Pos α γ} {w w' : List α} (h : Moves s w s')
    (h' : Moves s' w' s'') : Moves s (w ++ w') s'' := by
  constructor
  · rw [h.1, h'.1, List.append_assoc]
  · rw [h'.2, h.2, List.reverse_append, List.append_assoc]

theorem Moves.upTo_eq {s s' : Pos α γ} {w : List α} (h : Moves s w s') : s.upTo s' = w := by
  have hlen : s.rest.length - s'.rest.length = w.length := by
    rw [h.1, List.length_append, Nat.add_sub_cancel]
  rw [Pos.upTo, hlen, h.1, List.take_left]

theorem eq_of_mem_check {holds : Bool} {s s' : Pos α γ} (h : s' ∈ check holds s) : s' = s := by
  cases holds with
  | true => exact List.mem_singleton.1 h
  | false => exact absurd h (by simp [check])

theorem moves_check {holds : Bool} {s s' : Pos α γ} (h : s' ∈ check holds s) :
    ∃ w, Moves s w s' :=
  ⟨[], eq_of_mem_check h ▸ .refl s⟩

theorem Moves.unique {s s' : Pos α γ} {w w' : List α} (h : Moves s w s') (h' : Moves s w' s') :
    w = w' :=
  h.upTo_eq.symm.trans h'.upTo_eq

theorem moves_one {p : α → Bool} {s s' : Pos α γ} (h : s' ∈ run (one p) s) :
    ∃ c, p c = true ∧ Moves s [c] s' ∧ s'.groups = s.groups := by
  obtain ⟨before, rest, groups⟩ := s
  cases rest with
  | nil => exact absurd h (by simp [run])
  | cons c rest =>
    by_cases hp : p c = true
    · have : s' = ⟨c :: before, rest, groups⟩ := by simpa [run, hp] using h
      rw [this]
      exact ⟨c, hp, ⟨rfl, rfl⟩, rfl⟩
    · exact absurd h (by simp [run, hp])

theorem moves_again {f : Pos α γ → List (Pos α γ)}
    (hf : ∀ s s', s' ∈ f s → ∃ w, Moves s w s') :
    ∀ n s s', s' ∈ again f n s → ∃ w, Moves s w s' := by
  intro n
  induction n with
  | zero =>
    intro s s' h
    rw [List.mem_singleton.1 h]
    exact ⟨[], .refl s⟩
  | succ n ih =>
    intro s s' h
    rcases List.mem_append.1 h with h | h
    · obtain ⟨t, ht, hs'⟩ := List.mem_flatMap.1 h
      obtain ⟨w, hw⟩ := hf s t (List.mem_of_mem_filter ht)
      obtain ⟨w', hw'⟩ := ih t s' hs'
      exact ⟨w ++ w', hw.trans hw'⟩
    · rw [List.mem_singleton.1 h]
      exact ⟨[], .refl s⟩

theorem mem_againLazy {f : Pos α γ → List (Pos α γ)} :
    ∀ n s s', s' ∈ againLazy f n s ↔ s' ∈ again f n s := by
  intro n
  induction n with
  | zero => intro s s'; rfl
  | succ n ih =>
    intro s s'
    simp only [againLazy, again, List.mem_cons, List.mem_append, List.mem_flatMap, ih,
      List.not_mem_nil, or_false]
    exact or_comm

theorem moves_run (r : Regex α γ) : ∀ s s', s' ∈ run r s → ∃ w, Moves s w s' := by
  induction r with
  | empty =>
    intro s s' h
    rw [List.mem_singleton.1 h]
    exact ⟨[], .refl s⟩
  | one p =>
    intro s s' h
    obtain ⟨c, -, hc, -⟩ := moves_one h
    exact ⟨[c], hc⟩
  | seq r t ihr iht =>
    intro s s' h
    obtain ⟨m, hm, hs'⟩ := List.mem_flatMap.1 h
    obtain ⟨w, hw⟩ := ihr s m hm
    obtain ⟨w', hw'⟩ := iht m s' hs'
    exact ⟨w ++ w', hw.trans hw'⟩
  | alt r t ihr iht =>
    intro s s' h
    rcases List.mem_append.1 h with h | h
    · exact ihr s s' h
    · exact iht s s' h
  | many r ih => exact fun s s' h => moves_again ih _ s s' h
  | manyLazy r ih =>
    intro s s' h
    exact moves_again ih _ s s' ((mem_againLazy _ s s').1 h)
  | group name r ih =>
    intro s s' h
    obtain ⟨m, hm, rfl⟩ := List.mem_map.1 h
    exact ih s m hm
  | atomic r ih => exact fun s s' h => ih s s' (List.mem_of_mem_take h)
  | ahead r _ => exact fun s s' h => moves_check h
  | notAhead r _ => exact fun s s' h => moves_check h
  | notBehind p => exact fun s s' h => moves_check h
  | boundary p => exact fun s s' h => moves_check h
  | atEnd => exact fun s s' h => moves_check h

/-! ## The preferred way through a loop -/

theorem again_stop {f : Pos α γ → List (Pos α γ)} {s : Pos α γ} (h : f s = []) (n : Nat) :
    again f n s = [s] := by
  cases n with
  | zero => rfl
  | succ n => rw [again, h, List.filter_nil, List.flatMap_nil, List.nil_append]

theorem again_turn {f : Pos α γ → List (Pos α γ)} {n : Nat} {s t s' : Pos α γ}
    (ht : (f s).head? = some t) (hlt : t.rest.length < s.rest.length)
    (h : (again f n t).head? = some s') : (again f (n + 1) s).head? = some s' := by
  obtain ⟨ts, hf⟩ := List.head?_eq_some_iff.1 ht
  obtain ⟨us, hagain⟩ := List.head?_eq_some_iff.1 h
  have hshorter : decide (t.rest.length < s.rest.length) = true := decide_eq_true hlt
  rw [again, hf, List.filter_cons, if_pos hshorter, List.flatMap_cons, hagain]
  rfl

/-! ## Words and lists of alternatives -/

theorem run_lit [DecidableEq α] (v : List α) :
    ∀ (before rest : List α) (groups : List (γ × List α)),
      run (lit v) ⟨before, v ++ rest, groups⟩ = [⟨v.reverse ++ before, rest, groups⟩] := by
  induction v with
  | nil => exact fun _ _ _ => rfl
  | cons c v ih =>
    intro before rest groups
    simp [lit, run, ih]

theorem run_lit_eq_nil [DecidableEq α] {v : List α} :
    ∀ {s : Pos α γ}, ¬ v <+: s.rest → run (lit v) s = [] := by
  induction v with
  | nil => exact fun h => absurd List.nil_prefix h
  | cons c v ih =>
    intro s h
    obtain ⟨before, rest, groups⟩ := s
    cases rest with
    | nil => rfl
    | cons d rest =>
      by_cases hd : d = c
      · subst hd
        have : ¬ v <+: rest := fun hp => h (List.cons_prefix_cons.2 ⟨rfl, hp⟩)
        have hrun : run (lit v) ⟨d :: before, rest, groups⟩ = [] := ih this
        simp [lit, run, hrun]
      · simp [lit, run, hd]

theorem mem_run_alts {r t : Regex α γ} {ts : List (Regex α γ)} {s s' : Pos α γ}
    (ht : t ∈ r :: ts) (h : s' ∈ run t s) : s' ∈ run (alts r ts) s := by
  induction ts generalizing r with
  | nil => exact List.mem_singleton.1 ht ▸ h
  | cons q ts ih =>
    rcases List.mem_cons.1 ht with rfl | ht
    · exact List.mem_append_left _ h
    · exact List.mem_append_right _ (ih ht)

/-! ## How much a match consumes at least -/

def minLen : Regex α γ → Nat
  | one _ => 1
  | seq r t => minLen r + minLen t
  | alt r t => min (minLen r) (minLen t)
  | group _ r => minLen r
  | atomic r => minLen r
  | _ => 0

theorem minLen_seq_pos {r t : Regex α γ} (h : 0 < t.minLen) : 0 < (seq r t).minLen :=
  Nat.lt_of_lt_of_le h (Nat.le_add_left _ _)

theorem minLen_le (r : Regex α γ) :
    ∀ s s', s' ∈ run r s → minLen r + s'.rest.length ≤ s.rest.length := by
  -- An expression of minimum zero is a case of `moves_run`.
  have base : ∀ (t : Regex α γ) (s s' : Pos α γ), s' ∈ run t s →
      0 + s'.rest.length ≤ s.rest.length := by
    intro t s s' h
    obtain ⟨w, hw, -⟩ := moves_run t s s' h
    rw [hw, List.length_append]
    omega
  induction r with
  | one p =>
    intro s s' h
    obtain ⟨c, -, hc, -⟩ := moves_one h
    exact Nat.le_of_eq (by rw [hc.1, List.length_append, minLen, List.length_singleton])
  | seq r t ihr iht =>
    intro s s' h
    obtain ⟨m, hm, hs'⟩ := List.mem_flatMap.1 h
    have h1 := ihr s m hm
    have h2 := iht m s' hs'
    simp only [minLen]
    omega
  | alt r t ihr iht =>
    intro s s' h
    simp only [minLen]
    rcases List.mem_append.1 h with h | h
    · have := ihr s s' h
      omega
    · have := iht s s' h
      omega
  | group name r ih =>
    intro s s' h
    obtain ⟨m, hm, rfl⟩ := List.mem_map.1 h
    exact ih s m hm
  | atomic r ih => exact fun s s' h => ih s s' (List.mem_of_mem_take h)
  | empty => exact base empty
  | many r _ => exact base (many r)
  | manyLazy r _ => exact base (manyLazy r)
  | ahead r _ => exact base (ahead r)
  | notAhead r _ => exact base (notAhead r)
  | notBehind p => exact base (notBehind p)
  | boundary p => exact base (boundary p)
  | atEnd => exact base atEnd

/-! ## Groups -/

/-- No group inside. -/
def plain : Regex α γ → Bool
  | seq r t => plain r && plain t
  | alt r t => plain r && plain t
  | many r => plain r
  | manyLazy r => plain r
  | group _ _ => false
  | atomic r => plain r
  | _ => true

theorem groups_again {f : Pos α γ → List (Pos α γ)}
    (hf : ∀ s s', s' ∈ f s → s'.groups = s.groups) :
    ∀ n s s', s' ∈ again f n s → s'.groups = s.groups := by
  intro n
  induction n with
  | zero =>
    intro s s' h
    rw [List.mem_singleton.1 h]
  | succ n ih =>
    intro s s' h
    rcases List.mem_append.1 h with h | h
    · obtain ⟨t, ht, hs'⟩ := List.mem_flatMap.1 h
      exact (ih t s' hs').trans (hf s t (List.mem_of_mem_filter ht))
    · rw [List.mem_singleton.1 h]

theorem groups_run (r : Regex α γ) (hr : r.plain = true) :
    ∀ s s', s' ∈ run r s → s'.groups = s.groups := by
  induction r with
  | empty => exact fun s s' h => by rw [List.mem_singleton.1 h]
  | one p =>
    intro s s' h
    obtain ⟨c, -, -, hgroups⟩ := moves_one h
    exact hgroups
  | seq r t ihr iht =>
    intro s s' h
    obtain ⟨hr, ht⟩ := Bool.and_eq_true_iff.1 hr
    obtain ⟨m, hm, hs'⟩ := List.mem_flatMap.1 h
    exact (iht ht m s' hs').trans (ihr hr s m hm)
  | alt r t ihr iht =>
    intro s s' h
    obtain ⟨hr, ht⟩ := Bool.and_eq_true_iff.1 hr
    rcases List.mem_append.1 h with h | h
    · exact ihr hr s s' h
    · exact iht ht s s' h
  | many r ih => exact fun s s' h => groups_again (ih hr) _ s s' h
  | manyLazy r ih =>
    intro s s' h
    exact groups_again (ih hr) _ s s' ((mem_againLazy _ s s').1 h)
  | group name r _ => exact absurd hr (by simp [plain])
  | atomic r ih => exact fun s s' h => ih hr s s' (List.mem_of_mem_take h)
  | ahead r _ => exact fun s s' h => congrArg Pos.groups (eq_of_mem_check h)
  | notAhead r _ => exact fun s s' h => congrArg Pos.groups (eq_of_mem_check h)
  | notBehind p => exact fun s s' h => congrArg Pos.groups (eq_of_mem_check h)
  | boundary p => exact fun s s' h => congrArg Pos.groups (eq_of_mem_check h)
  | atEnd => exact fun s s' h => congrArg Pos.groups (eq_of_mem_check h)

/-! ## Searching and replacing -/

/-- A match: the text it covers and its groups. -/
structure Match (α γ : Type) where
  text : List α
  groups : List (γ × List α)

/-- The text of a group, the empty one where the group took no part. -/
def Match.group [DecidableEq γ] (m : Match α γ) (name : γ) : List α :=
  (m.groups.lookup name).getD []

/-- The preferred match at a place. -/
def matchAt (r : Regex α γ) (before rest : List α) : Option (Match α γ) :=
  (run r ⟨before, rest, []⟩).head?.map fun s' => ⟨Pos.upTo ⟨before, rest, []⟩ s', s'.groups⟩

theorem matchAt_eq_some {r : Regex α γ} {before rest : List α} {m : Match α γ}
    (h : r.matchAt before rest = some m) :
    ∃ s', s' ∈ run r ⟨before, rest, []⟩ ∧ Moves ⟨before, rest, []⟩ m.text s' ∧
      m.groups = s'.groups := by
  obtain ⟨s', hs', rfl⟩ := Option.map_eq_some_iff.1 h
  have hmem : s' ∈ run r ⟨before, rest, []⟩ := List.mem_of_mem_head? hs'
  obtain ⟨w, hw⟩ := moves_run r _ _ hmem
  exact ⟨s', hmem, hw.upTo_eq ▸ hw, rfl⟩

/-- A match of two expressions in sequence, the first of them a group. -/
theorem matchAt_group_seq {name : γ} {r t : Regex α γ} {before rest : List α} {m : Match α γ}
    (h : (seq (group name r) t).matchAt before rest = some m) :
    ∃ s s' w w' gs, m.text = w ++ w' ∧ s.groups = (name, w) :: gs ∧ s' ∈ run t s ∧
      Moves s w' s' ∧ m.groups = s'.groups := by
  obtain ⟨s', hmem, hmoves, hgroups⟩ := matchAt_eq_some h
  obtain ⟨s₁, hs₁, hs'⟩ := List.mem_flatMap.1 hmem
  obtain ⟨s₀, hs₀, rfl⟩ := List.mem_map.1 hs₁
  obtain ⟨w, hw⟩ := moves_run r _ _ hs₀
  obtain ⟨w', hw'⟩ := moves_run t _ _ hs'
  have htext : m.text = w ++ w' := hmoves.unique (hw.trans hw')
  exact ⟨_, s', w, w', s₀.groups, htext, by rw [hw.upTo_eq], hs', hw', hgroups⟩

theorem matchAt_ne_none {r : Regex α γ} {before rest : List α} {s' : Pos α γ}
    (h : s' ∈ run r ⟨before, rest, []⟩) : r.matchAt before rest ≠ none := by
  cases hrun : run r ⟨before, rest, []⟩ with
  | nil => exact absurd (hrun ▸ h) List.not_mem_nil
  | cons t ts => simp [matchAt, hrun]

end Regex

/-- An expression that matches no empty text, so that a search can go on behind each match. -/
structure Pattern (α γ : Type) where
  regex : Regex α γ
  solid : 0 < regex.minLen

namespace Pattern

variable {α γ : Type}

/-- The text with each match replaced, from left to right: `skip` characters of a match are still
to be passed over. -/
def subFrom (r : Pattern α γ) (repl : Regex.Match α γ → List α) :
    List α → List α → Nat → List α
  | _, [], _ => []
  | before, c :: rest, skip + 1 => subFrom r repl (c :: before) rest skip
  | before, c :: rest, 0 =>
    match r.regex.matchAt before (c :: rest) with
    | some m => repl m ++ subFrom r repl (c :: before) rest (m.text.length - 1)
    | none => c :: subFrom r repl (c :: before) rest 0

def sub (r : Pattern α γ) (repl : Regex.Match α γ → List α) (text : List α) : List α :=
  r.subFrom repl [] text 0

theorem text_of_matchAt {r : Pattern α γ} {before rest : List α} {m : Regex.Match α γ}
    (h : r.regex.matchAt before rest = some m) : ∃ rest', m.text ≠ [] ∧ rest = m.text ++ rest' := by
  obtain ⟨s', hmem, hmoves, -⟩ := Regex.matchAt_eq_some h
  have hlen := Regex.minLen_le r.regex _ _ hmem
  refine ⟨s'.rest, ?_, hmoves.1⟩
  rintro hnil
  have := r.solid
  have hrest : rest = s'.rest := by simpa [hnil] using hmoves.1
  simp only [hrest] at hlen
  omega

/-- A match is passed over. -/
theorem subFrom_skip (r : Pattern α γ) (repl : Regex.Match α γ → List α) (w : List α) :
    ∀ before rest, r.subFrom repl before (w ++ rest) w.length =
      r.subFrom repl (w.reverse ++ before) rest 0 := by
  induction w with
  | nil => exact fun _ _ => rfl
  | cons c w ih =>
    intro before rest
    rw [List.cons_append, List.length_cons, subFrom, ih, List.reverse_cons, List.append_assoc]
    rfl

theorem subFrom_length (r : Pattern α γ) (repl : Regex.Match α γ → List α) :
    ∀ rest before, r.subFrom repl before rest rest.length = [] := by
  intro rest
  induction rest with
  | nil => exact fun _ => rfl
  | cons c rest ih => exact fun before => ih (c :: before)

/-- A text that is one match. -/
theorem sub_of_matchAt {r : Pattern α γ} {repl : Regex.Match α γ → List α} {text : List α}
    {m : Regex.Match α γ} (h : r.regex.matchAt [] text = some m) (htext : m.text = text) :
    r.sub repl text = repl m := by
  cases text with
  | nil => exact absurd htext (text_of_matchAt h).choose_spec.1
  | cons c rest =>
    have hlen : m.text.length - 1 = rest.length := by simp [htext]
    simp [sub, subFrom, h, hlen, subFrom_length]

/-- A text without a match. -/
theorem sub_of_matchAt_none {r : Pattern α γ} {repl : Regex.Match α γ → List α} :
    ∀ rest before, (∀ a b, rest = a ++ b → r.regex.matchAt (a.reverse ++ before) b = none) →
      r.subFrom repl before rest 0 = rest := by
  intro rest
  induction rest with
  | nil => exact fun _ _ => rfl
  | cons c rest ih =>
    intro before h
    have hfirst : r.regex.matchAt before (c :: rest) = none := h [] (c :: rest) rfl
    have hrest := ih (c :: before) fun a b hab => by
      have := h (c :: a) b (by rw [hab]; rfl)
      simpa using this
    simp [subFrom, hfirst, hrest]

end Pattern

end Lib
