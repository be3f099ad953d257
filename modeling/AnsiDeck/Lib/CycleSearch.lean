import AnsiDeck.Lib.Except
import AnsiDeck.Lib.Load
import Mathlib.Logic.Relation

/-!
# Looking for a cycle depth first

A walk from every root in turn, with a stack of what is left of each vertex's children. A child that
is on the stack closes a cycle; one that was left before does not, since everything it reaches was
left before it. `search_eq_ok_iff`: the walk finds none just when there is none.

The walk has fuel. Every turn takes a child off a list or a vertex off the stack, and what a vertex
brings onto the stack it brings once (`load`). So the fuel is enough, and the loops without it end
the same way (`searches_search`).
-/

namespace Lib

namespace CycleSearch

open Relation

universe u

variable {α : Type u} (children : α → List α)

/-! ## Orders and paths -/

/-- `v` contains `c` directly. -/
def Contains (v c : α) : Prop := c ∈ children v

/-- Each vertex comes once, before all it contains. -/
def Ordered : List α → Prop
  | [] => True
  | v :: vs => (∀ c ∈ children v, c ∈ vs) ∧ v ∉ vs ∧ Ordered vs

/-- Of the children that are no longer to come all are left but the one above in the stack, which is
one of them. -/
def Stacked (left : List α) : Option α → List (α × List α) → Prop
  | _, [] => True
  | above, (v, rest) :: stack =>
    (∃ seen, children v = seen ++ rest ∧ (∀ c ∈ seen, c ∈ left ∨ above = some c) ∧
      ∀ c ∈ above, c ∈ seen) ∧ Stacked left (some v) stack

variable {children}

theorem Ordered.contains {left : List α} (h : Ordered children left) {v c : α} (hv : v ∈ left)
    (hc : Contains children v c) : c ∈ left := by
  induction left with
  | nil => exact absurd hv List.not_mem_nil
  | cons w left ih =>
    obtain ⟨hchildren, -, hrest⟩ := h
    rcases List.mem_cons.1 hv with rfl | hv
    · exact List.mem_cons_of_mem _ (hchildren c hc)
    · exact List.mem_cons_of_mem _ (ih hrest hv)

theorem Ordered.reaches {left : List α} (h : Ordered children left) {v w : α}
    (hchildren : ∀ c ∈ children v, c ∈ left)
    (hw : TransGen (Contains children) v w) : w ∈ left := by
  induction hw with
  | single hc => exact hchildren _ hc
  | tail _ hc ih => exact h.contains ih hc

/-- No vertex of an ordered list contains itself. -/
theorem Ordered.acyclic {left : List α} (h : Ordered children left) {v : α} (hv : v ∈ left) :
    ¬ TransGen (Contains children) v v := by
  induction left with
  | nil => exact absurd hv List.not_mem_nil
  | cons w left ih =>
    obtain ⟨hchildren, hnot, hrest⟩ := h
    rcases List.mem_cons.1 hv with rfl | hv
    · exact fun hcycle => hnot (Ordered.reaches hrest hchildren hcycle)
    · exact ih hrest hv

theorem Stacked.mono {left left' : List α} (hsub : ∀ c ∈ left, c ∈ left') {above : Option α}
    {stack : List (α × List α)} (h : Stacked children left above stack) :
    Stacked children left' above stack := by
  induction stack generalizing above with
  | nil => trivial
  | cons e stack ih =>
    obtain ⟨⟨seen, heq, hseen, habove⟩, hrest⟩ := h
    refine ⟨⟨seen, heq, fun c hc => ?_, habove⟩, ih hrest⟩
    rcases hseen c hc with hc | hc
    · exact .inl (hsub c hc)
    · exact .inr hc

/-- What is left behind is no longer above. -/
theorem Stacked.leave {left : List α} {v : α} {stack : List (α × List α)}
    (h : Stacked children left (some v) stack) : Stacked children (v :: left) none stack := by
  cases stack with
  | nil => trivial
  | cons e stack =>
    obtain ⟨⟨seen, heq, hseen, -⟩, hrest⟩ := h
    refine ⟨⟨seen, heq, fun c hc => .inl ?_, fun c hc => absurd hc (by simp)⟩,
      hrest.mono fun c hc => List.mem_cons_of_mem v hc⟩
    rcases hseen c hc with hc | hc
    · exact List.mem_cons_of_mem v hc
    · obtain rfl := Option.some.inj hc
      exact List.mem_cons_self ..

/-- Every vertex on the stack reaches the one above it. -/
theorem Stacked.reaches {left : List α} {a : α} {stack : List (α × List α)}
    (h : Stacked children left (some a) stack) {v : α} (hv : v ∈ stack.map Prod.fst) :
    TransGen (Contains children) v a := by
  induction stack generalizing a with
  | nil => exact absurd hv List.not_mem_nil
  | cons e stack ih =>
    obtain ⟨⟨seen, heq, -, habove⟩, hrest⟩ := h
    have hedge : Contains children e.1 a := by
      show a ∈ children e.1
      rw [heq]
      exact List.mem_append_left _ (habove a rfl)
    rcases List.mem_cons.1 hv with rfl | hv
    · exact .single hedge
    · exact (ih hrest hv).tail hedge

/-! ## What the walk keeps -/

inductive Mark
  | path
  | done
  deriving DecidableEq

structure State (α : Type u) where
  marks : α → Option Mark
  /-- The path to where the walk is, the last vertex first, with the children yet to come. -/
  stack : List (α × List α)

variable (children)

/-- `left` are the vertices that were left, the last first. -/
structure Kept (left : List α) (marks : α → Option Mark) (stack : List (α × List α)) : Prop where
  done : ∀ v, marks v = some .done ↔ v ∈ left
  path : ∀ v, marks v = some .path ↔ v ∈ stack.map Prod.fst
  ordered : Ordered children left
  nodup : (stack.map Prod.fst).Nodup
  stacked : Stacked children left none stack

variable {children}

theorem kept_nothing (children : α → List α) : Kept children [] (fun _ => none) [] :=
  ⟨fun _ => by simp, fun _ => by simp, trivial, List.nodup_nil, trivial⟩

/-- A child that was left is passed over. -/
theorem Kept.pass {left : List α} {marks : α → Option Mark} {v c : α} {rest : List α}
    {stack : List (α × List α)} (h : Kept children left marks ((v, c :: rest) :: stack))
    (hc : marks c = some .done) : Kept children left marks ((v, rest) :: stack) := by
  obtain ⟨hdone, hpath, hordered, hnodup, ⟨seen, heq, hseen, -⟩, hrest⟩ := h
  refine ⟨hdone, hpath, hordered, hnodup, ⟨seen ++ [c], ?_, fun w hw => ?_, ?_⟩, hrest⟩
  · rw [heq, List.append_assoc]
    rfl
  · rcases List.mem_append.1 hw with hw | hw
    · exact hseen w hw
    · rw [List.mem_singleton.1 hw]
      exact .inl ((hdone c).1 hc)
  · exact fun w hw => absurd hw (by simp)

variable (children)

/-- What all these vertices bring onto the stack, each once. -/
def total (vertices : List α) : Nat := (vertices.map fun v => (children v).length + 1).sum

/-- Each vertex's children are vertices, and so is what is on the stack. -/
structure Inside (vertices : List α) (stack : List (α × List α)) : Prop where
  children : ∀ v ∈ vertices, ∀ c ∈ children v, c ∈ vertices
  stack : ∀ v ∈ stack.map Prod.fst, v ∈ vertices

variable {children}

theorem total_filter_le (vertices : List α) {p q : α → Bool}
    (h : ∀ v, p v = true → q v = true) :
    total children (vertices.filter p) ≤ total children (vertices.filter q) :=
  Lib.load_mono h

/-! ## The walk -/

variable [DecidableEq α] (children)

def put (marks : α → Option Mark) (v : α) (mark : Mark) : α → Option Mark :=
  fun w => if w = v then some mark else marks w

/-- One turn of the walk, or the vertex that contains itself. -/
def turn (s : State α) : Except α (State α) :=
  match s.stack with
  | [] => .ok s
  | (v, []) :: stack => .ok ⟨put s.marks v .done, stack⟩
  | (v, c :: rest) :: stack =>
    if s.marks c = some .path then .error c
    else if s.marks c = some .done then .ok { s with stack := (v, rest) :: stack }
    else .ok ⟨put s.marks c .path, (c, children c) :: (v, rest) :: stack⟩

def walk : Nat → State α → Except α (State α)
  | 0, s => .ok s
  | fuel + 1, s =>
    if s.stack.isEmpty then .ok s
    else (turn children s).bind (walk fuel)

/-- The walk from one root, unless it was there before. -/
def visit (fuel : Nat) (marks : α → Option Mark) (root : α) : Except α (α → Option Mark) :=
  if marks root = none then
    (walk children fuel ⟨put marks root .path, [(root, children root)]⟩).map State.marks
  else .ok marks

def search (roots : List α) : Except α Unit :=
  (roots.foldlM (visit children (total children roots)) fun _ => none).map fun _ => ()

/-- What the walk has yet to do: the vertices that bring their children yet, and the stack. -/
def load (vertices : List α) (s : State α) : Nat :=
  total children (vertices.filter fun v => (s.marks v).isNone)
    + (s.stack.map fun e => e.2.length + 1).sum

variable {children}

theorem put_self (marks : α → Option Mark) (v : α) (mark : Mark) : put marks v mark v = some mark :=
  if_pos rfl

theorem put_of_ne (marks : α → Option Mark) {v w : α} (mark : Mark) (h : w ≠ v) :
    put marks v mark w = marks w := if_neg h

theorem put_ne_none {marks : α → Option Mark} {v w : α} {mark : Mark} (h : marks w ≠ none) :
    put marks v mark w ≠ none := by
  by_cases hw : w = v
  · rw [hw, put_self]
    exact Option.some_ne_none _
  · rwa [put_of_ne _ _ hw]

theorem eq_none_of_ne {o : Option Mark} (hpath : o ≠ some .path) (hdone : o ≠ some .done) :
    o = none := by
  cases o with
  | none => rfl
  | some m =>
    cases m with
    | path => exact absurd rfl hpath
    | done => exact absurd rfl hdone

theorem Kept.pop {left : List α} {marks : α → Option Mark} {v : α} {stack : List (α × List α)}
    (h : Kept children left marks ((v, []) :: stack)) :
    Kept children (v :: left) (put marks v .done) stack := by
  obtain ⟨hdone, hpath, hordered, hnodup, ⟨seen, heq, hseen, -⟩, hrest⟩ := h
  obtain ⟨hv, hnodup⟩ := List.nodup_cons.1 hnodup
  have hleft : v ∉ left := fun hmem => by
    have hv1 := (hdone v).2 hmem
    have hv2 := (hpath v).2 (List.mem_cons_self ..)
    rw [hv1] at hv2
    cases hv2
  refine ⟨fun w => ?_, fun w => ?_, ⟨fun c hc => ?_, hleft, hordered⟩, hnodup, hrest.leave⟩
  · by_cases hw : w = v
    · subst hw
      simp [put_self]
    · simp only [put_of_ne _ _ hw, List.mem_cons, hw, false_or]
      exact hdone w
  · by_cases hw : w = v
    · subst hw
      simp only [put_self, Option.some.injEq, reduceCtorEq, false_iff]
      exact hv
    · rw [put_of_ne _ _ hw, hpath w]
      simp [hw]
  · rw [heq, List.append_nil] at hc
    rcases hseen c hc with hc | hc
    · exact hc
    · cases hc

theorem Kept.push {left : List α} {marks : α → Option Mark} {v c : α} {rest : List α}
    {stack : List (α × List α)} (h : Kept children left marks ((v, c :: rest) :: stack))
    (hc : marks c = none) :
    Kept children left (put marks c .path) ((c, children c) :: (v, rest) :: stack) := by
  obtain ⟨hdone, hpath, hordered, hnodup, ⟨seen, heq, hseen, -⟩, hrest⟩ := h
  have hfresh : c ∉ ((v, rest) :: stack).map Prod.fst := fun hmem => by
    have hmark := (hpath c).2 hmem
    rw [hc] at hmark
    cases hmark
  refine ⟨fun w => ?_, fun w => ?_, hordered, List.nodup_cons.2 ⟨hfresh, hnodup⟩,
    ⟨[], rfl, fun w hw => absurd hw List.not_mem_nil, fun w hw => absurd hw (by simp)⟩,
    ⟨seen ++ [c], ?_, fun w hw => ?_, fun w hw => ?_⟩, hrest⟩
  · by_cases hw : w = c
    · subst hw
      have hnot : w ∉ left := fun hmem => by
        rw [(hdone w).2 hmem] at hc
        cases hc
      simp [put_self, hnot]
    · rw [put_of_ne _ _ hw]
      exact hdone w
  · by_cases hw : w = c
    · subst hw
      simp [put_self]
    · rw [put_of_ne _ _ hw, hpath w]
      simp [hw]
  · rw [heq, List.append_assoc]
    rfl
  · rcases List.mem_append.1 hw with hw | hw
    · rcases hseen w hw with hw | hw
      · exact .inl hw
      · cases hw
    · rw [List.mem_singleton.1 hw]
      exact .inr rfl
  · obtain rfl := Option.some.inj hw
    exact List.mem_append_right _ (List.mem_singleton_self _)

theorem Kept.turn {left : List α} {s s' : State α} (h : Kept children left s.marks s.stack)
    (hs : turn children s = .ok s') :
    ∃ left', Kept children left' s'.marks s'.stack ∧ ∀ v, s.marks v ≠ none → s'.marks v ≠ none := by
  obtain ⟨marks, stack⟩ := s
  rw [CycleSearch.turn] at hs
  split at hs
  · cases hs
    exact ⟨left, h, fun _ hv => hv⟩
  · next hstack =>
    obtain rfl : stack = _ := hstack
    cases hs
    exact ⟨_, h.pop, fun _ hv => put_ne_none hv⟩
  · next v c rest stack' hstack =>
    obtain rfl : stack = _ := hstack
    split at hs
    · cases hs
    · next hpath =>
      split at hs
      · next hdone =>
        cases hs
        exact ⟨left, h.pass hdone, fun _ hv => hv⟩
      · next hdone =>
        cases hs
        exact ⟨left, h.push (eq_none_of_ne hpath hdone), fun _ hv => put_ne_none hv⟩

/-- A child on the path contains itself. -/
theorem Kept.cycle {left : List α} {s : State α} {c : α} (h : Kept children left s.marks s.stack)
    (hs : CycleSearch.turn children s = .error c) : TransGen (Contains children) c c := by
  obtain ⟨marks, stack⟩ := s
  rw [CycleSearch.turn] at hs
  split at hs
  · cases hs
  · cases hs
  · next v c' rest stack' hstack =>
    obtain rfl : stack = _ := hstack
    split at hs
    · next hmark =>
      cases hs
      obtain ⟨⟨seen, heq, -, -⟩, hrest⟩ := h.stacked
      have hedge : Contains children v c := by
        show c ∈ children v
        rw [heq]
        exact List.mem_append_right _ (List.mem_cons_self ..)
      rcases List.mem_cons.1 ((h.path c).1 hmark) with rfl | hmem
      · exact .single hedge
      · exact (hrest.reaches hmem).tail hedge
    · split at hs
      · cases hs
      · cases hs

/-! ## The walk ends -/

/-- A vertex that is marked brings nothing any more. -/
theorem total_put (children : α → List α) {vertices : List α} {marks : α → Option Mark} {v : α}
    (mark : Mark) (hv : v ∈ vertices) (hnone : marks v = none) :
    total children (vertices.filter fun w => (put marks v mark w).isNone)
        + ((children v).length + 1)
      ≤ total children (vertices.filter fun w => (marks w).isNone) := by
  refine Lib.load_drop (fun w hw => ?_) hv (hnone ▸ rfl) (by rw [put_self]; rfl)
  by_cases hwv : w = v
  · rw [hwv, put_self] at hw
    cases hw
  · rwa [put_of_ne _ _ hwv] at hw

theorem load_turn {vertices left : List α} {s s' : State α} (h : Kept children left s.marks s.stack)
    (hin : Inside children vertices s.stack) (hne : s.stack ≠ []) (hs : turn children s = .ok s') :
    Inside children vertices s'.stack ∧ load children vertices s' < load children vertices s := by
  obtain ⟨marks, stack⟩ := s
  rw [CycleSearch.turn] at hs
  split at hs
  · next hstack => exact absurd hstack hne
  · next v stack' hstack =>
    obtain rfl : stack = _ := hstack
    cases hs
    have hle : total children (vertices.filter fun w => (put marks v .done w).isNone)
        ≤ total children (vertices.filter fun w => (marks w).isNone) :=
      total_filter_le vertices fun w hw => by
        cases hm : marks w with
        | none => rfl
        | some m =>
          have hsome : put marks v .done w ≠ none := put_ne_none (hm ▸ Option.some_ne_none m)
          exact absurd (Option.isNone_iff_eq_none.1 hw) hsome
    refine ⟨⟨hin.children, fun w hw => hin.stack w (List.mem_cons_of_mem _ hw)⟩, ?_⟩
    simp only [load, List.map_cons, List.sum_cons, List.length_nil]
    omega
  · next v c rest stack' hstack =>
    obtain rfl : stack = _ := hstack
    split at hs
    · cases hs
    · split at hs
      · cases hs
        refine ⟨⟨hin.children, hin.stack⟩, ?_⟩
        simp only [load, List.map_cons, List.sum_cons, List.length_cons]
        omega
      · next hpath hdone =>
        cases hs
        obtain ⟨⟨seen, heq, -, -⟩, -⟩ := h.stacked
        have hv : v ∈ vertices := hin.stack v (List.mem_cons_self ..)
        have hc : c ∈ vertices := hin.children v hv c (by
          rw [heq]
          exact List.mem_append_right _ (List.mem_cons_self ..))
        have hnone : marks c = none := eq_none_of_ne hpath hdone
        have hle := total_put children .path hc hnone
        refine ⟨⟨hin.children, fun w hw => ?_⟩, ?_⟩
        · rcases List.mem_cons.1 hw with rfl | hw
          · exact hc
          · exact hin.stack w hw
        · simp only [load, List.map_cons, List.sum_cons, List.length_cons]
          omega

/-! ## The loops themselves

Without fuel: a derivation is a run of the loops that ends. -/

variable (children)

/-- `while stack`. -/
inductive Walks : State α → Except α (State α) → Prop
  | done {s : State α} : s.stack = [] → Walks s (.ok s)
  | raise {s : State α} {c : α} : s.stack ≠ [] → turn children s = .error c → Walks s (.error c)
  | turn {s s' : State α} {r : Except α (State α)} : s.stack ≠ [] → turn children s = .ok s' →
      Walks s' r → Walks s r

/-- `for root in roots`. -/
inductive Searches : (α → Option Mark) → List α → Except α Unit → Prop
  | done {marks : α → Option Mark} : Searches marks [] (.ok ())
  | skip {marks : α → Option Mark} {root : α} {roots : List α} {r : Except α Unit} :
      marks root ≠ none → Searches marks roots r → Searches marks (root :: roots) r
  | raise {marks : α → Option Mark} {root c : α} {roots : List α} : marks root = none →
      Walks children ⟨put marks root .path, [(root, children root)]⟩ (.error c) →
      Searches marks (root :: roots) (.error c)
  | walk {marks : α → Option Mark} {root : α} {roots : List α} {s : State α} {r : Except α Unit} :
      marks root = none → Walks children ⟨put marks root .path, [(root, children root)]⟩ (.ok s) →
      Searches s.marks roots r → Searches marks (root :: roots) r

variable {children}

theorem Walks.unique {s : State α} {r r' : Except α (State α)} (h : Walks children s r)
    (h' : Walks children s r') : r' = r := by
  induction h generalizing r' with
  | done hnil =>
    cases h' with
    | done _ => rfl
    | raise hne _ => exact absurd hnil hne
    | turn hne _ _ => exact absurd hnil hne
  | raise hne hturn =>
    cases h' with
    | done hnil => exact absurd hnil hne
    | raise _ hturn' => exact hturn'.symm.trans hturn |> Except.error.inj |> congrArg Except.error
    | turn _ hturn' _ =>
      rw [hturn] at hturn'
      cases hturn'
  | turn hne hturn _ ih =>
    cases h' with
    | done hnil => exact absurd hnil hne
    | raise _ hturn' =>
      rw [hturn] at hturn'
      cases hturn'
    | turn _ hturn' hrest =>
      rw [hturn] at hturn'
      cases hturn'
      exact ih hrest

theorem Searches.unique {marks : α → Option Mark} {roots : List α} {r r' : Except α Unit}
    (h : Searches children marks roots r) (h' : Searches children marks roots r') : r' = r := by
  induction h generalizing r' with
  | done =>
    cases h'
    rfl
  | skip hsome _ ih =>
    cases h' with
    | skip _ hrest => exact ih hrest
    | raise hnone _ => exact absurd hnone hsome
    | walk hnone _ _ => exact absurd hnone hsome
  | raise hnone hwalk =>
    cases h' with
    | skip hsome _ => exact absurd hnone hsome
    | raise _ hwalk' =>
      cases hwalk.unique hwalk'
      rfl
    | walk _ hwalk' _ => cases hwalk.unique hwalk'
  | walk hnone hwalk _ ih =>
    cases h' with
    | skip hsome _ => exact absurd hnone hsome
    | raise _ hwalk' => cases hwalk.unique hwalk'
    | walk _ hwalk' hrest =>
      cases hwalk.unique hwalk'
      exact ih hrest

/-! ## What the loops keep -/

theorem Walks.ok {left : List α} {s s' : State α} (h : Walks children s (.ok s'))
    (hkept : Kept children left s.marks s.stack) :
    (∃ left', Kept children left' s'.marks []) ∧ ∀ v, s.marks v ≠ none → s'.marks v ≠ none := by
  generalize hr : Except.ok s' = r at h
  induction h generalizing left with
  | done hnil =>
    cases hr
    exact ⟨⟨left, hnil ▸ hkept⟩, fun _ hv => hv⟩
  | raise _ _ => cases hr
  | turn _ hturn _ ih =>
    obtain ⟨left', hkept', hmarks⟩ := hkept.turn hturn
    obtain ⟨hleft, hrest⟩ := ih hkept' hr
    exact ⟨hleft, fun v hv => hrest v (hmarks v hv)⟩

theorem Walks.cycle {left : List α} {s : State α} {c : α} (h : Walks children s (.error c))
    (hkept : Kept children left s.marks s.stack) : TransGen (Contains children) c c := by
  generalize hr : Except.error c = r at h
  induction h generalizing left with
  | done _ => cases hr
  | raise _ hturn =>
    cases hr
    exact hkept.cycle hturn
  | turn _ hturn _ ih =>
    obtain ⟨left', hkept', -⟩ := hkept.turn hturn
    exact ih hkept' hr

theorem Kept.root {left : List α} {marks : α → Option Mark} {root : α}
    (h : Kept children left marks []) (hroot : marks root = none) :
    Kept children left (put marks root .path) [(root, children root)] := by
  have hleft : root ∉ left := fun hmem => by
    rw [(h.done root).2 hmem] at hroot
    cases hroot
  refine ⟨fun v => ?_, fun v => ?_, h.ordered, List.nodup_cons.2 ⟨List.not_mem_nil, List.nodup_nil⟩,
    ⟨[], rfl, fun v hv => absurd hv List.not_mem_nil, fun v hv => absurd hv (by simp)⟩, trivial⟩
  · by_cases hv : v = root
    · subst hv
      simp [put_self, hleft]
    · rw [put_of_ne _ _ hv]
      exact h.done v
  · by_cases hv : v = root
    · subst hv
      simp [put_self]
    · rw [put_of_ne _ _ hv, h.path v]
      simp [hv]

/-- Where no cycle was found, every root was left. -/
theorem Searches.ok {left : List α} {marks : α → Option Mark} {roots : List α}
    (h : Searches children marks roots (.ok ())) (hkept : Kept children left marks []) :
    ∃ left' marks', Kept children left' marks' [] ∧
      ∀ v, v ∈ roots ∨ marks v ≠ none → marks' v ≠ none := by
  generalize hr : Except.ok () = r at h
  induction h generalizing left with
  | done => exact ⟨left, _, hkept, fun v hv => hv.resolve_left List.not_mem_nil⟩
  | @skip marks root roots _ hsome _ ih =>
    obtain ⟨left', marks', hkept', hdone⟩ := ih hkept hr
    refine ⟨left', marks', hkept', fun v hv => hdone v ?_⟩
    rcases hv with hv | hv
    · rcases List.mem_cons.1 hv with rfl | hv
      · exact .inr hsome
      · exact .inl hv
    · exact .inr hv
  | raise _ _ => cases hr
  | @walk marks root roots s _ hnone hwalk _ ih =>
    obtain ⟨⟨left', hkept'⟩, hmarks⟩ := hwalk.ok (hkept.root hnone)
    obtain ⟨left'', marks', hkept'', hdone⟩ := ih hkept' hr
    refine ⟨left'', marks', hkept'', fun v hv => hdone v ?_⟩
    rcases hv with hv | hv
    · rcases List.mem_cons.1 hv with rfl | hv
      · refine .inr (hmarks v ?_)
        show put marks v .path v ≠ none
        rw [put_self]
        exact Option.some_ne_none _
      · exact .inl hv
    · exact .inr (hmarks v (put_ne_none hv))

theorem Searches.cycle {left : List α} {marks : α → Option Mark} {roots : List α} {c : α}
    (h : Searches children marks roots (.error c)) (hkept : Kept children left marks []) :
    TransGen (Contains children) c c := by
  generalize hr : Except.error c = r at h
  induction h generalizing left with
  | done => cases hr
  | skip _ _ ih => exact ih hkept hr
  | raise hnone hwalk =>
    cases hr
    exact hwalk.cycle (hkept.root hnone)
  | walk hnone hwalk _ ih =>
    obtain ⟨⟨left', hkept'⟩, -⟩ := hwalk.ok (hkept.root hnone)
    exact ih hkept' hr

/-! ## The fuel is enough -/

theorem load_root {vertices : List α} {marks : α → Option Mark} {root : α} (hroot : root ∈ vertices)
    (hnone : marks root = none) :
    load children vertices ⟨put marks root .path, [(root, children root)]⟩ ≤
      total children vertices := by
  have hload := total_put children .path hroot hnone
  have hall : total children (vertices.filter fun w => (marks w).isNone)
      ≤ total children (vertices.filter fun _ => true) := total_filter_le vertices fun _ _ => rfl
  rw [List.filter_true] at hall
  simp only [load, List.map_cons, List.map_nil, List.sum_cons, List.sum_nil]
  omega

/-- With as much fuel as there is yet to do, the walk is the loop. -/
theorem walks_walk {vertices left : List α} {fuel : Nat} {s : State α}
    (h : Kept children left s.marks s.stack) (hin : Inside children vertices s.stack)
    (hload : load children vertices s ≤ fuel) : Walks children s (walk children fuel s) := by
  induction fuel generalizing left s with
  | zero =>
    -- whatever is on the stack counts, so nothing is
    have hstack : s.stack = [] := by
      cases hstack : s.stack with
      | nil => rfl
      | cons e stack =>
        simp only [load, hstack, List.map_cons, List.sum_cons] at hload
        omega
    exact .done hstack
  | succ fuel ih =>
    rw [walk]
    split
    · next hempty => exact .done (List.isEmpty_iff.1 hempty)
    · next hempty =>
      have hne : s.stack ≠ [] := fun hnil => hempty (List.isEmpty_iff.2 hnil)
      cases ht : turn children s with
      | error c => exact .raise hne ht
      | ok t =>
        obtain ⟨left', hkept, -⟩ := h.turn ht
        obtain ⟨hin', hlt⟩ := load_turn h hin hne ht
        exact .turn hne ht (ih hkept hin' (by omega))

theorem searches_foldlM {vertices : List α} (hin : ∀ v ∈ vertices, ∀ c ∈ children v, c ∈ vertices)
    {roots : List α} (hroots : ∀ v ∈ roots, v ∈ vertices) {left : List α}
    {marks : α → Option Mark} (h : Kept children left marks []) :
    Searches children marks roots
      ((roots.foldlM (visit children (total children vertices)) marks).map fun _ => ()) := by
  induction roots generalizing left marks with
  | nil => exact .done
  | cons root roots ih =>
    have hroot := hroots root (List.mem_cons_self ..)
    have hrest := fun v hv => hroots v (List.mem_cons_of_mem root hv)
    rw [List.foldlM_cons, visit]
    by_cases hnone : marks root = none
    · have hwalks := walks_walk (h.root hnone) ⟨hin, fun v hv => by rwa [List.mem_singleton.1 hv]⟩
        (load_root hroot hnone)
      rw [if_pos hnone]
      cases hw : walk children (total children vertices)
          ⟨put marks root .path, [(root, children root)]⟩ with
      | error c =>
        rw [hw] at hwalks
        exact .raise hnone hwalks
      | ok t =>
        rw [hw] at hwalks
        obtain ⟨⟨left', hkept⟩, -⟩ := hwalks.ok (h.root hnone)
        exact .walk hnone hwalks (ih hrest hkept)
    · rw [if_neg hnone]
      exact .skip hnone (ih hrest h)

/-- The search is the loops, which end. -/
theorem searches_search {roots : List α}
    (hroots : ∀ v c, Contains children v c → v ∈ roots ∧ c ∈ roots) :
    Searches children (fun _ => none) roots (search children roots) :=
  searches_foldlM (fun v _ c hc => (hroots v c hc).2) (fun _ hv => hv) (kept_nothing children)

/-- What is raised contains itself. -/
theorem search_eq_error {roots : List α}
    (hroots : ∀ v c, Contains children v c → v ∈ roots ∧ c ∈ roots) {c : α}
    (hs : search children roots = .error c) : TransGen (Contains children) c c := by
  have hsearch := searches_search hroots
  rw [hs] at hsearch
  exact hsearch.cycle (kept_nothing children)

theorem search_eq_ok_iff {roots : List α}
    (hroots : ∀ v c, Contains children v c → v ∈ roots ∧ c ∈ roots) :
    search children roots = .ok () ↔ ∀ v, ¬ TransGen (Contains children) v v := by
  constructor
  · intro hs v hcycle
    have hsearch := searches_search hroots
    rw [hs] at hsearch
    obtain ⟨left, marks, hkept, hdone⟩ := hsearch.ok (kept_nothing children)
    obtain ⟨c, hc, -⟩ := TransGen.head'_iff.1 hcycle
    refine hkept.ordered.acyclic ?_ hcycle
    cases hmark : marks v with
    | none => exact absurd hmark (hdone v (.inl (hroots v c hc).1))
    | some m =>
      cases m with
      | done => exact (hkept.done v).1 hmark
      | path => exact absurd ((hkept.path v).1 hmark) List.not_mem_nil
  · intro hacyclic
    cases hs : search children roots with
    | ok _ => rfl
    | error c => exact absurd (search_eq_error hroots hs) (hacyclic c)

end CycleSearch

end Lib
