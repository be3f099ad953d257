import AnsiDeck.Lib.Load
import Mathlib.Logic.Relation

/-!
# Everything that can be reached

A walk with a list of what is yet to be looked at, the last one found first. A vertex that was seen
before, or that is none (`children` is `none`), is passed over; what another contains joins the
list. `Kept.reached`: a walk that
ended has seen just the vertices that its root reaches, whatever cycles
there are.

The walk has fuel. Every step takes one off the list, and what a vertex brings it brings once
(`left`).
-/

namespace Lib

namespace Worklist

open Relation

universe u

variable {α : Type u} (children : α → Option (List α))

/-- `v` contains `c` directly. -/
def Contains (v c : α) : Prop := ∃ cs, children v = some cs ∧ c ∈ cs

/-- `v` is a vertex that the root reaches. -/
def Reached (root v : α) : Prop :=
  (children v).isSome = true ∧ ReflTransGen (Contains children) root v

structure State (α : Type u) where
  /-- The last first. -/
  seen : List α
  /-- The next one first. -/
  pending : List α

def start (root : α) : State α := ⟨[], [root]⟩

/-- What a walk from `root` keeps. -/
structure Kept (root : α) (s : State α) : Prop where
  pending : ∀ v ∈ s.pending, ReflTransGen (Contains children) root v
  seen : ∀ v ∈ s.seen, Reached children root v
  /-- What a vertex that was seen contains was seen, or is none, or is yet to come. -/
  closed : ∀ v ∈ s.seen, ∀ c, Contains children v c →
    c ∈ s.seen ∨ children c = none ∨ c ∈ s.pending
  root : root ∈ s.seen ∨ children root = none ∨ root ∈ s.pending

variable {children}

theorem kept_start (root : α) : Kept children root (start root) where
  pending := fun v hv => by
    rw [List.mem_singleton.1 hv]
  seen := fun _ hv => absurd hv List.not_mem_nil
  closed := fun _ hv => absurd hv List.not_mem_nil
  root := .inr (.inr (List.mem_singleton_self root))

/-- One that was seen, or is none, need not come again. -/
theorem Kept.pass {root v : α} {seen pending : List α} (h : Kept children root ⟨seen, v :: pending⟩)
    (hv : v ∈ seen ∨ children v = none) : Kept children root ⟨seen, pending⟩ := by
  have drop : ∀ c, c ∈ seen ∨ children c = none ∨ c ∈ v :: pending →
      c ∈ seen ∨ children c = none ∨ c ∈ pending := by
    intro c hc
    rcases hc with hc | hc | hc
    · exact .inl hc
    · exact .inr (.inl hc)
    · rcases List.mem_cons.1 hc with rfl | hc
      · exact hv.imp_right .inl
      · exact .inr (.inr hc)
  exact ⟨fun w hw => h.pending w (List.mem_cons_of_mem _ hw), h.seen,
    fun w hw c hc => drop c (h.closed w hw c hc), drop root h.root⟩

/-- A vertex that is seen for the first time. -/
theorem Kept.visit {root v : α} {seen pending cs : List α}
    (h : Kept children root ⟨seen, v :: pending⟩) (hv : children v = some cs) :
    Kept children root ⟨v :: seen, cs.reverse ++ pending⟩ := by
  have hroot := h.pending v (List.mem_cons_self ..)
  have move : ∀ c, c ∈ seen ∨ children c = none ∨ c ∈ v :: pending →
      c ∈ v :: seen ∨ children c = none ∨ c ∈ cs.reverse ++ pending := by
    intro c hc
    rcases hc with hc | hc | hc
    · exact .inl (List.mem_cons_of_mem _ hc)
    · exact .inr (.inl hc)
    · rcases List.mem_cons.1 hc with rfl | hc
      · exact .inl (List.mem_cons_self ..)
      · exact .inr (.inr (List.mem_append_right _ hc))
  constructor
  · intro w hw
    rcases List.mem_append.1 hw with hw | hw
    · exact hroot.tail ⟨cs, hv, List.mem_reverse.1 hw⟩
    · exact h.pending w (List.mem_cons_of_mem _ hw)
  · intro w hw
    rcases List.mem_cons.1 hw with rfl | hw
    · exact ⟨hv ▸ rfl, hroot⟩
    · exact h.seen w hw
  · intro w hw c hc
    rcases List.mem_cons.1 hw with rfl | hw
    · obtain ⟨cs', hcs, hc⟩ := hc
      cases hv.symm.trans hcs
      exact .inr (.inr (List.mem_append_left _ (List.mem_reverse.2 hc)))
    · exact move c (h.closed w hw c hc)
  · exact move root h.root

/-- When nothing is left to look at, all that the root reaches was seen. -/
theorem Kept.reached {root : α} {seen : List α} (h : Kept children root ⟨seen, []⟩) {v : α} :
    v ∈ seen ↔ Reached children root v := by
  constructor
  · exact h.seen v
  · rintro ⟨hv, hpath⟩
    have hor : v ∈ seen ∨ children v = none := by
      clear hv
      induction hpath with
      | refl =>
        rcases h.root with hroot | hroot | hroot
        · exact .inl hroot
        · exact .inr hroot
        · cases hroot
      | tail _ hc ih =>
        rcases ih with hseen | hnone
        · rcases h.closed _ hseen _ hc with hc | hc | hc
          · exact .inl hc
          · exact .inr hc
          · cases hc
        · obtain ⟨cs, hcs, -⟩ := hc
          rw [hnone] at hcs
          cases hcs
    rcases hor with hseen | hnone
    · exact hseen
    · rw [hnone] at hv
      cases hv

/-! ## The walk -/

variable [DecidableEq α] (children)

def step (s : State α) : State α :=
  match s.pending with
  | [] => s
  | v :: pending =>
    if v ∈ s.seen then { s with pending }
    else match children v with
      | none => { s with pending }
      | some cs => ⟨v :: s.seen, cs.reverse ++ pending⟩

/-- What the walk has yet to look at. -/
def left (vertices : List α) (s : State α) : Nat :=
  s.pending.length + load (fun v => ((children v).getD []).length) vertices fun v => v ∉ s.seen

variable {children}

theorem Kept.step {root : α} {s : State α} (h : Kept children root s) :
    Kept children root (step children s) := by
  obtain ⟨seen, pending⟩ := s
  cases pending with
  | nil => exact h
  | cons v pending =>
    simp only [Worklist.step]
    split
    · next hseen => exact h.pass (.inl hseen)
    · split
      · next hnone => exact h.pass (.inr hnone)
      · next cs hv => exact h.visit hv

theorem left_step {vertices : List α} (hall : ∀ v, (children v).isSome = true → v ∈ vertices)
    {s : State α} (hne : s.pending ≠ []) :
    left children vertices (step children s) < left children vertices s := by
  obtain ⟨seen, pending⟩ := s
  cases pending with
  | nil => exact absurd rfl hne
  | cons v pending =>
    simp only [step]
    split
    · simp only [left, List.length_cons]
      omega
    · next hseen =>
      split
      · simp only [left, List.length_cons]
        omega
      · next cs hv =>
        have hdrop := load_drop (f := fun v => ((children v).getD []).length) (l := vertices)
          (p := fun w => w ∉ v :: seen) (q := fun w => w ∉ seen) (v := v)
          (fun w hw => by
            simp only [List.mem_cons, not_or, decide_eq_true_eq] at hw ⊢
            exact hw.2)
          (hall v (hv ▸ rfl)) (by simpa using hseen) (by simp)
        simp only [hv, Option.getD_some] at hdrop
        simp only [left, List.length_append, List.length_reverse, List.length_cons]
        omega

end Worklist

end Lib
