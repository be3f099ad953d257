import Mathlib.Logic.Relation

/-!
# Labelled systems, guarded runs and inductive invariants

A system is a set of initial states and an executable, partial step function: the label says
which party moves and how, and `none` says that the move is not possible now. All the
non-determinism is in the label, so a run is a list of labels and can be computed.

Everything here is stated over a *guard* `ok : σ → α → Prop`, a condition on the state a step
is taken from and on the step itself. `Path S ok` is the runs whose steps all meet the guard;
the unconditional results are the instance `anyStep`. One induction is done here, once
(`Inductive.of_reachable`), and every safety theorem about a system is then two goals: the
invariant holds initially, and one step preserves it.
-/

namespace Lib

universe u v

/-- An executable labelled transition system. -/
structure System (σ : Type u) (α : Type v) where
  /-- The states a run may begin in. -/
  init : σ → Prop
  /-- One step: `none` when the label is not enabled. -/
  step : σ → α → Option σ

/-- The guard that allows every step. -/
def anyStep {σ : Type u} {α : Type v} : σ → α → Prop := fun _ _ => True

namespace System

variable {σ : Type u} {α : Type v} {S : System σ α} {ok : σ → α → Prop}

/-- The runs from a state, each of whose steps meets the guard. -/
inductive Path (S : System σ α) (ok : σ → α → Prop) : σ → σ → Prop
  | refl (s : σ) : Path S ok s s
  | tail {s t w : σ} {a : α} : Path S ok s t → ok t a → S.step t a = some w → Path S ok s w

/-- The states that runs within the guard reach. -/
def ReachableBy (S : System σ α) (ok : σ → α → Prop) (s : σ) : Prop :=
  ∃ s₀, S.init s₀ ∧ Path S ok s₀ s

/-- The states that any run reaches. -/
abbrev Reachable (S : System σ α) (s : σ) : Prop := S.ReachableBy anyStep s

theorem Path.trans {s t w : σ} (h₁ : Path S ok s t) (h₂ : Path S ok t w) : Path S ok s w := by
  induction h₂ with
  | refl => exact h₁
  | tail _ hok hstep ih => exact ih.tail hok hstep

theorem Path.single {s t : σ} {a : α} (hok : ok s a) (h : S.step s a = some t) : Path S ok s t :=
  (Path.refl s).tail hok h

/-- A run within a guard is a run within any weaker one. -/
theorem Path.mono {ok' : σ → α → Prop} (hw : ∀ s a, ok s a → ok' s a) {s t : σ}
    (h : Path S ok s t) : Path S ok' s t := by
  induction h with
  | refl => exact .refl _
  | tail _ hok hstep ih => exact ih.tail (hw _ _ hok) hstep

theorem ReachableBy.mono {ok' : σ → α → Prop} (hw : ∀ s a, ok s a → ok' s a) {s : σ}
    (h : S.ReachableBy ok s) : S.ReachableBy ok' s :=
  let ⟨s₀, h₀, hp⟩ := h
  ⟨s₀, h₀, hp.mono hw⟩

theorem ReachableBy.reachable {s : σ} (h : S.ReachableBy ok s) : S.Reachable s :=
  h.mono fun _ _ _ => trivial

theorem ReachableBy.extend {s t : σ} (h : S.ReachableBy ok s) (hp : Path S ok s t) :
    S.ReachableBy ok t :=
  let ⟨s₀, h₀, h₁⟩ := h
  ⟨s₀, h₀, h₁.trans hp⟩

/-! ## Inductive invariants -/

/-- `I` holds initially and is preserved by every step within the guard. -/
structure Inductive (S : System σ α) (ok : σ → α → Prop) (I : σ → Prop) : Prop where
  init : ∀ s, S.init s → I s
  step : ∀ s a t, I s → ok s a → S.step s a = some t → I t

/-- **An inductive invariant holds of every state reached within the guard.** -/
theorem Inductive.of_reachable {I : σ → Prop} (h : Inductive S ok I) {s : σ}
    (hr : S.ReachableBy ok s) : I s := by
  obtain ⟨s₀, h₀, hp⟩ := hr
  induction hp with
  | refl => exact h.init _ h₀
  | tail _ hok hstep ih => exact h.step _ _ _ ih hok hstep

/-- A run within a guard whose invariant makes another one hold is a run within that one. -/
theorem ReachableBy.within {ok' : σ → α → Prop} {I : σ → Prop} (hI : Inductive S ok I)
    (hw : ∀ s a, I s → ok s a → ok' s a) {s : σ}
    (h : S.ReachableBy ok s) : S.ReachableBy ok' s := by
  obtain ⟨s₀, h₀, hp⟩ := h
  refine ⟨s₀, h₀, ?_⟩
  induction hp with
  | refl => exact .refl _
  | tail hp hok hstep ih => exact ih.tail (hw _ _ (hI.of_reachable ⟨s₀, h₀, hp⟩) hok) hstep

/-- A property that steps preserve, given an invariant of the states they start from, holds for
the rest of a run once it holds: the shape of "and it never changes again". -/
theorem Path.stable {I P : σ → Prop} (hI : ∀ s a t, I s → ok s a → S.step s a = some t → I t)
    (hP : ∀ s a t, I s → P s → ok s a → S.step s a = some t → P t) {s t : σ}
    (hp : Path S ok s t) (hi : I s) (h : P s) : P t := by
  suffices I t ∧ P t from this.2
  induction hp with
  | refl => exact ⟨hi, h⟩
  | tail _ hok hstep ih => exact ⟨hI _ _ _ ih.1 hok hstep, hP _ _ _ ih.1 ih.2 hok hstep⟩

/-- The relational form: what a preorder-like relation between a state and its successor says of
one step it says of a whole run. -/
theorem Path.rel {I : σ → Prop} {R : σ → σ → Prop}
    (hI : ∀ s a t, I s → ok s a → S.step s a = some t → I t) (hrefl : ∀ s, R s s)
    (hR : ∀ s t a w, I t → R s t → ok t a → S.step t a = some w → R s w) {s t : σ}
    (hp : Path S ok s t) (hi : I s) : R s t := by
  suffices I t ∧ R s t from this.2
  induction hp with
  | refl => exact ⟨hi, hrefl _⟩
  | tail _ hok hstep ih => exact ⟨hI _ _ _ ih.1 hok hstep, hR _ _ _ _ ih.1 ih.2 hok hstep⟩

/-! ## Running a list of labels -/

/-- Takes the labels in order; `none` as soon as one is not enabled or breaks the guard. -/
def run (S : System σ α) (ok : σ → α → Prop) [∀ s a, Decidable (ok s a)] :
    σ → List α → Option σ
  | s, [] => some s
  | s, a :: as => if ok s a then (S.step s a).bind fun t => run S ok t as else none

instance (s : σ) (a : α) : Decidable (anyStep s a) := inferInstanceAs (Decidable True)

/-- What a computed run reaches is reached. -/
theorem Path.of_run [∀ s a, Decidable (ok s a)] {as : List α} {s t : σ}
    (h : S.run ok s as = some t) : Path S ok s t := by
  suffices ∀ w, Path S ok w s → Path S ok w t from this s (.refl s)
  induction as generalizing s with
  | nil =>
    simp only [run, Option.some.injEq] at h
    subst h
    exact fun _ hw => hw
  | cons a as ih =>
    simp only [run] at h
    split at h
    · rename_i hok
      cases hstep : S.step s a with
      | none => rw [hstep] at h; exact absurd h (by simp)
      | some s' =>
        rw [hstep, Option.bind_some] at h
        exact fun w hw => ih h w (hw.tail hok hstep)
    · exact absurd h (by simp)

theorem ReachableBy.of_run [∀ s a, Decidable (ok s a)] {as : List α} {s₀ s : σ}
    (h₀ : S.init s₀) (h : S.run ok s₀ as = some s) : S.ReachableBy ok s :=
  ⟨s₀, h₀, .of_run h⟩

/-- The state a computed run ends in. -/
theorem ReachableBy.of_isSome [∀ s a, Decidable (ok s a)] {s₀ : σ} (h₀ : S.init s₀)
    (as : List α) (h : (S.run ok s₀ as).isSome = true) :
    S.ReachableBy ok ((S.run ok s₀ as).get h) :=
  .of_run h₀ (Option.some_get h).symm

end System

end Lib
