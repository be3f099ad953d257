import AnsiDeck.Lib.System
import AnsiDeck.Lib.Table

/-!
# One transaction at a time

The open transactions of a system are rows of a table, those that have ended among them. Where none
begins before the others have ended, at most one is open (`Serial`), and what it has read stays so
until it ends: nobody else commits. A guard that asks of its commit what it read itself holds of
such runs then (`System.ReachableBy.within`).
-/

namespace Lib

universe u v

variable {κ : Type u} {ρ : Type v} [DecidableEq κ] {ended : ρ → Bool} {knows knows' : ρ → Prop}
  {txs : Table κ ρ} {k : κ} {r r' : ρ}

/-- At most one is open, and what it knows is so. -/
structure Serial (ended : ρ → Bool) (knows : ρ → Prop) (txs : Table κ ρ) : Prop where
  alone : txs.Pairs fun r r' => ended r = true ∨ ended r' = true
  knows : ∀ k r, txs.get? k = some r → ended r = false → knows r

namespace Serial

theorem empty : Serial ended knows (∅ : Table κ ρ) :=
  ⟨Table.pairs_empty _, fun k r hr => absurd hr (by simp)⟩

/-- One begins when the others have ended. -/
theorem begin (hidle : txs.all (fun _ r => ended r) = true) (hknows : ended r = false → knows r) :
    Serial ended knows (txs.put k r) := by
  have hended : ∀ k' r', txs.get? k' = some r' → ended r' = true := Table.all_iff.1 hidle
  have halone : txs.Pairs fun r r' => ended r = true ∨ ended r' = true :=
    fun k₁ _ r₁ _ h₁ _ _ => Or.inl (hended k₁ r₁ h₁)
  constructor
  · refine halone.put fun k' r' hget _ => ?_
    exact ⟨Or.inr (hended k' r' hget), Or.inl (hended k' r' hget)⟩
  · intro k' r' hget hopen
    rcases Table.get?_put_cases hget with ⟨-, rfl⟩ | ⟨-, hold⟩
    · exact hknows hopen
    · rw [hended k' r' hold] at hopen
      exact absurd hopen (by simp)

/-- While one is open, every other has ended. -/
theorem ended_of_ne (h : Serial ended knows txs) (hr : txs.get? k = some r)
    (hopen : ended r = false) {k' : κ} (hr' : txs.get? k' = some r') (hne : k' ≠ k) :
    ended r' = true := by
  rcases h.alone k k' r r' hr hr' hne with hended | hended
  · rw [hended] at hopen
    exact absurd hopen (by simp)
  · exact hended

/-- The open one takes a step, whatever else of the state that changes. -/
theorem move (h : Serial ended knows txs) (hr : txs.get? k = some r) (hopen : ended r = false)
    (hknows : ended r' = false → knows' r') : Serial ended knows' (txs.put k r') := by
  constructor
  · refine h.alone.put fun other held hheld hne => ?_
    have hended := h.ended_of_ne hr hopen hheld hne
    exact ⟨Or.inr hended, Or.inl hended⟩
  · intro other held hget hheld
    rcases Table.get?_put_cases hget with ⟨-, rfl⟩ | ⟨hne, hold⟩
    · exact hknows hheld
    · rw [h.ended_of_ne hr hopen hold hne] at hheld
      exact absurd hheld (by simp)

/-- One ends, and is gone: nobody is left to know anything. -/
theorem leave (h : Serial ended knows txs) (hr : txs.get? k = some r) (hopen : ended r = false) :
    Serial ended knows' (txs.remove k) := by
  refine ⟨h.alone.remove k, fun other held hget hheld => ?_⟩
  obtain ⟨hne, hold⟩ := Table.get?_remove_eq_some.1 hget
  rw [h.ended_of_ne hr hopen hold hne] at hheld
  exact absurd hheld (by simp)

theorem remove (h : Serial ended knows txs) (k : κ) : Serial ended knows (txs.remove k) :=
  ⟨h.alone.remove k, fun other held hget => h.knows other held (Table.get?_remove_eq_some.1 hget).2⟩

/-- A step of somebody else, that leaves what it knows. -/
theorem mono (h : Serial ended knows txs) (himp : ∀ r, knows r → knows' r) :
    Serial ended knows' txs :=
  ⟨h.alone, fun k r hr hopen => himp r (h.knows k r hr hopen)⟩

end Serial

end Lib
