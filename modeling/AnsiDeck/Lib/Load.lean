import Mathlib.Algebra.GroupWithZero.Nat
import Mathlib.Data.List.Basic

/-!
# A measure that each member leaves once

The sum of what the members of a list bring, over those that still count. It falls by what a member
brings when that one no longer counts: how a search whose marks only grow is seen to end.
-/

namespace Lib

universe u

variable {α : Type u}

/-- What the members that count bring in all. -/
def load (f : α → Nat) (l : List α) (p : α → Bool) : Nat := ((l.filter p).map f).sum

theorem load_cons (f : α → Nat) (v : α) (l : List α) (p : α → Bool) :
    load f (v :: l) p = (if p v = true then f v else 0) + load f l p := by
  rw [load, List.filter_cons]
  split
  · rw [List.map_cons, List.sum_cons, load]
  · rw [Nat.zero_add, load]

theorem load_mono {f : α → Nat} {l : List α} {p q : α → Bool}
    (h : ∀ v, p v = true → q v = true) : load f l p ≤ load f l q := by
  induction l with
  | nil => exact Nat.le_refl _
  | cons v l ih =>
    rw [load_cons, load_cons]
    by_cases hp : p v = true
    · rw [if_pos hp, if_pos (h v hp)]
      exact Nat.add_le_add_left ih _
    · rw [if_neg hp, Nat.zero_add]
      exact Nat.le_trans ih (Nat.le_add_left ..)

/-- A member that no longer counts takes away what it brought. -/
theorem load_drop {f : α → Nat} {l : List α} {p q : α → Bool}
    (h : ∀ v, p v = true → q v = true) {v : α} (hv : v ∈ l) (hq : q v = true) (hp : p v = false) :
    load f l p + f v ≤ load f l q := by
  induction l with
  | nil => exact absurd hv List.not_mem_nil
  | cons w l ih =>
    rw [load_cons, load_cons]
    rcases List.mem_cons.1 hv with rfl | hv
    · have hle := load_mono (f := f) (l := l) h
      rw [if_neg (by simp [hp]), if_pos hq]
      omega
    · have hle := ih hv
      by_cases hpw : p w = true
      · rw [if_pos hpw, if_pos (h w hpw)]
        omega
      · rw [if_neg hpw]
        omega

end Lib
