import AnsiDeck.Lib.Double
import Mathlib.Data.List.Basic

/-!
# JSON values

What a JSON parser that also takes `NaN` and the infinities returns. A number without a fraction or
an exponent is an integer of any size, every other one a double; an object is its entries in order.

`At k v w` says that `w` stands in `v`, inside of `k` arrays and objects; what holds of a value at
any depth is said with it.
-/

namespace Lib

inductive Json
  | null
  | bool (b : Bool)
  | int (n : Int)
  | float (x : Double)
  | str (s : Str)
  | arr (items : List Json)
  | obj (entries : List (Str × Json))

namespace Json

inductive At : Nat → Json → Json → Prop
  | here {v : Json} : At 0 v v
  | item {k : Nat} {items : List Json} {v w : Json} : v ∈ items → At k v w →
      At (k + 1) (.arr items) w
  | member {k : Nat} {entries : List (Str × Json)} {e : Str × Json} {w : Json} :
      e ∈ entries → At k e.2 w → At (k + 1) (.obj entries) w

mutual

/-- How deep arrays and objects nest in a value. -/
def depth : Json → Nat
  | .arr items => depthItems items + 1
  | .obj entries => depthEntries entries + 1
  | _ => 0

def depthItems : List Json → Nat
  | [] => 0
  | v :: vs => max (depth v) (depthItems vs)

def depthEntries : List (Str × Json) → Nat
  | [] => 0
  | (_, v) :: es => max (depth v) (depthEntries es)

end

theorem depthItems_le {vs : List Json} {n : Nat} :
    depthItems vs ≤ n ↔ ∀ v ∈ vs, v.depth ≤ n := by
  induction vs with
  | nil => simp [depthItems]
  | cons v vs ih => rw [depthItems, Nat.max_le, ih, List.forall_mem_cons]

theorem depthEntries_le {es : List (Str × Json)} {n : Nat} :
    depthEntries es ≤ n ↔ ∀ e ∈ es, e.2.depth ≤ n := by
  induction es with
  | nil => simp [depthEntries]
  | cons e es ih =>
    obtain ⟨k, v⟩ := e
    rw [depthEntries, Nat.max_le, ih, List.forall_mem_cons]

end Json

end Lib
