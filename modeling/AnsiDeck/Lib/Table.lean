import Mathlib.Data.List.AList

/-!
# Tables with a primary key

A database table as the rows it holds by primary key: Mathlib's `AList`, so that two rows can
never share a key, read through `get?` alone. Each statement a program sends is one of the
operations below (`put`, `modify`, `remove`, `mapRows`, `deleteWhere`) or one of the queries
(`any`, `all`, `count`), and each has one lemma that says what it does to `get?`; nothing later
looks at the list underneath.

`Pairs R` says that any two different rows are related by `R` (say, hold different locks).
-/

namespace Lib

universe u v

/-- The rows of a table, by primary key. -/
abbrev Table (κ : Type u) (ρ : Type v) := AList fun _ : κ => ρ

namespace Table

variable {κ : Type u} {ρ : Type v} [DecidableEq κ]

/-! ## Reading and writing one row -/

/-- The row with this key. -/
def get? (t : Table κ ρ) (k : κ) : Option ρ := t.lookup k

/-- Inserts the row, or replaces the one with its key. -/
def put (t : Table κ ρ) (k : κ) (r : ρ) : Table κ ρ := t.insert k r

/-- `UPDATE .. WHERE id = k`: nothing happens when there is no such row. -/
def modify (t : Table κ ρ) (k : κ) (f : ρ → ρ) : Table κ ρ :=
  match t.get? k with
  | some r => t.put k (f r)
  | none => t

/-- `DELETE .. WHERE id = k`. -/
def remove (t : Table κ ρ) (k : κ) : Table κ ρ := t.erase k

@[simp] theorem get?_empty (k : κ) : (∅ : Table κ ρ).get? k = none := AList.lookup_empty k

theorem get?_put (t : Table κ ρ) (k k' : κ) (r : ρ) :
    (t.put k r).get? k' = if k' = k then some r else t.get? k' := by
  unfold get? put
  by_cases h : k' = k
  · subst h
    rw [if_pos rfl, AList.lookup_insert]
  · rw [if_neg h, AList.lookup_insert_ne h]

@[simp] theorem get?_put_self (t : Table κ ρ) (k : κ) (r : ρ) :
    (t.put k r).get? k = some r := by rw [get?_put, if_pos rfl]

theorem get?_put_of_ne (t : Table κ ρ) {k k' : κ} (r : ρ) (h : k' ≠ k) :
    (t.put k r).get? k' = t.get? k' := by rw [get?_put, if_neg h]

theorem get?_modify (t : Table κ ρ) (k k' : κ) (f : ρ → ρ) :
    (t.modify k f).get? k' = if k' = k then (t.get? k).map f else t.get? k' := by
  unfold modify
  cases hk : t.get? k with
  | none =>
    by_cases h : k' = k
    · subst h; rw [if_pos rfl, hk, Option.map_none]
    · rw [if_neg h]
  | some r => rw [get?_put, Option.map_some]

theorem get?_modify_of_ne (t : Table κ ρ) {k k' : κ} (f : ρ → ρ) (h : k' ≠ k) :
    (t.modify k f).get? k' = t.get? k' := by rw [get?_modify, if_neg h]

theorem get?_remove (t : Table κ ρ) (k k' : κ) :
    (t.remove k).get? k' = if k' = k then none else t.get? k' := by
  unfold get? remove
  by_cases h : k' = k
  · subst h; rw [if_pos rfl, AList.lookup_erase]
  · rw [if_neg h, AList.lookup_erase_ne h]

/-! ## Statements about many rows -/

/-- `UPDATE .. SET ..` over every row: `f` leaves the rows the `WHERE` excludes as they are. -/
def mapRows (t : Table κ ρ) (f : κ → ρ → ρ) : Table κ ρ where
  entries := t.entries.map fun e => ⟨e.1, f e.1 e.2⟩
  nodupKeys := by
    have h := t.nodupKeys
    unfold List.NodupKeys List.keys at *
    simpa [List.map_map, Function.comp_def] using h

theorem get?_mapRows (t : Table κ ρ) (f : κ → ρ → ρ) (k : κ) :
    (t.mapRows f).get? k = (t.get? k).map (f k) := by
  unfold get? mapRows AList.lookup
  obtain ⟨l, hl⟩ := t
  dsimp only
  clear hl
  induction l with
  | nil => rfl
  | cons e l ih =>
    obtain ⟨k', r⟩ := e
    by_cases h : k = k'
    · subst h
      rw [List.map_cons, List.dlookup_cons_eq, List.dlookup_cons_eq, Option.map_some]
    · rw [List.map_cons, List.dlookup_cons_ne _ _ (by exact h),
        List.dlookup_cons_ne _ _ (by exact h), ih]

/-- `DELETE .. WHERE p`. -/
def deleteWhere (t : Table κ ρ) (p : κ → ρ → Bool) : Table κ ρ where
  entries := t.entries.filter fun e => !p e.1 e.2
  nodupKeys := t.nodupKeys.sublist List.filter_sublist

theorem get?_eq_some_iff {t : Table κ ρ} {k : κ} {r : ρ} :
    t.get? k = some r ↔ (⟨k, r⟩ : Sigma fun _ : κ => ρ) ∈ t.entries :=
  AList.mem_lookup_iff

theorem get?_deleteWhere_eq_some {t : Table κ ρ} {p : κ → ρ → Bool} {k : κ} {r : ρ} :
    (t.deleteWhere p).get? k = some r ↔ t.get? k = some r ∧ p k r = false := by
  rw [get?_eq_some_iff, get?_eq_some_iff]
  simp [deleteWhere, List.mem_filter]

theorem get?_deleteWhere (t : Table κ ρ) (p : κ → ρ → Bool) (k : κ) :
    (t.deleteWhere p).get? k = (t.get? k).filter fun r => !p k r := by
  refine Option.ext fun r => ?_
  rw [get?_deleteWhere_eq_some, Option.filter_eq_some_iff, Bool.not_eq_true']

/-! ## Queries -/

/-- `SELECT .. WHERE p`. -/
def rows (t : Table κ ρ) (p : κ → ρ → Bool) : List (κ × ρ) :=
  (t.entries.filter fun e => p e.1 e.2).map fun e => (e.1, e.2)

theorem mem_rows {t : Table κ ρ} {p : κ → ρ → Bool} {k : κ} {r : ρ} :
    (k, r) ∈ t.rows p ↔ t.get? k = some r ∧ p k r = true := by
  rw [get?_eq_some_iff]
  simp only [rows, List.mem_map, List.mem_filter, Sigma.exists, Prod.mk.injEq]
  constructor
  · rintro ⟨k', r', hmem, rfl, rfl⟩
    exact hmem
  · exact fun h => ⟨k, r, h, rfl, rfl⟩

/-- `EXISTS (SELECT .. WHERE p)`. -/
def any (t : Table κ ρ) (p : κ → ρ → Bool) : Bool := t.entries.any fun e => p e.1 e.2

/-- `NOT EXISTS (SELECT .. WHERE NOT p)`. -/
def all (t : Table κ ρ) (p : κ → ρ → Bool) : Bool := t.entries.all fun e => p e.1 e.2

/-- `SELECT count(*) .. WHERE p`. -/
def count (t : Table κ ρ) (p : κ → ρ → Bool) : Nat := t.entries.countP fun e => p e.1 e.2

theorem any_iff {t : Table κ ρ} {p : κ → ρ → Bool} :
    t.any p = true ↔ ∃ k r, t.get? k = some r ∧ p k r = true := by
  simp only [any, List.any_eq_true, Sigma.exists, get?_eq_some_iff]

theorem any_eq_false_iff {t : Table κ ρ} {p : κ → ρ → Bool} :
    t.any p = false ↔ ∀ k r, t.get? k = some r → p k r = false := by
  rw [← Bool.not_eq_true, any_iff]
  simp

theorem all_iff {t : Table κ ρ} {p : κ → ρ → Bool} :
    t.all p = true ↔ ∀ k r, t.get? k = some r → p k r = true := by
  simp only [all, List.all_eq_true, Sigma.forall, get?_eq_some_iff]

omit [DecidableEq κ] in
@[simp] theorem any_empty (p : κ → ρ → Bool) : (∅ : Table κ ρ).any p = false := rfl

omit [DecidableEq κ] in
@[simp] theorem count_empty (p : κ → ρ → Bool) : (∅ : Table κ ρ).count p = 0 := rfl

/-- What a row counts for. -/
def weight (p : κ → ρ → Bool) (k : κ) (r : ρ) : Nat := if p k r then 1 else 0

theorem count_put_new {t : Table κ ρ} {k : κ} (h : t.get? k = none) (r : ρ)
    (p : κ → ρ → Bool) : (t.put k r).count p = t.count p + weight p k r := by
  have hk : k ∉ t := AList.lookup_eq_none.mp h
  unfold count put weight
  rw [AList.entries_insert_of_notMem hk, List.countP_cons]

/-- Replacing a row moves the count by the difference of what the two rows count for. -/
theorem count_put_of_get? {t : Table κ ρ} {k : κ} {r : ρ} (h : t.get? k = some r) (r' : ρ)
    (p : κ → ρ → Bool) : (t.put k r').count p + weight p k r = t.count p + weight p k r' := by
  have hk : k ∈ t.entries.keys := by
    have : (t.lookup k).isSome := by rw [show t.lookup k = some r from h]; rfl
    exact AList.lookup_isSome.mp this
  obtain ⟨r₀, l₁, l₂, -, hl, her⟩ := List.exists_of_kerase hk
  have hr : r₀ = r := by
    have hmem : (⟨k, r₀⟩ : Sigma fun _ : κ => ρ) ∈ t.entries := by rw [hl]; simp
    have := get?_eq_some_iff.mpr hmem
    rw [h] at this
    exact (Option.some.inj this).symm
  subst hr
  unfold count put weight
  rw [AList.entries_insert, her, hl]
  simp only [List.countP_append, List.countP_cons]
  omega

omit [DecidableEq κ] in
theorem weight_le_one (p : κ → ρ → Bool) (k : κ) (r : ρ) : weight p k r ≤ 1 := by
  unfold weight
  split <;> omega

theorem count_put_le_succ (t : Table κ ρ) (k : κ) (r : ρ) (p : κ → ρ → Bool) :
    (t.put k r).count p ≤ t.count p + 1 := by
  have hw := weight_le_one p k r
  cases hk : t.get? k with
  | none =>
    rw [count_put_new hk]
    omega
  | some old =>
    have hput := count_put_of_get? hk r p
    omega

/-- A row that counts replaces one that did. -/
theorem count_put_le {t : Table κ ρ} {k : κ} {r : ρ} {p : κ → ρ → Bool}
    (h : p k r = true → ∃ old, t.get? k = some old ∧ p k old = true) :
    (t.put k r).count p ≤ t.count p := by
  cases hr : p k r with
  | false =>
    have hw : weight p k r = 0 := by simp [weight, hr]
    cases hk : t.get? k with
    | none =>
      rw [count_put_new hk]
      omega
    | some old =>
      have hput := count_put_of_get? hk r p
      omega
  | true =>
    obtain ⟨old, hk, hold⟩ := h hr
    have hput := count_put_of_get? hk r p
    have hw : weight p k r = weight p k old := by simp [weight, hr, hold]
    omega

theorem count_remove_of_get? {t : Table κ ρ} {k : κ} {r : ρ} (h : t.get? k = some r)
    (p : κ → ρ → Bool) : (t.remove k).count p + weight p k r = t.count p := by
  have hput := count_put_of_get? h r p
  have hsame : (t.put k r).count p = (t.remove k).count p + weight p k r := by
    unfold count put remove weight
    rw [AList.entries_insert, List.countP_cons]
    rfl
  omega

theorem remove_of_get?_none {t : Table κ ρ} {k : κ} (h : t.get? k = none) : t.remove k = t := by
  have hk : k ∉ t := AList.lookup_eq_none.mp h
  exact AList.ext (List.kerase_of_notMem_keys hk)

theorem count_remove_le (t : Table κ ρ) (k : κ) (p : κ → ρ → Bool) :
    (t.remove k).count p ≤ t.count p :=
  (List.kerase_sublist k t.entries).countP_le

/-! ## Facts about every row, and about every two -/

/-- A row of a table into which one was put is that one, or was there. -/
theorem get?_put_cases {t : Table κ ρ} {k k' : κ} {r r' : ρ} (h : (t.put k r).get? k' = some r') :
    (k' = k ∧ r' = r) ∨ (k' ≠ k ∧ t.get? k' = some r') := by
  rw [get?_put] at h
  split at h
  · next heq => exact Or.inl ⟨heq, (Option.some.inj h).symm⟩
  · next hne => exact Or.inr ⟨hne, h⟩

theorem get?_remove_eq_some {t : Table κ ρ} {k k' : κ} {r : ρ} :
    (t.remove k).get? k' = some r ↔ k' ≠ k ∧ t.get? k' = some r := by
  rw [get?_remove]
  split
  · next heq => simp [heq]
  · next hne => simp [hne]

/-- Any two different rows are related by `R`. -/
def Pairs (t : Table κ ρ) (R : ρ → ρ → Prop) : Prop :=
  ∀ k k' r r', t.get? k = some r → t.get? k' = some r' → k' ≠ k → R r r'

theorem pairs_empty (R : ρ → ρ → Prop) : (∅ : Table κ ρ).Pairs R := by
  intro k k' r r' hk
  exact absurd hk (by simp)

theorem Pairs.put {t : Table κ ρ} {R : ρ → ρ → Prop} (h : t.Pairs R) {k : κ} {r : ρ}
    (hnew : ∀ k' r', t.get? k' = some r' → k' ≠ k → R r r' ∧ R r' r) : (t.put k r).Pairs R := by
  intro a b ra rb ha hb hne
  rcases get?_put_cases ha with ⟨rfl, rfl⟩ | ⟨hak, ha'⟩
  · rcases get?_put_cases hb with ⟨rfl, rfl⟩ | ⟨hbk, hb'⟩
    · exact absurd rfl hne
    · exact (hnew b rb hb' hbk).1
  · rcases get?_put_cases hb with ⟨rfl, rfl⟩ | ⟨hbk, hb'⟩
    · exact (hnew a ra ha' hak).2
    · exact h a b ra rb ha' hb' hne

theorem Pairs.remove {t : Table κ ρ} {R : ρ → ρ → Prop} (h : t.Pairs R) (k : κ) :
    (t.remove k).Pairs R := by
  intro a b ra rb ha hb hne
  exact h a b ra rb (get?_remove_eq_some.mp ha).2 (get?_remove_eq_some.mp hb).2 hne

end Table

end Lib
