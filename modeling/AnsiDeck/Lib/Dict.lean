import Mathlib.Data.List.Nodup
import Mathlib.Data.List.Basic

/-!
# Dictionaries that keep their insertion order

A mapping as a list of entries with different keys, in the order the keys were first set: `set`
replaces a value where it stands and appends a new key at the end. Read through `get?` and
`contains`; each operation has one lemma saying what it does to them.
-/

namespace Lib

universe u v w

/-- An insertion-ordered dictionary. -/
@[ext] structure Dict (κ : Type u) (ν : Type v) where
  entries : List (κ × ν)
  nodup : (entries.map Prod.fst).Nodup
  deriving DecidableEq

namespace Dict

variable {κ : Type u} {ν : Type v} {ω : Type w}

def empty : Dict κ ν := ⟨[], List.nodup_nil⟩

instance : EmptyCollection (Dict κ ν) := ⟨empty⟩

@[simp] theorem entries_empty : (∅ : Dict κ ν).entries = [] := rfl

def keys (d : Dict κ ν) : List κ := d.entries.map Prod.fst

def size (d : Dict κ ν) : Nat := d.entries.length

theorem keys_nodup (d : Dict κ ν) : d.keys.Nodup := d.nodup

theorem length_keys (d : Dict κ ν) : d.keys.length = d.size := List.length_map _

/-- In a loop over entries with different keys, the one whose turn it is was not there before. -/
theorem fresh_key {l front back : List (κ × ν)} {e : κ × ν} (hl : l = front ++ e :: back)
    (hnodup : (l.map Prod.fst).Nodup) : e.1 ∉ front.map Prod.fst := by
  rw [hl, List.map_append, List.nodup_append] at hnodup
  exact fun hmem => hnodup.2.2 _ hmem _ (List.mem_map_of_mem List.mem_cons_self) rfl

/-- `{k: f(k, v) for k, v in d.items()}`. -/
def mapValues (f : κ → ν → ω) (d : Dict κ ν) : Dict κ ω where
  entries := d.entries.map fun e => (e.1, f e.1 e.2)
  nodup := by simpa [List.map_map, Function.comp_def] using d.nodup

@[simp] theorem keys_mapValues (f : κ → ν → ω) (d : Dict κ ν) : (d.mapValues f).keys = d.keys := by
  simp [keys, mapValues]

/-- `{k: v for k, v in d.items() if p(k, v)}`. -/
def filter (p : κ → ν → Bool) (d : Dict κ ν) : Dict κ ν where
  entries := d.entries.filter fun e => p e.1 e.2
  nodup := d.nodup.sublist (List.filter_sublist.map Prod.fst)

variable [DecidableEq κ]

/-- `d.get(k)`. -/
def get? (d : Dict κ ν) (k : κ) : Option ν := (d.entries.find? fun e => e.1 = k).map Prod.snd

/-- `k in d`. -/
def contains (d : Dict κ ν) (k : κ) : Bool := d.entries.any fun e => e.1 = k

theorem contains_iff_mem {d : Dict κ ν} {k : κ} : d.contains k = true ↔ k ∈ d.keys := by
  simp [contains, keys]

/-- `d[k] = v`. -/
def set (d : Dict κ ν) (k : κ) (v : ν) : Dict κ ν :=
  if h : d.contains k then
    ⟨d.entries.map fun e => (e.1, if e.1 = k then v else e.2), by
      simpa [List.map_map, Function.comp_def] using d.nodup⟩
  else
    ⟨d.entries ++ [(k, v)], by
      have hk : k ∉ d.entries.map Prod.fst := fun hm => h (contains_iff_mem.mpr hm)
      simpa [List.nodup_append, d.nodup] using fun a b hab hak => hk (by
        rw [← hak]; exact List.mem_map_of_mem hab)⟩

theorem keys_set_of_mem {d : Dict κ ν} {k : κ} {v : ν} (h : k ∈ d.keys) :
    (d.set k v).keys = d.keys := by
  rw [set, dif_pos (contains_iff_mem.mpr h)]
  simp [keys, List.map_map, Function.comp_def]

theorem entries_set_of_not_mem {d : Dict κ ν} {k : κ} {v : ν} (h : k ∉ d.keys) :
    (d.set k v).entries = d.entries ++ [(k, v)] := by
  rw [set, dif_neg fun hk => h (contains_iff_mem.mp hk)]

theorem keys_set_of_not_mem {d : Dict κ ν} {k : κ} {v : ν} (h : k ∉ d.keys) :
    (d.set k v).keys = d.keys ++ [k] := by
  rw [keys, entries_set_of_not_mem h, List.map_append]
  rfl

theorem mem_keys_set {d : Dict κ ν} {k k' : κ} {v : ν} :
    k' ∈ (d.set k v).keys ↔ k' = k ∨ k' ∈ d.keys := by
  by_cases hk : k ∈ d.keys
  · rw [keys_set_of_mem hk]
    exact ⟨Or.inr, fun h => h.elim (fun h => h ▸ hk) id⟩
  · rw [keys_set_of_not_mem hk, List.mem_append, List.mem_singleton, or_comm]

theorem mem_entries_set {d : Dict κ ν} {k : κ} {v : ν} {e : κ × ν}
    (h : e ∈ (d.set k v).entries) : e = (k, v) ∨ e ∈ d.entries := by
  unfold set at h
  split at h
  · obtain ⟨e', he', rfl⟩ := List.mem_map.1 h
    by_cases hk : e'.1 = k
    · exact .inl (by simp [hk])
    · exact .inr (by simpa [hk] using he')
  · rcases List.mem_append.1 h with h | h
    · exact .inr h
    · exact .inl (List.mem_singleton.1 h)

theorem length_set_le (d : Dict κ ν) (k : κ) (v : ν) :
    (d.set k v).entries.length ≤ d.entries.length + 1 := by
  unfold set
  split
  · simp
  · simp

theorem contains_set {d : Dict κ ν} {k k' : κ} {v : ν} :
    (d.set k v).contains k' = (decide (k' = k) || d.contains k') := by
  rw [Bool.eq_iff_iff, Bool.or_eq_true, decide_eq_true_iff, contains_iff_mem, contains_iff_mem,
    mem_keys_set]

@[simp] theorem contains_mapValues (f : κ → ν → ω) (d : Dict κ ν) (k : κ) :
    (d.mapValues f).contains k = d.contains k := by
  rw [Bool.eq_iff_iff, contains_iff_mem, contains_iff_mem, keys_mapValues]

@[simp] theorem get?_empty_set_self (k : κ) (v : ν) : ((∅ : Dict κ ν).set k v).get? k = some v := by
  have hset : ((∅ : Dict κ ν).set k v).entries = [(k, v)] := by simp [set, contains]
  simp [get?, hset]

@[simp] theorem get?_empty (k : κ) : (∅ : Dict κ ν).get? k = none := rfl

@[simp] theorem contains_empty (k : κ) : (∅ : Dict κ ν).contains k = false := rfl

/-- Sets each pair in turn: `dict(pairs)`. -/
def ofList (pairs : List (κ × ν)) : Dict κ ν :=
  pairs.foldl (fun d e => d.set e.1 e.2) ∅

/-- `d.update(e)`. -/
def update (d e : Dict κ ν) : Dict κ ν := e.entries.foldl (fun d p => d.set p.1 p.2) d

theorem contains_foldl_set (l : List (κ × ν)) (d : Dict κ ν) (k : κ) :
    (l.foldl (fun d p => d.set p.1 p.2) d).contains k
      = (d.contains k || l.any fun p => p.1 = k) := by
  induction l generalizing d with
  | nil => simp
  | cons p l ih =>
    rw [List.foldl_cons, ih, contains_set, List.any_cons]
    by_cases h : k = p.1
    · simp [h]
    · simp [h, Ne.symm h]

/-! ## Reading -/

theorem get?_eq_some {d : Dict κ ν} {k : κ} {v : ν} : d.get? k = some v ↔ (k, v) ∈ d.entries := by
  obtain ⟨entries, nodup⟩ := d
  simp only [get?]
  induction entries with
  | nil => simp
  | cons e entries ih =>
    obtain ⟨hnot, hrest⟩ := List.nodup_cons.1 nodup
    rw [List.find?_cons]
    by_cases hk : e.1 = k
    · have hmem : (k, v) ∉ entries := fun hm => hnot (hk ▸ List.mem_map_of_mem (f := Prod.fst) hm)
      obtain ⟨e1, e2⟩ := e
      subst hk
      simp [hmem, eq_comm]
    · have hne : (k, v) ≠ e := fun he => hk (by rw [← he])
      simp only [hk, decide_false, List.mem_cons, hne, false_or]
      exact ih hrest

theorem get?_eq_none {d : Dict κ ν} {k : κ} : d.get? k = none ↔ k ∉ d.keys := by
  simp only [get?, keys, Option.map_eq_none_iff, List.find?_eq_none, decide_eq_true_eq,
    List.mem_map, not_exists, not_and]

theorem mem_keys {d : Dict κ ν} {k : κ} : k ∈ d.keys ↔ ∃ v, d.get? k = some v := by
  rw [← Option.isSome_iff_exists, Option.isSome_iff_ne_none, ne_eq, get?_eq_none, not_not]

theorem contains_iff_get? {d : Dict κ ν} {k : κ} : d.contains k = true ↔ ∃ v, d.get? k = some v :=
  contains_iff_mem.trans mem_keys

theorem get?_set {d : Dict κ ν} {k k' : κ} {v : ν} :
    (d.set k v).get? k' = if k' = k then some v else d.get? k' := by
  by_cases hk : k' = k
  · subst hk
    rw [if_pos rfl, get?_eq_some]
    unfold set
    split
    · rename_i h
      obtain ⟨e, he, hek⟩ := List.mem_map.1 (contains_iff_mem.1 h)
      exact List.mem_map.2 ⟨e, he, by simp [hek]⟩
    · simp
  · rw [if_neg hk]
    refine Option.ext fun w => ?_
    rw [get?_eq_some, get?_eq_some]
    unfold set
    split
    · rw [List.mem_map]
      constructor
      · rintro ⟨e, he, heq⟩
        have hek : e.1 = k' := (Prod.mk.injEq ..).mp heq |>.1
        rw [if_neg (hek ▸ hk)] at heq
        exact heq ▸ he
      · intro h
        exact ⟨(k', w), h, by simp [hk]⟩
    · simp [hk]

/-- Each entry of `e` set in turn to what it and the entry before it make. -/
theorem get?_foldl_set (f : κ → ω → Option ν → ν) (e : Dict κ ω) (d : Dict κ ν) (k : κ) :
    (e.entries.foldl (fun d p => d.set p.1 (f p.1 p.2 (d.get? p.1))) d).get? k =
      ((e.get? k).map fun v => f k v (d.get? k)).or (d.get? k) := by
  obtain ⟨entries, nodup⟩ := e
  simp only [get?.eq_1 ⟨entries, nodup⟩]
  induction entries generalizing d with
  | nil => simp
  | cons p entries ih =>
    obtain ⟨hnot, hrest⟩ := List.nodup_cons.1 nodup
    rw [List.foldl_cons, ih _ hrest, List.find?_cons]
    by_cases hk : p.1 = k
    · have hnone : entries.find? (fun e => decide (e.1 = k)) = none := by
        rw [List.find?_eq_none]
        intro e he hek
        exact hnot (List.mem_map.2 ⟨e, he, by rw [hk]; exact of_decide_eq_true hek⟩)
      simp [hk, hnone, get?_set]
    · simp [hk, get?_set, Ne.symm hk]

theorem entries_foldl_set {l : List (κ × ν)} {d : Dict κ ν}
    (h : (d.keys ++ l.map Prod.fst).Nodup) :
    (l.foldl (fun d p => d.set p.1 p.2) d).entries = d.entries ++ l := by
  induction l generalizing d with
  | nil => simp
  | cons p l ih =>
    have hp : p.1 ∉ d.keys := fun hm => by
      have := (List.nodup_append.1 h).2.2 p.1 hm p.1 (by simp)
      exact this rfl
    have hset : (d.set p.1 p.2).entries = d.entries ++ [p] := by
      have hc : ¬ d.contains p.1 = true := fun hc => hp (contains_iff_mem.1 hc)
      simp [set, hc]
    rw [List.foldl_cons, ih, hset, List.append_assoc]
    · rfl
    · rw [keys_set_of_not_mem hp]
      simpa using h

theorem entries_ofList {l : List (κ × ν)} (h : (l.map Prod.fst).Nodup) :
    (ofList l).entries = l := by
  rw [ofList, entries_foldl_set (by simpa [keys] using h), entries_empty, List.nil_append]

theorem mem_entries_foldl_set {l : List (κ × ν)} {d : Dict κ ν} {e : κ × ν}
    (h : e ∈ (l.foldl (fun d p => d.set p.1 p.2) d).entries) : e ∈ d.entries ∨ e ∈ l := by
  induction l generalizing d with
  | nil => exact .inl h
  | cons p l ih =>
    rcases ih h with h | h
    · rcases mem_entries_set h with rfl | h
      · exact .inr (List.mem_cons_self ..)
      · exact .inl h
    · exact .inr (List.mem_cons_of_mem p h)

theorem mem_entries_ofList {l : List (κ × ν)} {e : κ × ν} (h : e ∈ (ofList l).entries) : e ∈ l := by
  rcases mem_entries_foldl_set h with h | h
  · exact absurd h List.not_mem_nil
  · exact h

theorem get?_mapValues (f : κ → ν → ω) (d : Dict κ ν) (k : κ) :
    (d.mapValues f).get? k = (d.get? k).map (f k) := by
  refine Option.ext fun w => ?_
  rw [get?_eq_some, Option.map_eq_some_iff]
  constructor
  · intro h
    obtain ⟨e, he, heq⟩ := List.mem_map.1 h
    obtain ⟨hk, hw⟩ := (Prod.mk.injEq ..).mp heq
    exact ⟨e.2, get?_eq_some.2 (hk ▸ he), hk ▸ hw⟩
  · rintro ⟨v, hv, rfl⟩
    exact List.mem_map.2 ⟨(k, v), get?_eq_some.1 hv, rfl⟩

theorem get?_filter {p : κ → ν → Bool} {d : Dict κ ν} {k : κ} {v : ν} :
    (d.filter p).get? k = some v ↔ d.get? k = some v ∧ p k v = true := by
  rw [get?_eq_some, get?_eq_some]
  exact List.mem_filter

end Dict

end Lib
