import AnsiDeck.Lib.JsonReader
import Mathlib.Algebra.GroupWithZero.Nat

/-!
# How long JSON is

The length of what `json.dumps` writes: of an array or an object what its parts take and two
characters for each (the brackets or the separators), and at most twelve for a character of a
string, an escaped pair of surrogates. What `json.loads` gives is no larger than its text: an array
has fewer values than that has characters (`length_arr_of_loads`), and no integer has more digits
than the reader takes (`shortInts_of_loads`).
-/

namespace Lib

namespace JsonText

theorem length_escapeChar_le (c : Nat) : (escapeChar c).length ≤ 12 := by
  rw [escapeChar]
  split
  · simp
  · split
    · simp
    · split
      · simp [escapeUnit]
      · simp [escapeUnit]

theorem length_flatMap_le {α β : Type} {f : α → List β} {k : Nat} {l : List α}
    (h : ∀ a ∈ l, (f a).length ≤ k) : (l.flatMap f).length ≤ k * l.length := by
  induction l with
  | nil => simp
  | cons a l ih =>
    have hone := h a List.mem_cons_self
    have hrest := ih fun b hb => h b (List.mem_cons_of_mem _ hb)
    rw [List.flatMap_cons, List.length_append, List.length_cons, Nat.mul_succ]
    omega

theorem length_dumpStr_le (s : Str) : (dumpStr s).length ≤ 12 * s.length + 2 := by
  have := length_flatMap_le (l := s) fun c _ => length_escapeChar_le c
  simp only [dumpStr, List.cons_append, List.length_cons, List.length_append, List.length_nil]
  omega

theorem length_dumpMoreItems (vs : List Json) :
    (dumpMoreItems vs).length = (vs.map fun v => (dump v).length + 2).sum + 1 := by
  induction vs with
  | nil => rfl
  | cons v vs ih =>
    rw [dumpMoreItems, List.length_append, List.length_append, ih, List.map_cons, List.sum_cons]
    have hsep : (str ", ").length = 2 := rfl
    omega

theorem length_dump_arr {vs : List Json} (h : vs ≠ []) :
    (dump (.arr vs)).length = (vs.map fun v => (dump v).length + 2).sum := by
  cases vs with
  | nil => exact absurd rfl h
  | cons v vs =>
    rw [dump, dumpItems, List.length_cons, List.length_append, length_dumpMoreItems, List.map_cons,
      List.sum_cons]
    omega

/-- Of no member, or of some. -/
theorem length_dump_arr_le (vs : List Json) :
    (dump (.arr vs)).length ≤ (vs.map fun v => (dump v).length + 2).sum + 2 := by
  by_cases h : vs = []
  · rw [h]
    exact Nat.le_refl _
  · rw [length_dump_arr h]
    omega

theorem length_dumpMoreMembers (es : List (Str × Json)) :
    (dumpMoreMembers es).length =
      (es.map fun e => (dumpStr e.1).length + (dump e.2).length + 4).sum + 1 := by
  induction es with
  | nil => rfl
  | cons e es ih =>
    rw [dumpMoreMembers]
    simp only [List.length_append, ih, List.map_cons, List.sum_cons]
    have hcomma : (str ", ").length = 2 := rfl
    have hcolon : (str ": ").length = 2 := rfl
    omega

theorem length_dump_obj {es : List (Str × Json)} (h : es ≠ []) :
    (dump (.obj es)).length =
      (es.map fun e => (dumpStr e.1).length + (dump e.2).length + 4).sum := by
  cases es with
  | nil => exact absurd rfl h
  | cons e es =>
    rw [dump, dumpMembers]
    simp only [List.length_cons, List.length_append, length_dumpMoreMembers, List.map_cons,
      List.sum_cons]
    have hcolon : (str ": ").length = 2 := rfl
    omega

theorem length_decimalInt_le {n : Int} {k : Nat} (hk : 0 < k) (h : n.natAbs < 10 ^ k) :
    (decimalInt n).length ≤ k + 1 := by
  cases n with
  | ofNat n => exact ((length_decimal_le hk).2 h).trans (Nat.le_succ _)
  | negSucc n =>
    rw [decimalInt, List.length_cons]
    exact Nat.succ_le_succ ((length_decimal_le hk).2 h)

/-! ## What is read -/

/-- What a literal or a number is. -/
def Scalar (v : Json) : Prop := ∀ k w, Json.At k v w → w = v

theorem scalar_of_ne {v : Json} (harr : ∀ items, v ≠ .arr items) (hobj : ∀ es, v ≠ .obj es) :
    Scalar v := by
  intro k w hat
  cases hat with
  | here => rfl
  | item => exact absurd rfl (harr _)
  | member => exact absurd rfl (hobj _)

theorem literals_ne : ∀ constants : Bool, ∀ l ∈ literals constants,
    Scalar l.2 ∧ (∀ items, l.2 ≠ .arr items) ∧ ∀ n, l.2 ≠ .int n := by
  intro constants l hl
  cases constants with
  | false =>
    simp only [literals, List.mem_append, List.mem_cons, Bool.false_eq_true, if_false,
      List.not_mem_nil, or_false] at hl
    obtain rfl | rfl | rfl := hl
    all_goals exact ⟨scalar_of_ne (by simp) (by simp), by simp, by simp⟩
  | true =>
    simp only [literals, List.mem_append, List.mem_cons, if_true, List.not_mem_nil, or_false] at hl
    obtain (rfl | rfl | rfl) | rfl | rfl | rfl := hl
    all_goals exact ⟨scalar_of_ne (by simp) (by simp), by simp, by simp⟩

theorem ofDigits_lt {digits : List Nat} (h : ∀ d ∈ digits, d < 10) :
    ofDigits digits < 10 ^ digits.length := by
  induction digits using List.reverseRecOn with
  | nil => exact Nat.one_pos
  | append_singleton digits d ih =>
    have hd := h d (by simp)
    have hrest := ih fun d' hd' => h d' (List.mem_append_left _ hd')
    rw [ofDigits_concat, List.length_append, List.length_singleton, Nat.pow_succ]
    omega

theorem digits_of_whole {s : Str} {r : Str × Str} (h : whole s = some r) :
    0 < r.1.length ∧ ∀ c ∈ r.1, isDigit c = true := by
  rw [whole] at h
  split at h
  · cases h
    exact ⟨Nat.one_pos, fun c hc => List.mem_singleton.1 hc ▸ rfl⟩
  · dsimp only at h
    split at h
    · cases h
    · next hne =>
      cases h
      exact ⟨List.length_pos_iff.2 hne, fun c hc => List.mem_takeWhile_imp hc⟩

/-- A number is an integer of no more digits than the reader takes, or a double. -/
theorem number_cases {d : Dialect} {s : Str} {r : Json × Str} (h : number d s = some r) :
    (∃ n, r.1 = .int n ∧ ∀ most ∈ d.maxDigits, (decimal n.natAbs).length ≤ most) ∨
      ∃ x, r.1 = .float x := by
  obtain ⟨w, hw, h⟩ := Option.bind_eq_some_iff.1 h
  dsimp only at h
  split at h
  · split at h
    · next hmost =>
      refine .inl ⟨_, (congrArg Prod.fst (Option.some.inj h)).symm, fun most hmem => ?_⟩
      rw [hmem, Option.all_some, decide_eq_true_eq] at hmost
      obtain ⟨hpos, hdigits⟩ := digits_of_whole hw
      have hlt : ofDigitChars w.1 < 10 ^ w.1.length := by
        have hsmall : ∀ d ∈ w.1.map (· - 48), d < 10 := by
          intro d hd
          obtain ⟨c, hc, rfl⟩ := List.mem_map.1 hd
          have hc := hdigits c hc
          simp only [isDigit, Bool.and_eq_true, decide_eq_true_eq] at hc
          omega
        have := ofDigits_lt hsmall
        rwa [List.length_map] at this
      have hlen := (length_decimal_le hpos).2 hlt
      split
      · rw [Int.natAbs_neg, Int.natAbs_natCast]
        exact hlen.trans hmost
      · rw [Int.natAbs_natCast]
        exact hlen.trans hmost
    · cases h
  · cases h
    exact .inr ⟨_, rfl⟩

/-- The values of an array each take a character. -/
theorem countRule (d : Dialect) :
    Rule d (fun _ s v rest => rest.length < s.length ∧ ∀ items, v = .arr items →
        items.length ≤ s.length)
      (fun _ s vs rest => vs.length + rest.length ≤ s.length ∧ rest.length < s.length)
      (fun _ s _ rest => rest.length < s.length) where
  string h := ⟨Nat.lt_succ_of_lt (length_of_string h), fun items hv => by cases hv⟩
  emptyArray h := ⟨Nat.lt_succ_of_lt (length_of_skip_eq h), fun items hv => by
    cases hv
    exact Nat.zero_le _⟩
  array := fun {room s rest vs} h => by
    have hskip := length_skip_le s
    rw [List.length_cons]
    refine ⟨by omega, fun items hv => ?_⟩
    cases hv
    omega
  emptyObject h := ⟨Nat.lt_succ_of_lt (length_of_skip_eq h), fun items hv => by cases hv⟩
  object h := ⟨Nat.lt_succ_of_lt (Nat.lt_of_lt_of_le h (length_skip_le _)), fun items hv => by
    cases hv⟩
  literal h := by
    refine ⟨length_of_literal h, fun items hv => ?_⟩
    obtain ⟨l, hl, rfl⟩ := Option.map_eq_some_iff.1 h
    exact absurd hv ((literals_ne _ l (List.mem_of_find?_eq_some hl)).2.1 items)
  number h := by
    refine ⟨length_of_number h, fun items hv => ?_⟩
    rcases number_cases h with ⟨n, hn, -⟩ | ⟨x, hx⟩
    · rw [hn] at hv
      cases hv
    · rw [hx] at hv
      cases hv
  lastItem := fun {room s s' rest v} hv hskip => by
    have hrest := length_of_skip_eq hskip
    rw [List.length_singleton]
    omega
  moreItems := fun {room s s' s'' rest v vs} hv hskip hvs => by
    have hcomma := length_of_skip_eq hskip
    have hle := length_skip_le s''
    rw [List.length_cons]
    omega
  lastMember := fun {room s t s' rest k v} hk ht hv hskip => by
    have hkey := length_of_string hk
    have hcolon := length_of_skip_eq ht
    have hle := length_skip_le t
    have hrest := length_of_skip_eq hskip
    rw [List.length_cons]
    omega
  moreMembers := fun {room s t s' s'' rest k v es} hk ht hv hskip hes => by
    have hkey := length_of_string hk
    have hcolon := length_of_skip_eq ht
    have hle := length_skip_le t
    have hcomma := length_of_skip_eq hskip
    have hle' := length_skip_le s''
    rw [List.length_cons]
    omega

theorem length_arr_of_loads {d : Dialect} {room : Nat} {s : Str} {items : List Json}
    (h : loads d room s = some (.arr items)) : items.length ≤ s.length := by
  obtain ⟨rest, ⟨-, hlen⟩, -⟩ := (countRule d).loads h
  exact (hlen items rfl).trans (length_skip_le s)

/-- No integer in a value has more digits than the reader takes. -/
def ShortInts (d : Dialect) (v : Json) : Prop :=
  ∀ k n, Json.At k v (.int n) → ∀ most ∈ d.maxDigits, (decimal n.natAbs).length ≤ most

theorem shortInts_arr {d : Dialect} {vs : List Json} (h : ∀ v ∈ vs, ShortInts d v) :
    ShortInts d (.arr vs) := by
  intro k n hat
  cases hat with
  | item hv hat => exact h _ hv _ _ hat

theorem shortInts_obj {d : Dialect} {es : List (Str × Json)} (h : ∀ e ∈ es, ShortInts d e.2) :
    ShortInts d (.obj es) := by
  intro k n hat
  cases hat with
  | member he hat => exact h _ he _ _ hat

theorem shortInts_member {d : Dialect} {es : List (Str × Json)} (h : ShortInts d (.obj es))
    {e : Str × Json} (he : e ∈ es) : ShortInts d e.2 :=
  fun k n hat => h (k + 1) n (.member he hat)

theorem shortInts_item {d : Dialect} {vs : List Json} (h : ShortInts d (.arr vs)) {v : Json}
    (hv : v ∈ vs) : ShortInts d v :=
  fun k n hat => h (k + 1) n (.item hv hat)

theorem shortInts_of_ne {d : Dialect} {v : Json} (hscalar : Scalar v) (h : ∀ n, v ≠ .int n) :
    ShortInts d v :=
  fun k n hat => absurd (hscalar k _ hat).symm (h n)

theorem shortIntsRule (d : Dialect) : Rule d (fun _ _ v _ => ShortInts d v)
    (fun _ _ vs _ => ∀ v ∈ vs, ShortInts d v) (fun _ _ es _ => ∀ e ∈ es, ShortInts d e.2) where
  string _ := shortInts_of_ne (scalar_of_ne (by simp) (by simp)) (by simp)
  emptyArray _ := shortInts_arr (by simp)
  array h := shortInts_arr h
  emptyObject _ := shortInts_obj fun e he => by simp [Dict.ofList] at he
  object h := shortInts_obj fun e he => h e (Dict.mem_entries_ofList he)
  literal h := by
    obtain ⟨l, hl, rfl⟩ := Option.map_eq_some_iff.1 h
    have hne := literals_ne _ l (List.mem_of_find?_eq_some hl)
    exact shortInts_of_ne hne.1 hne.2.2
  number h := by
    rcases number_cases h with ⟨n, hn, hmost⟩ | ⟨x, hx⟩
    · intro k m hat
      rw [hn] at hat
      cases hat
      exact hmost
    · rw [hx]
      exact shortInts_of_ne (scalar_of_ne (by simp) (by simp)) (by simp)
  lastItem hv _ := List.forall_mem_singleton.2 hv
  moreItems hv _ hvs := List.forall_mem_cons.2 ⟨hv, hvs⟩
  lastMember _ _ hv _ := List.forall_mem_singleton.2 hv
  moreMembers _ _ hv _ hes := List.forall_mem_cons.2 ⟨hv, hes⟩

theorem shortInts_of_loads {d : Dialect} {room : Nat} {s : Str} {v : Json}
    (h : loads d room s = some v) : ShortInts d v := by
  obtain ⟨rest, hv, -⟩ := (shortIntsRule d).loads h
  exact hv

end JsonText

end Lib
