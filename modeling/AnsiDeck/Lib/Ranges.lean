import Mathlib.Data.List.Dedup
import Mathlib.Data.List.Sort

/-!
# Ranges of numbers, and rectangles of them

A range is its two ends, both of which belong to it; one that ends before it begins is empty.
`merge` joins ranges that overlap or touch. `sweep` cuts rectangles (a range of places, each with a
range of values) into pieces whose ranges of places are disjoint, each with all its values. Neither
adds or loses a point, and what they give is disjoint.
-/

namespace Lib

abbrev Range := Nat × Nat

namespace Range

def Mem (r : Range) (x : Nat) : Prop := r.1 ≤ x ∧ x ≤ r.2

instance (r : Range) (x : Nat) : Decidable (r.Mem x) := inferInstanceAs (Decidable (_ ∧ _))

/-- Some range of the list holds `x`. -/
def Covers (rs : List Range) (x : Nat) : Prop := ∃ r ∈ rs, r.Mem x

theorem covers_cons {r : Range} {rs : List Range} {x : Nat} :
    Covers (r :: rs) x ↔ r.Mem x ∨ Covers rs x := by simp [Covers]

@[simp] theorem not_covers_nil (x : Nat) : ¬ Covers [] x := by simp [Covers]

/-- The first ends before the second begins. -/
def Before (r s : Range) : Prop := r.2 < s.1

theorem Before.apart {r s : Range} (h : Before r s) {x : Nat} (hr : r.Mem x) : ¬ s.Mem x := by
  intro hs
  exact absurd (Nat.lt_of_le_of_lt hr.2 h) (Nat.not_lt.mpr hs.1)

/-! ## Joining ranges -/

/-- By the lower end, then by the upper. -/
def le (r s : Range) : Prop := r.1 < s.1 ∨ (r.1 = s.1 ∧ r.2 ≤ s.2)

instance : DecidableRel le := fun _ _ => inferInstanceAs (Decidable (_ ∨ _))

instance : Std.Total le := ⟨fun r s => by unfold le; omega⟩

instance : IsTrans Range le := ⟨fun r s t h h' => by unfold le at *; omega⟩

/-- The ranges that follow `r`, joined to it as far as they reach it. -/
def join (r : Range) : List Range → List Range
  | [] => [r]
  | s :: rest => if s.1 ≤ r.2 + 1 then join (r.1, max r.2 s.2) rest else r :: join s rest

def merge (rs : List Range) : List Range :=
  match rs.insertionSort le with
  | [] => []
  | r :: rest => join r rest

theorem pairwise_joined {r s : Range} {rest : List Range} (hs : (r :: s :: rest).Pairwise le) :
    ((r.1, max r.2 s.2) :: rest : List Range).Pairwise le := by
  simp only [List.pairwise_cons] at hs ⊢
  refine ⟨fun t ht => ?_, hs.2.2⟩
  have hrs := hs.1 s List.mem_cons_self
  have hrt := hs.1 t (List.mem_cons_of_mem _ ht)
  have hst := hs.2.1 t ht
  unfold le at hrs hrt hst ⊢
  dsimp only
  omega

theorem covers_join {r : Range} {rs : List Range} (hs : (r :: rs).Pairwise le) (x : Nat) :
    Covers (join r rs) x ↔ r.Mem x ∨ Covers rs x := by
  induction rs generalizing r with
  | nil => simp [join, Covers]
  | cons s rest ih =>
    have hall := List.pairwise_cons.mp hs
    have hrs : le r s := hall.1 s List.mem_cons_self
    by_cases hreach : s.1 ≤ r.2 + 1
    · have hjoined : Mem (r.1, max r.2 s.2) x ↔ r.Mem x ∨ s.Mem x := by
        unfold le at hrs
        unfold Mem
        dsimp only
        omega
      rw [join, if_pos hreach, ih (pairwise_joined hs), hjoined, covers_cons, or_assoc]
    · rw [join, if_neg hreach, covers_cons, ih hall.2, covers_cons]

/-- `merge` neither adds nor loses a number. -/
theorem covers_merge (rs : List Range) (x : Nat) : Covers (merge rs) x ↔ Covers rs x := by
  have hmem : Covers rs x ↔ Covers (rs.insertionSort le) x := by
    simp [Covers, List.mem_insertionSort]
  have hsorted := List.pairwise_insertionSort le rs
  rw [hmem, merge]
  cases h : rs.insertionSort le with
  | nil => rfl
  | cons r rest =>
    rw [h] at hsorted
    rw [covers_join hsorted, covers_cons]

theorem mem_join_le {r s : Range} {rs : List Range} (hs : (r :: rs).Pairwise le)
    (h : s ∈ join r rs) : r.1 ≤ s.1 := by
  induction rs generalizing r with
  | nil =>
    rw [join, List.mem_singleton] at h
    rw [h]
  | cons t rest ih =>
    have hall := List.pairwise_cons.mp hs
    have hrt : r.1 ≤ t.1 := by
      have := hall.1 t List.mem_cons_self
      unfold le at this
      omega
    rw [join] at h
    split at h
    · exact ih (r := (r.1, max r.2 t.2)) (pairwise_joined hs) h
    · rcases List.mem_cons.mp h with rfl | h
      · exact Nat.le_refl _
      · exact hrt.trans (ih hall.2 h)

/-- At least one number that neither holds is between the two. -/
def Apart (r s : Range) : Prop := r.2 + 1 < s.1

theorem join_apart {r : Range} {rs : List Range} (hs : (r :: rs).Pairwise le) :
    (join r rs).Pairwise Apart := by
  induction rs generalizing r with
  | nil => exact List.pairwise_singleton _ _
  | cons s rest ih =>
    have hall := List.pairwise_cons.mp hs
    rw [join]
    split
    · exact ih (pairwise_joined hs)
    · rename_i hfar
      refine List.pairwise_cons.mpr ⟨fun t ht => ?_, ih hall.2⟩
      have hst := mem_join_le hall.2 ht
      unfold Apart
      omega

/-- What `merge` gives is in order, and no two of its ranges touch. -/
theorem merge_apart (rs : List Range) : (merge rs).Pairwise Apart := by
  have hsorted := List.pairwise_insertionSort le rs
  rw [merge]
  cases h : rs.insertionSort le with
  | nil => exact List.Pairwise.nil
  | cons r rest =>
    rw [h] at hsorted
    exact join_apart hsorted

/-- What `merge` gives is disjoint, in order. -/
theorem merge_before (rs : List Range) : (merge rs).Pairwise Before :=
  (merge_apart rs).imp fun h => by
    unfold Apart at h
    unfold Before
    omega

theorem join_nonempty {r : Range} {rs : List Range} (hr : r.1 ≤ r.2) (hrs : ∀ s ∈ rs, s.1 ≤ s.2) :
    ∀ s ∈ join r rs, s.1 ≤ s.2 := by
  induction rs generalizing r with
  | nil =>
    intro s hs
    rw [List.mem_singleton.mp hs]
    exact hr
  | cons t rest ih =>
    have hrest : ∀ s ∈ rest, s.1 ≤ s.2 := fun s hs => hrs s (List.mem_cons_of_mem _ hs)
    rw [join]
    split
    · exact ih (hr.trans (Nat.le_max_left ..)) hrest
    · intro s hs
      rcases List.mem_cons.mp hs with rfl | hs
      · exact hr
      · exact ih (hrs t List.mem_cons_self) hrest s hs

theorem merge_nonempty {rs : List Range} (h : ∀ r ∈ rs, r.1 ≤ r.2) : ∀ r ∈ merge rs, r.1 ≤ r.2 := by
  have hsorted : ∀ r ∈ rs.insertionSort le, r.1 ≤ r.2 := fun r hr =>
    h r ((List.mem_insertionSort le).mp hr)
  rw [merge]
  cases hs : rs.insertionSort le with
  | nil => simp
  | cons r rest =>
    rw [hs, List.forall_mem_cons] at hsorted
    exact join_nonempty hsorted.1 hsorted.2

theorem length_join_le (r : Range) (rs : List Range) : (join r rs).length ≤ rs.length + 1 := by
  induction rs generalizing r with
  | nil => exact Nat.le_refl _
  | cons s rest ih =>
    rw [join]
    split
    · exact (ih _).trans (Nat.le_succ _)
    · rw [List.length_cons, List.length_cons]
      exact Nat.succ_le_succ (ih s)

theorem length_merge_le (rs : List Range) : (merge rs).length ≤ rs.length := by
  have hlen := List.length_insertionSort le rs
  rw [merge]
  cases h : rs.insertionSort le with
  | nil => exact Nat.zero_le _
  | cons r rest =>
    rw [h, List.length_cons] at hlen
    rw [← hlen]
    exact length_join_le r rest

theorem join_eq_self {r : Range} {rs : List Range} (h : (r :: rs).Pairwise Apart) :
    join r rs = r :: rs := by
  induction rs generalizing r with
  | nil => rfl
  | cons s rest ih =>
    have hall := List.pairwise_cons.mp h
    have hrs := hall.1 s List.mem_cons_self
    unfold Apart at hrs
    rw [join, if_neg (by omega), ih hall.2]

/-- There is nothing to join in ranges that are in order and do not touch. -/
theorem merge_eq_self {rs : List Range} (h : rs.Pairwise Apart) (hne : ∀ r ∈ rs, r.1 ≤ r.2) :
    merge rs = rs := by
  have hsorted : rs.Pairwise le := h.imp_of_mem fun {a b} ha hb hab => by
    have hale := hne a ha
    unfold Apart at hab
    unfold le
    omega
  rw [merge, hsorted.insertionSort_eq]
  cases rs with
  | nil => rfl
  | cons r rest => exact join_eq_self h

/-! ## Cutting rectangles -/

/-- A range of places, each of which has the values of the other range. -/
abbrev Rect := Range × Range

/-- A range of places that all have the same values. -/
abbrev Piece := Range × List Range

/-- Each number with the one that follows it. -/
def gaps : List Nat → List (Nat × Nat)
  | a :: b :: rest => (a, b) :: gaps (b :: rest)
  | _ => []

/-- Where a rectangle begins, or has just ended. -/
def cuts (rects : List Rect) : List Nat :=
  ((rects.map fun e : Rect => e.1.1) ++ rects.map fun e : Rect => e.1.2 + 1).dedup.insertionSort
  (· ≤ ·)

/-- The values of the places from `gap.1` to before `gap.2`. -/
def valuesAt (rects : List Rect) (gap : Nat × Nat) : List Range :=
  merge ((rects.filter fun e => e.1.1 ≤ gap.1 && gap.2 - 1 ≤ e.1.2).map Prod.snd)

/-- The pieces so far, the last first, with the next one; it joins the last one if it touches it
and has the same values. -/
def addPiece (values : List Range) (gap : Nat × Nat) (pieces : List Piece) : List Piece :=
  if values = [] then pieces
  else match pieces with
    | [] => [((gap.1, gap.2 - 1), values)]
    | last :: earlier =>
      if last.1.2 + 1 = gap.1 ∧ last.2 = values then ((last.1.1, gap.2 - 1), last.2) :: earlier
      else ((gap.1, gap.2 - 1), values) :: last :: earlier

def sweep (rects : List Rect) : List Piece :=
  ((gaps (cuts rects)).foldl (fun pieces gap => addPiece (valuesAt rects gap) gap pieces)
    []).reverse

/-- Some piece has the value `y` at the place `x`. -/
def Has (pieces : List Piece) (x y : Nat) : Prop := ∃ p ∈ pieces, p.1.Mem x ∧ Covers p.2 y

theorem cuts_sorted (rects : List Rect) : (cuts rects).Pairwise (· < ·) := by
  have hle := List.pairwise_insertionSort (· ≤ ·)
    ((rects.map fun e : Rect => e.1.1) ++ rects.map fun e : Rect => e.1.2 + 1).dedup
  have hne : (cuts rects).Nodup :=
    (List.perm_insertionSort _ _).nodup_iff.mpr (List.nodup_dedup _)
  exact (hle.and hne).imp fun h => Nat.lt_of_le_of_ne h.1 h.2

theorem mem_cuts {rects : List Rect} {e : Rect} (h : e ∈ rects) :
    e.1.1 ∈ cuts rects ∧ e.1.2 + 1 ∈ cuts rects := by
  simp only [cuts, List.mem_insertionSort, List.mem_dedup, List.mem_append]
  exact ⟨.inl (List.mem_map_of_mem h), .inr (List.mem_map.mpr ⟨e, h, rfl⟩)⟩

theorem gaps_lt {l : List Nat} (hl : l.Pairwise (· < ·)) {g : Nat × Nat} (h : g ∈ gaps l) :
    g.1 < g.2 ∧ ∀ a ∈ l.head?, a ≤ g.1 := by
  induction l with
  | nil => exact absurd h (by simp [gaps])
  | cons a rest ih =>
    cases rest with
    | nil => exact absurd h (by simp [gaps])
    | cons b rest =>
      rw [List.pairwise_cons] at hl
      have hab : a < b := hl.1 b List.mem_cons_self
      rw [gaps] at h
      rcases List.mem_cons.mp h with rfl | h
      · exact ⟨hab, by simp⟩
      · have hlater := ih hl.2 h
        have hb : b ≤ g.1 := hlater.2 b rfl
        refine ⟨hlater.1, fun c hc => ?_⟩
        obtain rfl : a = c := Option.some.inj hc
        omega

theorem gaps_apart {l : List Nat} (hl : l.Pairwise (· < ·)) :
    (gaps l).Pairwise fun g h => g.2 ≤ h.1 := by
  induction l with
  | nil => exact List.Pairwise.nil
  | cons a rest ih =>
    cases rest with
    | nil => exact List.Pairwise.nil
    | cons b rest =>
      rw [List.pairwise_cons] at hl
      exact List.pairwise_cons.mpr ⟨fun g hg => (gaps_lt hl.2 hg).2 b rfl, ih hl.2⟩

/-- A number between two of the list lies in a gap between them. -/
theorem exists_gap {l : List Nat} (hl : l.Pairwise (· < ·)) {c d x : Nat} (hc : c ∈ l) (hd : d ∈ l)
    (hcx : c ≤ x) (hxd : x < d) : ∃ g ∈ gaps l, g.1 ≤ x ∧ x < g.2 ∧ c ≤ g.1 ∧ g.2 ≤ d := by
  induction l generalizing c with
  | nil => exact absurd hc (by simp)
  | cons a rest ih =>
    rw [List.pairwise_cons] at hl
    cases rest with
    | nil =>
      rw [List.mem_singleton] at hc hd
      omega
    | cons b rest =>
      have hab : a < b := hl.1 b List.mem_cons_self
      have hafter : ∀ e ∈ a :: b :: rest, e = a ∨ b ≤ e := by
        intro e he
        rcases List.mem_cons.mp he with rfl | he
        · exact .inl rfl
        · rcases List.mem_cons.mp he with rfl | he
          · exact .inr (Nat.le_refl _)
          · exact .inr (Nat.le_of_lt ((List.pairwise_cons.mp hl.2).1 e he))
      rw [gaps]
      by_cases hxb : x < b
      · refine ⟨(a, b), List.mem_cons_self, ?_⟩
        have hca := hafter c hc
        have hda := hafter d hd
        dsimp only
        omega
      · have hd' : d ∈ b :: rest := by
          rcases List.mem_cons.mp hd with rfl | hd
          · omega
          · exact hd
        rcases List.mem_cons.mp hc with rfl | hc
        · obtain ⟨g, hg, hin⟩ := ih hl.2 List.mem_cons_self hd' (Nat.not_lt.mp hxb)
          exact ⟨g, List.mem_cons_of_mem _ hg, by omega⟩
        · obtain ⟨g, hg, hin⟩ := ih hl.2 hc hd' hcx
          exact ⟨g, List.mem_cons_of_mem _ hg, hin⟩

theorem covers_valuesAt {rects : List Rect} {gap : Nat × Nat} {y : Nat} :
    Covers (valuesAt rects gap) y ↔
      ∃ e ∈ rects, e.1.1 ≤ gap.1 ∧ gap.2 - 1 ≤ e.1.2 ∧ e.2.Mem y := by
  rw [valuesAt, covers_merge]
  constructor
  · rintro ⟨r, hr, hy⟩
    obtain ⟨e, he, rfl⟩ := List.mem_map.mp hr
    simp only [List.mem_filter, Bool.and_eq_true, decide_eq_true_eq] at he
    exact ⟨e, he.1, he.2.1, he.2.2, hy⟩
  · rintro ⟨e, he, hlo, hhi, hy⟩
    refine ⟨e.2, List.mem_map.mpr ⟨e, ?_, rfl⟩, hy⟩
    simp only [List.mem_filter, Bool.and_eq_true, decide_eq_true_eq]
    exact ⟨he, hlo, hhi⟩

/-- The pieces up to a place: in order (the last first), none of them empty, and their values
disjoint. -/
structure Laid (pieces : List Piece) (upTo : Nat) : Prop where
  ordered : pieces.Pairwise fun p q => Before q.1 p.1
  nonempty : ∀ p ∈ pieces, p.1.1 ≤ p.1.2
  within : ∀ p ∈ pieces, p.1.2 < upTo
  values : ∀ p ∈ pieces, p.2.Pairwise Before

theorem Laid.later {pieces : List Piece} {n m : Nat} (h : Laid pieces n) (hle : n ≤ m) :
    Laid pieces m :=
  ⟨h.ordered, h.nonempty, fun p hp => Nat.lt_of_lt_of_le (h.within p hp) hle, h.values⟩

theorem Laid.add {pieces : List Piece} {gap : Nat × Nat} {values : List Range}
    (h : Laid pieces gap.1) (hgap : gap.1 < gap.2) (hvalues : values.Pairwise Before) :
    Laid (addPiece values gap pieces) gap.2 := by
  have hlater := h.later (Nat.le_of_lt hgap)
  unfold addPiece
  split
  · exact hlater
  · cases pieces with
    | nil =>
      refine ⟨List.pairwise_singleton _ _, ?_, ?_, ?_⟩
      · intro p hp
        obtain rfl := List.mem_singleton.mp hp
        show gap.1 ≤ gap.2 - 1
        omega
      · intro p hp
        obtain rfl := List.mem_singleton.mp hp
        show gap.2 - 1 < gap.2
        omega
      · intro p hp
        obtain rfl := List.mem_singleton.mp hp
        exact hvalues
    | cons last earlier =>
      have hlast := h.nonempty last List.mem_cons_self
      have hin := h.within last List.mem_cons_self
      have hord := List.pairwise_cons.mp h.ordered
      dsimp only
      split
      · rename_i hjoin
        refine ⟨List.pairwise_cons.mpr ⟨hord.1, hord.2⟩, ?_, ?_, ?_⟩
        · intro p hp
          rcases List.mem_cons.mp hp with rfl | hp
          · show last.1.1 ≤ gap.2 - 1
            omega
          · exact h.nonempty p (List.mem_cons_of_mem _ hp)
        · intro p hp
          rcases List.mem_cons.mp hp with rfl | hp
          · show gap.2 - 1 < gap.2
            omega
          · exact hlater.within p (List.mem_cons_of_mem _ hp)
        · intro p hp
          rcases List.mem_cons.mp hp with rfl | hp
          · exact h.values last List.mem_cons_self
          · exact h.values p (List.mem_cons_of_mem _ hp)
      · refine ⟨List.pairwise_cons.mpr ⟨h.within, h.ordered⟩, ?_, ?_, ?_⟩
        · intro p hp
          rcases List.mem_cons.mp hp with rfl | hp
          · show gap.1 ≤ gap.2 - 1
            omega
          · exact h.nonempty p hp
        · intro p hp
          rcases List.mem_cons.mp hp with rfl | hp
          · show gap.2 - 1 < gap.2
            omega
          · exact hlater.within p hp
        · intro p hp
          rcases List.mem_cons.mp hp with rfl | hp
          · exact hvalues
          · exact h.values p hp

theorem has_cons {p : Piece} {ps : List Piece} {x y : Nat} :
    Has (p :: ps) x y ↔ (p.1.Mem x ∧ Covers p.2 y) ∨ Has ps x y := by simp [Has]

theorem has_add {pieces : List Piece} {gap : Nat × Nat} {values : List Range}
    (h : Laid pieces gap.1) (hgap : gap.1 < gap.2) (x y : Nat) :
    Has (addPiece values gap pieces) x y ↔
      Has pieces x y ∨ ((gap.1 ≤ x ∧ x < gap.2) ∧ Covers values y) := by
  have hnew : Mem (gap.1, gap.2 - 1) x ↔ gap.1 ≤ x ∧ x < gap.2 := by
    unfold Mem
    dsimp only
    omega
  unfold addPiece
  split
  · rename_i hnone
    simp [hnone]
  · cases pieces with
    | nil => rw [has_cons, hnew, or_comm]
    | cons last earlier =>
      have hlast := h.nonempty last List.mem_cons_self
      dsimp only
      split
      · rename_i hjoin
        have hjoined : Mem (last.1.1, gap.2 - 1) x ↔
            last.1.Mem x ∨ (gap.1 ≤ x ∧ x < gap.2) := by
          unfold Mem
          dsimp only
          omega
        rw [has_cons, has_cons, hjoined, hjoin.2]
        tauto
      · rw [has_cons, hnew, or_comm]

theorem laid_foldl (rects : List Rect) {gs : List (Nat × Nat)} {pieces : List Piece} {start : Nat}
    (hgs : gs.Pairwise fun g h => g.2 ≤ h.1) (hlt : ∀ g ∈ gs, g.1 < g.2)
    (hstart : ∀ g ∈ gs, start ≤ g.1) (h : Laid pieces start) :
    (∃ stop, Laid (gs.foldl (fun pieces gap => addPiece (valuesAt rects gap) gap pieces) pieces)
      stop) ∧
    ∀ x y, Has (gs.foldl (fun pieces gap => addPiece (valuesAt rects gap) gap pieces) pieces) x y ↔
      Has pieces x y ∨ ∃ g ∈ gs, (g.1 ≤ x ∧ x < g.2) ∧ Covers (valuesAt rects g) y := by
  induction gs generalizing pieces start with
  | nil => exact ⟨⟨start, h⟩, by simp⟩
  | cons g gs ih =>
    rw [List.pairwise_cons] at hgs
    have hg := hlt g List.mem_cons_self
    have hbefore := h.later (hstart g List.mem_cons_self)
    have hadd : Laid (addPiece (valuesAt rects g) g pieces) g.2 :=
      hbefore.add hg (merge_before _)
    have hrest := ih hgs.2 (fun g' h' => hlt g' (List.mem_cons_of_mem _ h')) hgs.1 hadd
    refine ⟨hrest.1, fun x y => ?_⟩
    rw [List.foldl_cons, hrest.2, has_add hbefore hg, or_assoc]
    simp [List.mem_cons]

/-- The pieces have the values that the rectangles have, at each place. -/
theorem has_sweep (rects : List Rect) (x y : Nat) :
    Has (sweep rects) x y ↔ ∃ e ∈ rects, e.1.Mem x ∧ e.2.Mem y := by
  have hsorted := cuts_sorted rects
  have hall := (laid_foldl rects (gaps_apart hsorted) (fun g hg => (gaps_lt hsorted hg).1)
    (fun g _ => Nat.zero_le g.1) ⟨List.Pairwise.nil, by simp, by simp, by simp⟩).2 x y
  have hrev : Has (sweep rects) x y ↔ Has ((gaps (cuts rects)).foldl
      (fun pieces gap => addPiece (valuesAt rects gap) gap pieces) []) x y := by
    simp [Has, sweep]
  rw [hrev, hall]
  constructor
  · rintro (⟨p, hp, -⟩ | ⟨g, hg, hx, hy⟩)
    · exact absurd hp (by simp)
    · obtain ⟨e, he, hlo, hhi, hmem⟩ := covers_valuesAt.mp hy
      refine ⟨e, he, ?_, hmem⟩
      unfold Mem
      omega
  · rintro ⟨e, he, hx, hy⟩
    obtain ⟨hlo, hhi⟩ := mem_cuts he
    obtain ⟨g, hg, hgx, hxg, hle, hge⟩ :=
      exists_gap hsorted hlo hhi hx.1 (Nat.lt_succ_of_le hx.2)
    refine .inr ⟨g, hg, ⟨hgx, hxg⟩, covers_valuesAt.mpr ⟨e, he, hle, ?_, hy⟩⟩
    omega

/-- The pieces are disjoint, in order, and so are the values of each. -/
theorem sweep_before (rects : List Rect) :
    ((sweep rects).Pairwise fun p q => Before p.1 q.1) ∧
      ∀ p ∈ sweep rects, p.2.Pairwise Before := by
  have hsorted := cuts_sorted rects
  obtain ⟨stop, hlaid⟩ := (laid_foldl rects (gaps_apart hsorted)
    (fun g hg => (gaps_lt hsorted hg).1) (fun g _ => Nat.zero_le g.1)
    ⟨List.Pairwise.nil, by simp, by simp, by simp⟩).1
  exact ⟨List.pairwise_reverse.mpr hlaid.ordered,
    fun p hp => hlaid.values p (List.mem_reverse.mp hp)⟩

end Range

end Lib
