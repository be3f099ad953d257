import Mathlib.Data.List.Sort
import Mathlib.Algebra.Order.Ring.Nat

/-!
# IP networks

A network is the addresses of one family that share their first bits, so two networks of a family
are either nested or disjoint. `collapse` is `ipaddress.collapse_addresses`: the same addresses in
networks that are disjoint. (Python first joins runs of single addresses, which joining siblings
does as well.)
-/

namespace Lib

inductive Family
  | v4
  | v6
  deriving DecidableEq, Repr

/-- How many bits an address has. -/
def Family.width : Family → Nat
  | .v4 => 32
  | .v6 => 128

@[simp] theorem Family.width_v4 : Family.v4.width = 32 := rfl

@[simp] theorem Family.width_v6 : Family.v6.width = 128 := rfl

/-- The addresses whose first `length` bits are `index`. -/
structure Network where
  family : Family
  length : Nat
  index : Nat
  length_le : length ≤ family.width
  index_lt : index < 2 ^ length
  deriving DecidableEq

namespace Network

def size (n : Network) : Nat := 2 ^ (n.family.width - n.length)

/-- `network_address`. -/
def first (n : Network) : Nat := n.index * n.size

/-- `broadcast_address`. -/
def last (n : Network) : Nat := n.first + (n.size - 1)

def Mem (n : Network) (a : Nat) : Prop := n.first ≤ a ∧ a ≤ n.last

instance (n : Network) (a : Nat) : Decidable (n.Mem a) := inferInstanceAs (Decidable (_ ∧ _))

theorem size_pos (n : Network) : 0 < n.size := Nat.two_pow_pos _

theorem first_le_last (n : Network) : n.first ≤ n.last := Nat.le_add_right _ _

theorem mem_iff {n : Network} {a : Nat} : n.Mem a ↔ a / n.size = n.index := by
  have hpos := n.size_pos
  rw [Nat.div_eq_iff hpos]
  unfold Mem last first
  omega

/-- The addresses of a network by the blocks of a shorter prefix. -/
theorem div_size {n m : Network} (hf : n.family = m.family) (hle : n.length ≤ m.length) (a : Nat) :
    a / n.size = a / m.size / 2 ^ (m.length - n.length) := by
  have hsize : n.size = m.size * 2 ^ (m.length - n.length) := by
    have hm := m.length_le
    unfold size
    rw [hf, ← Nat.pow_add]
    congr 1
    omega
  rw [hsize, Nat.div_div_eq_div_mul]

/-- Two networks of a family are nested or disjoint. -/
theorem nested_or_apart {n m : Network} (hf : n.family = m.family) (hle : n.length ≤ m.length) :
    (∀ a, m.Mem a → n.Mem a) ∨ ∀ a, m.Mem a → ¬ n.Mem a := by
  by_cases h : m.index / 2 ^ (m.length - n.length) = n.index
  · refine .inl fun a ha => ?_
    rw [mem_iff, div_size hf hle, mem_iff.mp ha, h]
  · refine .inr fun a ha hn => h ?_
    rw [mem_iff, div_size hf hle, mem_iff.mp ha] at hn
    exact hn

/-! ## Collapsing -/

/-- The network with one bit less, unless there is none. -/
def supernet (n : Network) : Network :=
  if h : n.length = 0 then n
  else
    { family := n.family
      length := n.length - 1
      index := n.index / 2
      length_le := (Nat.sub_le _ _).trans n.length_le
      index_lt := by
        have := n.index_lt
        obtain ⟨k, hk⟩ := Nat.exists_eq_succ_of_ne_zero h
        rw [hk, Nat.pow_succ] at this
        rw [hk, Nat.succ_sub_one]
        omega }

@[simp] theorem family_supernet (n : Network) : n.supernet.family = n.family := by
  unfold supernet
  split <;> rfl

theorem mem_supernet {n : Network} (h : n.length ≠ 0) {a : Nat} :
    n.supernet.Mem a ↔ a / n.size / 2 = n.index / 2 := by
  have hlen : n.supernet.length = n.length - 1 := by simp [supernet, h]
  have hindex : n.supernet.index = n.index / 2 := by simp [supernet, h]
  have hpow : n.length - (n.length - 1) = 1 := by omega
  rw [mem_iff, div_size (m := n) (family_supernet n) (by omega), hlen, hindex, hpow, Nat.pow_one]

/-- Two networks with one supernet make it up. -/
theorem mem_supernet_iff {n m : Network} (hsuper : n.supernet = m.supernet) (hne : n ≠ m)
    {a : Nat} : n.supernet.Mem a ↔ n.Mem a ∨ m.Mem a := by
  have hf : n.family = m.family := by
    have := congrArg Network.family hsuper
    simpa using this
  have hall : ∀ k : Network, k.length = 0 → k.supernet = k := by
    intro k hk
    simp [supernet, hk]
  have hsub : ∀ k : Network, k.Mem a → k.supernet.Mem a := by
    intro k hk
    by_cases h0 : k.length = 0
    · rw [hall k h0]
      exact hk
    · rw [mem_supernet h0, mem_iff.mp hk]
  refine ⟨fun h => ?_, fun h => h.elim (hsub n) fun hm => hsuper ▸ hsub m hm⟩
  by_cases hn : n.length = 0
  · rw [hall n hn] at h
    exact .inl h
  by_cases hm : m.length = 0
  · rw [hsuper, hall m hm] at h
    exact .inr h
  have hlen : n.length = m.length := by
    have := congrArg Network.length hsuper
    simp only [supernet, hn, hm, dite_false] at this
    omega
  have hindex : n.index / 2 = m.index / 2 := by
    have := congrArg Network.index hsuper
    simpa [supernet, hn, hm] using this
  have hdiffer : n.index ≠ m.index := by
    intro heq
    apply hne
    cases n
    cases m
    simp_all
  have hsize : n.size = m.size := by simp only [size, hf, hlen]
  rw [mem_supernet hn] at h
  rw [mem_iff, mem_iff, ← hsize]
  omega

/-- The networks still to look at, and those looked at, which have different supernets. -/
def mergeSiblings (toMerge kept : List Network) : List Network :=
  match toMerge with
  | [] => kept
  | net :: toMerge =>
    match _h : kept.find? fun m => m.supernet = net.supernet with
    | none => mergeSiblings toMerge (net :: kept)
    | some existing =>
      if existing = net then mergeSiblings toMerge kept
      else mergeSiblings (net.supernet :: toMerge) (kept.erase existing)
termination_by 2 * toMerge.length + kept.length
decreasing_by
  · simp only [List.length_cons]
    omega
  · simp only [List.length_cons]
    omega
  · have hmem : existing ∈ kept := List.mem_of_find?_eq_some _h
    have hpos := List.length_pos_of_mem hmem
    simp only [List.length_cons, List.length_erase_of_mem hmem]
    omega

/-- By the address, then by the netmask. -/
def le (n m : Network) : Prop := n.first < m.first ∨ (n.first = m.first ∧ n.length ≤ m.length)

instance : DecidableRel le := fun _ _ => inferInstanceAs (Decidable (_ ∨ _))

instance : Std.Total le := ⟨fun n m => by unfold le; omega⟩

instance : IsTrans Network le := ⟨fun a b c h h' => by unfold le at *; omega⟩

/-- The sorted networks after `kept`, without those inside one that is kept. -/
def dropInside (kept : Network) : List Network → List Network
  | [] => []
  | n :: rest => if n.last ≤ kept.last then dropInside kept rest else n :: dropInside n rest

def collapse (nets : List Network) : List Network :=
  match (mergeSiblings nets.reverse []).insertionSort le with
  | [] => []
  | n :: rest => n :: dropInside n rest

/-- Some network of the list holds the address. -/
def Covers (nets : List Network) (a : Nat) : Prop := ∃ n ∈ nets, n.Mem a

theorem covers_cons {n : Network} {nets : List Network} {a : Nat} :
    Covers (n :: nets) a ↔ n.Mem a ∨ Covers nets a := by simp [Covers]

theorem covers_mergeSiblings (toMerge kept : List Network) (a : Nat) :
    Covers (mergeSiblings toMerge kept) a ↔ Covers toMerge a ∨ Covers kept a := by
  fun_induction mergeSiblings toMerge kept with
  | case1 kept => simp [Covers]
  | case2 kept net toMerge h ih =>
    rw [ih, covers_cons, covers_cons]
    tauto
  | case3 kept toMerge net h ih =>
    have hmem : net ∈ kept := List.mem_of_find?_eq_some h
    rw [ih, covers_cons]
    have : net.Mem a → Covers kept a := fun hnet => ⟨net, hmem, hnet⟩
    tauto
  | case4 kept net toMerge existing h hne ih =>
    have hmem : existing ∈ kept := List.mem_of_find?_eq_some h
    have hsuper : net.supernet = existing.supernet := by
      have := List.find?_some h
      simpa using (of_decide_eq_true this).symm
    have hkept : Covers kept a ↔ existing.Mem a ∨ Covers (kept.erase existing) a := by
      rw [← covers_cons]
      exact ⟨fun ⟨n, hn, ha⟩ => ⟨n, (List.perm_cons_erase hmem).mem_iff.mp hn, ha⟩,
        fun ⟨n, hn, ha⟩ => ⟨n, (List.perm_cons_erase hmem).mem_iff.mpr hn, ha⟩⟩
    rw [ih, covers_cons, covers_cons, mem_supernet_iff hsuper (Ne.symm hne), hkept]
    tauto

theorem covers_dropInside {kept : Network} {nets : List Network}
    (hs : (kept :: nets).Pairwise le) (a : Nat) :
    kept.Mem a ∨ Covers (dropInside kept nets) a ↔ kept.Mem a ∨ Covers nets a := by
  induction nets generalizing kept with
  | nil => rfl
  | cons n rest ih =>
    have hall := List.pairwise_cons.mp hs
    have hrest := List.pairwise_cons.mp hall.2
    have hfirst : kept.first ≤ n.first := by
      have := hall.1 n List.mem_cons_self
      unfold le at this
      omega
    rw [dropInside]
    split
    · rename_i hin
      have hinside : n.Mem a → kept.Mem a := fun h => ⟨hfirst.trans h.1, h.2.trans hin⟩
      rw [ih (List.pairwise_cons.mpr ⟨fun m hm => hall.1 m (List.mem_cons_of_mem _ hm), hrest.2⟩),
        covers_cons]
      tauto
    · rw [covers_cons, covers_cons, ih hall.2]

/-- `collapse` neither adds nor loses an address. -/
theorem covers_collapse (nets : List Network) (a : Nat) :
    Covers (collapse nets) a ↔ Covers nets a := by
  have hsorted := List.pairwise_insertionSort le (mergeSiblings nets.reverse [])
  have hsame : Covers ((mergeSiblings nets.reverse []).insertionSort le) a ↔ Covers nets a := by
    have hperm : Covers ((mergeSiblings nets.reverse []).insertionSort le) a ↔
        Covers (mergeSiblings nets.reverse []) a := by simp [Covers, List.mem_insertionSort]
    rw [hperm, covers_mergeSiblings]
    simp [Covers]
  rw [← hsame, collapse]
  cases h : (mergeSiblings nets.reverse []).insertionSort le with
  | nil => rfl
  | cons n rest =>
    rw [h] at hsorted
    rw [covers_cons, covers_cons]
    exact covers_dropInside hsorted a

theorem family_mergeSiblings {f : Family} (toMerge kept : List Network)
    (hm : ∀ n ∈ toMerge, n.family = f) (hk : ∀ n ∈ kept, n.family = f) :
    ∀ n ∈ mergeSiblings toMerge kept, n.family = f := by
  fun_induction mergeSiblings toMerge kept with
  | case1 kept => exact hk
  | case2 kept net toMerge h ih =>
    rw [List.forall_mem_cons] at hm
    exact ih hm.2 (List.forall_mem_cons.mpr ⟨hm.1, hk⟩)
  | case3 kept toMerge net h ih =>
    rw [List.forall_mem_cons] at hm
    exact ih hm.2 hk
  | case4 kept net toMerge existing h hne ih =>
    rw [List.forall_mem_cons] at hm
    refine ih (List.forall_mem_cons.mpr ⟨?_, hm.2⟩) fun n hn => hk n (List.mem_of_mem_erase hn)
    rw [family_supernet]
    exact hm.1

/-- A network after another in the order, that ends after it too, begins after it. -/
theorem apart_of_le {n m : Network} (hf : n.family = m.family) (hle : le n m)
    (hlast : n.last < m.last) : n.last < m.first := by
  have hn := n.first_le_last
  have hm := m.first_le_last
  apply Nat.lt_of_not_le
  intro hmeet
  unfold le at hle
  rcases Nat.le_total n.length m.length with hlen | hlen
  · rcases nested_or_apart hf hlen with hin | hout
    · have := (hin m.last ⟨hm, Nat.le_refl _⟩).2
      omega
    · exact hout m.first ⟨Nat.le_refl _, hm⟩ ⟨by omega, hmeet⟩
  · rcases nested_or_apart hf.symm hlen with hin | hout
    · have := (hin n.first ⟨Nat.le_refl _, hn⟩).1
      have hsame : n.length = m.length := by omega
      have hsize : n.size = m.size := by simp only [size, hf, hsame]
      unfold last at hlast
      omega
    · exact hout n.last ⟨hn, Nat.le_refl _⟩ ⟨hmeet, Nat.le_of_lt hlast⟩

theorem dropInside_apart {f : Family} {kept : Network} {nets : List Network}
    (hs : (kept :: nets).Pairwise le) (hfam : ∀ n ∈ kept :: nets, n.family = f) :
    (kept :: dropInside kept nets).Pairwise fun n m => n.last < m.first := by
  induction nets generalizing kept with
  | nil => exact List.pairwise_singleton _ _
  | cons n rest ih =>
    have hall := List.pairwise_cons.mp hs
    have hrest := List.pairwise_cons.mp hall.2
    have hfams := List.forall_mem_cons.mp hfam
    rw [dropInside]
    split
    · refine ih (List.pairwise_cons.mpr
        ⟨fun m hm => hall.1 m (List.mem_cons_of_mem _ hm), hrest.2⟩) ?_
      exact List.forall_mem_cons.mpr ⟨hfams.1, fun m hm => hfams.2 m (List.mem_cons_of_mem _ hm)⟩
    · rename_i hout
      have hlater := ih hall.2 hfams.2
      have happart : kept.last < n.first := apart_of_le
        (hfams.1.trans (hfams.2 n List.mem_cons_self).symm) (hall.1 n List.mem_cons_self)
        (Nat.lt_of_not_le hout)
      refine List.pairwise_cons.mpr ⟨fun m hm => ?_, hlater⟩
      rcases List.mem_cons.mp hm with rfl | hm
      · exact happart
      · have hnm := (List.pairwise_cons.mp hlater).1 m hm
        have := n.first_le_last
        omega

/-- What `collapse` gives is disjoint, in order. -/
theorem collapse_apart {f : Family} {nets : List Network} (hfam : ∀ n ∈ nets, n.family = f) :
    (collapse nets).Pairwise fun n m => n.last < m.first := by
  have hsorted := List.pairwise_insertionSort le (mergeSiblings nets.reverse [])
  have hfams : ∀ n ∈ (mergeSiblings nets.reverse []).insertionSort le, n.family = f := by
    intro n hn
    rw [List.mem_insertionSort] at hn
    exact family_mergeSiblings _ _ (fun m hm => hfam m (List.mem_reverse.mp hm)) (by simp) n hn
  rw [collapse]
  cases h : (mergeSiblings nets.reverse []).insertionSort le with
  | nil => exact List.Pairwise.nil
  | cons n rest =>
    rw [h] at hsorted hfams
    exact dropInside_apart hsorted hfams

end Network

end Lib
