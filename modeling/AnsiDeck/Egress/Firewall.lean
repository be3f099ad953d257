import AnsiDeck.Lib.Cidr
import AnsiDeck.Lib.Ranges

/-!
# A slot's allowlist in the firewall

`app.worker.egress`: the sets of a slot's nftables table, compiled from the hosts (any port) and the
port entries of a run's allowlist, one pair of sets an IP version. nft wants the elements of a set
disjoint, so entries that overlap are cut up.
-/

namespace AnsiDeck

namespace Egress

open Lib (Family Network Range)

inductive Protocol
  | tcp
  | udp
  deriving DecidableEq, Repr

/-- A network that may be reached on some ports. -/
structure PortEntry where
  network : Network
  protocol : Protocol
  ports : Range
  deriving DecidableEq

structure Allowlist where
  hosts : List Network
  ports : List PortEntry

/-! ## What an allowlist means -/

/-- The IPv6 address that stands for an IPv4 one: `::ffff:a.b.c.d`. -/
def mapped (a : Nat) : Nat := 0xffff * 2 ^ 32 + a

/-- A network of nothing but IPv4 addresses in their IPv6 form. -/
def IsMapped (n : Network) : Prop := n.family = .v6 ∧ ∀ a, n.Mem a → a / 2 ^ 32 = 0xffff

/-- What connections to a network reach: those to mapped addresses leave as IPv4. -/
def Reaches (n : Network) (version : Family) (a : Nat) : Prop :=
  (IsMapped n ∧ version = .v4 ∧ a < 2 ^ 32 ∧ n.Mem (mapped a)) ∨
    (¬ IsMapped n ∧ n.family = version ∧ n.Mem a)

/-- Some entry of the allowlist allows it. -/
def Allowlist.Allows (allowlist : Allowlist) (version : Family) (a : Nat) (protocol : Protocol)
    (port : Nat) : Prop :=
  (∃ n ∈ allowlist.hosts, Reaches n version a) ∨
    ∃ e ∈ allowlist.ports, Reaches e.network version a ∧ e.protocol = protocol ∧ e.ports.Mem port

/-! ## The sets -/

/-- The blocks of a prefix of at least 96 bits fill the mapped addresses. -/
theorem size_mul {n : Network} (hf : n.family = .v6) (h96 : 96 ≤ n.length) :
    n.size * 2 ^ (n.length - 96) = 2 ^ 32 := by
  have hle := n.length_le
  rw [hf, Family.width_v6] at hle
  unfold Network.size
  rw [hf, Family.width_v6, ← Nat.pow_add]
  congr 1
  omega

/-- `_unmapped`. -/
def unmapped (n : Network) : Network :=
  if h : n.family = .v6 ∧ 96 ≤ n.length ∧ n.first / 2 ^ 32 = 0xffff then
    { family := .v4
      length := n.length - 96
      index := n.first % 2 ^ 32 / n.size
      length_le := by
        have hle := n.length_le
        rw [h.1, Family.width_v6] at hle
        rw [Family.width_v4]
        omega
      index_lt := by
        refine Nat.div_lt_of_lt_mul ?_
        rw [size_mul h.1 h.2.1]
        exact Nat.mod_lt _ (by decide) }
  else n

/-- `_span`. -/
def span (n : Network) : Range := (n.first, n.last)

/-- An element of a set of ports: its addresses and ports. -/
structure Element where
  addresses : Range
  protocol : Protocol
  ports : Range
  deriving DecidableEq, Repr

def Element.Mem (e : Element) (a : Nat) (protocol : Protocol) (port : Nat) : Prop :=
  e.addresses.Mem a ∧ e.protocol = protocol ∧ e.ports.Mem port

/-- The addresses of a version's entries for one protocol, with their ports, that are not inside
the hosts' (which have every port). -/
def entriesOf (hosts : List Network) (ports : List PortEntry) (version : Family)
    (protocol : Protocol) : List Range.Rect :=
  let hostSpans := Range.merge ((hosts.filter (·.family = version)).map span)
  let covered (r : Range) : Bool := hostSpans.any fun s => s.1 ≤ r.1 && r.2 ≤ s.2
  (ports.filter fun e => e.network.family = version && e.protocol = protocol &&
    !covered (span e.network)).map fun e => (span e.network, e.ports)

/-- `_disjoint`. -/
def disjoint (hosts : List Network) (ports : List PortEntry) (version : Family) : List Element :=
  [Protocol.tcp, .udp].flatMap fun protocol =>
    (Range.sweep (entriesOf hosts ports version protocol)).flatMap fun piece =>
      piece.2.map fun range => ⟨piece.1, protocol, range⟩

/-- The sets `hosts4` and `ports4`, or `hosts6` and `ports6`. -/
structure SlotSets where
  hosts : List Network
  ports : List Element

/-- The sets of `slot_ruleset`. -/
def slotSets (allowlist : Allowlist) (version : Family) : SlotSets :=
  let hosts := allowlist.hosts.map unmapped
  let ports := allowlist.ports.map fun e => { e with network := unmapped e.network }
  { hosts := Network.collapse (hosts.filter (·.family = version))
    ports := disjoint hosts ports version }

/-! ## They are what it means -/

theorem isMapped_iff {n : Network} :
    IsMapped n ↔ n.family = .v6 ∧ 96 ≤ n.length ∧ n.first / 2 ^ 32 = 0xffff := by
  have hends : n.Mem n.first ∧ n.Mem n.last :=
    ⟨⟨Nat.le_refl _, n.first_le_last⟩, ⟨n.first_le_last, Nat.le_refl _⟩⟩
  constructor
  · rintro ⟨hf, hall⟩
    have hfirst := hall _ hends.1
    have hlast := hall _ hends.2
    refine ⟨hf, Nat.le_of_not_lt fun hlt => ?_, hfirst⟩
    -- a shorter prefix has more addresses than are mapped
    have hle := n.length_le
    have hsize : 2 ^ 33 ≤ n.size := by
      unfold Network.size
      refine Nat.pow_le_pow_right (by decide) ?_
      rw [hf, Family.width_v6]
      omega
    unfold Network.last at hlast
    omega
  · rintro ⟨hf, h96, hfirst⟩
    refine ⟨hf, fun a ha => ?_⟩
    have hmul := size_mul hf h96
    rw [← hmul, ← Nat.div_div_eq_div_mul] at hfirst ⊢
    rw [Network.mem_iff.mp ha, ← Network.mem_iff.mp hends.1]
    exact hfirst

theorem unmapped_reaches (n : Network) (version : Family) (a : Nat) :
    ((unmapped n).family = version ∧ (unmapped n).Mem a) ↔ Reaches n version a := by
  by_cases h : IsMapped n
  · have hn := isMapped_iff.mp h
    have hmul := size_mul hn.1 hn.2.1
    have hpos := n.size_pos
    have hun : (unmapped n).family = .v4 ∧ (unmapped n).index = n.first % 2 ^ 32 / n.size ∧
        (unmapped n).size = n.size := by
      have hle := n.length_le
      rw [hn.1, Family.width_v6] at hle
      simp only [unmapped, dif_pos hn, Network.size, Family.width_v4, true_and]
      rw [hn.1, Family.width_v6]
      congr 1
      omega
    have hindex : n.index = 0xffff * 2 ^ (n.length - 96) + n.first % 2 ^ 32 / n.size := by
      have hself : n.first / n.size = n.index := Nat.mul_div_cancel _ hpos
      have hsplit : n.first = n.size * (0xffff * 2 ^ (n.length - 96)) + n.first % 2 ^ 32 := by
        have := Nat.div_add_mod n.first (2 ^ 32)
        rw [hn.2.2, ← hmul] at this
        rw [Nat.mul_left_comm, hmul] at *
        omega
      rw [← hself]
      conv_lhs => rw [hsplit, Nat.mul_add_div hpos]
    have hmem : n.Mem (mapped a) ↔ a / n.size = n.first % 2 ^ 32 / n.size := by
      have hdiv : mapped a / n.size = 0xffff * 2 ^ (n.length - 96) + a / n.size := by
        unfold mapped
        rw [← hmul, Nat.mul_left_comm, Nat.mul_add_div hpos]
      rw [Network.mem_iff, hdiv, hindex]
      omega
    have hsmall : a / n.size = n.first % 2 ^ 32 / n.size → a < 2 ^ 32 := by
      intro heq
      have hlt : n.first % 2 ^ 32 / n.size < 2 ^ (n.length - 96) := by
        refine Nat.div_lt_of_lt_mul ?_
        rw [hmul]
        exact Nat.mod_lt _ (by decide)
      rw [← heq, Nat.div_lt_iff_lt_mul hpos, Nat.mul_comm, hmul] at hlt
      exact hlt
    rw [Network.mem_iff, hun.1, hun.2.1, hun.2.2]
    unfold Reaches
    rw [hmem]
    constructor
    · rintro ⟨rfl, ha⟩
      exact .inl ⟨h, rfl, hsmall ha, ha⟩
    · rintro (⟨-, rfl, -, ha⟩ | ⟨hnot, -⟩)
      · exact ⟨rfl, ha⟩
      · exact absurd h hnot
  · have hun : unmapped n = n := by
      rw [unmapped, dif_neg fun hn => h (isMapped_iff.mpr hn)]
    rw [hun]
    unfold Reaches
    tauto

/-- The entries that are cut up, and the hosts, allow what the entries allow. -/
theorem entriesOf_allow (hosts : List Network) (ports : List PortEntry) (version : Family)
    (protocol : Protocol) (a port : Nat) :
    ((∃ n ∈ hosts, n.family = version ∧ n.Mem a) ∨
        ∃ r ∈ entriesOf hosts ports version protocol, r.1.Mem a ∧ r.2.Mem port) ↔
      (∃ n ∈ hosts, n.family = version ∧ n.Mem a) ∨
        ∃ e ∈ ports, (e.network.family = version ∧ e.network.Mem a) ∧
          e.protocol = protocol ∧ e.ports.Mem port := by
  constructor
  · rintro (hhost | ⟨r, hr, ha, hport⟩)
    · exact .inl hhost
    · obtain ⟨e, he, rfl⟩ := List.mem_map.mp hr
      simp only [List.mem_filter, Bool.and_eq_true, decide_eq_true_eq] at he
      exact .inr ⟨e, he.1, ⟨he.2.1.1, ha⟩, he.2.1.2, hport⟩
  · rintro (hhost | ⟨e, he, ⟨hf, ha⟩, hproto, hport⟩)
    · exact .inl hhost
    · by_cases hcov : (Range.merge ((hosts.filter (·.family = version)).map span)).any
          fun s => s.1 ≤ (span e.network).1 && (span e.network).2 ≤ s.2
      · -- all of its addresses are hosts'
        simp only [List.any_eq_true, Bool.and_eq_true, decide_eq_true_eq] at hcov
        obtain ⟨s, hs, hlo, hhi⟩ := hcov
        have hall : Range.Covers
            (Range.merge ((hosts.filter (·.family = version)).map span)) a :=
          ⟨s, hs, hlo.trans ha.1, ha.2.trans hhi⟩
        obtain ⟨t, ht, hat⟩ := (Range.covers_merge _ _).mp hall
        obtain ⟨n, hn, rfl⟩ := List.mem_map.mp ht
        simp only [List.mem_filter, decide_eq_true_eq] at hn
        exact .inl ⟨n, hn.1, hn.2, hat⟩
      · refine .inr ⟨(span e.network, e.ports), List.mem_map.mpr ⟨e, ?_, rfl⟩, ha, hport⟩
        simp only [List.mem_filter, Bool.and_eq_true, decide_eq_true_eq, Bool.not_eq_true']
        exact ⟨he, ⟨hf, hproto⟩, by simpa using hcov⟩

theorem mem_disjoint {hosts : List Network} {ports : List PortEntry} {version : Family}
    {a : Nat} {protocol : Protocol} {port : Nat} :
    (∃ e ∈ disjoint hosts ports version, e.Mem a protocol port) ↔
      ∃ r ∈ entriesOf hosts ports version protocol, r.1.Mem a ∧ r.2.Mem port := by
  rw [← Range.has_sweep]
  constructor
  · rintro ⟨e, he, ha, rfl, hport⟩
    simp only [disjoint, List.mem_flatMap, List.mem_map] at he
    obtain ⟨protocol, -, piece, hpiece, range, hrange, rfl⟩ := he
    exact ⟨piece, hpiece, ha, range, hrange, hport⟩
  · rintro ⟨piece, hpiece, ha, range, hrange, hport⟩
    refine ⟨⟨piece.1, protocol, range⟩, ?_, ha, rfl, hport⟩
    simp only [disjoint, List.mem_flatMap, List.mem_map]
    exact ⟨protocol, by cases protocol <;> simp, piece, hpiece, range, hrange, rfl⟩

/-- No address, protocol and port is in both. -/
def Element.Apart (e e' : Element) : Prop :=
  ∀ a protocol port, ¬ (e.Mem a protocol port ∧ e'.Mem a protocol port)

theorem disjoint_apart (hosts : List Network) (ports : List PortEntry) (version : Family) :
    (disjoint hosts ports version).Pairwise Element.Apart := by
  have hprotocols : ∀ e e' : Element, e.protocol ≠ e'.protocol → e.Apart e' := by
    rintro e e' hne a protocol port ⟨⟨-, rfl, -⟩, ⟨-, hsame, -⟩⟩
    exact hne hsame.symm
  unfold disjoint
  refine List.pairwise_flatMap.mpr ⟨fun protocol _ => List.pairwise_flatMap.mpr ⟨?_, ?_⟩, ?_⟩
  · intro piece hpiece
    refine List.pairwise_map.mpr (((Range.sweep_before _).2 piece hpiece).imp ?_)
    rintro r s hrs a protocol port ⟨⟨-, -, hr⟩, ⟨-, -, hs⟩⟩
    exact hrs.apart hr hs
  · refine (Range.sweep_before _).1.imp ?_
    intro p q hpq e he e' he' a protocol port hboth
    obtain ⟨r, -, rfl⟩ := List.mem_map.mp he
    obtain ⟨s, -, rfl⟩ := List.mem_map.mp he'
    exact hpq.apart hboth.1.1 hboth.2.1
  · refine List.pairwise_cons.mpr ⟨fun protocol hp e he e' he' => hprotocols e e' ?_,
      List.pairwise_singleton _ _⟩
    obtain rfl := List.mem_singleton.mp hp
    simp only [List.mem_flatMap, List.mem_map] at he he'
    obtain ⟨-, -, -, -, rfl⟩ := he
    obtain ⟨-, -, -, -, rfl⟩ := he'
    exact Protocol.noConfusion

/-- **The firewall allows exactly the allowlist**: the elements of each set are disjoint, and an
address, protocol and port is in one of the two sets exactly when some entry allows it. -/
theorem allows_exactly (allowlist : Allowlist) (version : Family) :
    (slotSets allowlist version).ports.Pairwise Element.Apart ∧
      (slotSets allowlist version).hosts.Pairwise (fun n m => ∀ a, ¬ (n.Mem a ∧ m.Mem a)) ∧
      ∀ a protocol port,
        (Network.Covers (slotSets allowlist version).hosts a ∨
            ∃ e ∈ (slotSets allowlist version).ports, e.Mem a protocol port) ↔
          allowlist.Allows version a protocol port := by
  refine ⟨disjoint_apart _ _ _, ?_, fun a protocol port => ?_⟩
  · refine (Network.collapse_apart (f := version) fun n hn => ?_).imp ?_
    · simpa using (List.mem_filter.mp hn).2
    · rintro n m hnm a ⟨hn, hm⟩
      exact absurd (hn.2.trans_lt hnm) (Nat.not_lt.mpr hm.1)
  · have hhosts : Network.Covers (slotSets allowlist version).hosts a ↔
        ∃ n ∈ allowlist.hosts.map unmapped, n.family = version ∧ n.Mem a := by
      rw [slotSets, Network.covers_collapse]
      simp [Network.Covers, and_assoc]
    rw [hhosts, slotSets, mem_disjoint, entriesOf_allow]
    simp only [List.mem_map, exists_exists_and_eq_and, unmapped_reaches, Allowlist.Allows]

end Egress

end AnsiDeck
