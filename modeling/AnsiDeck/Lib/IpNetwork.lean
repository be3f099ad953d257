import AnsiDeck.Lib.IpText

/-!
# IP networks as text

What Python 3.12's `ipaddress.ip_network(s, strict=False)` reads and how `str` writes it again: an
address, and perhaps after a slash how many bits of it count or a mask that says so. What is written
is read as the same network (`parse_stored`).
-/

namespace Lib

/-- A network as `ip_network` keeps it, with the scope of its address. -/
structure IpNetwork where
  network : Network
  scope : Option Str := none
  deriving DecidableEq

namespace IpNetwork

/-- `network_address`. -/
def address (n : IpNetwork) : IpAddress :=
  { family := n.network.family, value := n.network.first, scope := n.scope }

/-- `num_addresses == 1`. -/
def Single (n : IpNetwork) : Prop := n.network.length = n.network.family.width

instance (n : IpNetwork) : Decidable n.Single := inferInstanceAs (Decidable (_ = _))

/-! ## Reading -/

/-- `_prefix_from_prefix_string`, of a number that `int` reads. -/
def prefixLength (width : Nat) (s : Str) : Option Nat :=
  if s ≠ [] && s.all (fun c => 48 ≤ c && c ≤ 57) && s.length ≤ 4300
      && ofDigits (s.map (· - 48)) ≤ width
  then some (ofDigits (s.map (· - 48))) else none

/-- `_prefix_from_ip_int`: how many ones the mask begins with, if nothing but zeros follows. -/
def maskLength (mask : Nat) : Option Nat :=
  (List.range 33).find? fun length => mask = 2 ^ 32 - 2 ^ (32 - length)

/-- `_make_netmask`: the number of bits, or for IPv4 a netmask or else a hostmask. -/
def netmask : Family → Str → Option Nat
  | .v4, s => (prefixLength 32 s).or
      ((IpAddress.v4 s).bind fun mask => (maskLength mask).or (maskLength (2 ^ 32 - 1 - mask)))
  | .v6, s => prefixLength 128 s

/-- The network that an address is in. Where the address has host bits it is another one, that has
no scope. -/
def ofAddress (a : IpAddress) (length : Nat) : Option IpNetwork :=
  if h : length ≤ a.family.width ∧ a.value < 2 ^ a.family.width then
    let size := 2 ^ (a.family.width - length)
    some
      { network :=
          { family := a.family
            length := length
            index := a.value / size
            length_le := h.1
            index_lt := by
              refine Nat.div_lt_of_lt_mul ?_
              rw [← Nat.pow_add, Nat.sub_add_cancel h.1]
              exact h.2 }
        scope := if a.value % size = 0 then a.scope else none }
  else none

/-- `ipaddress.ip_network(s, strict=False)`, `none` where it raises `ValueError`. -/
def parse (s : Str) : Option IpNetwork :=
  match s.splitOn 47 with
  | [address] => (IpAddress.parse address).bind fun a => ofAddress a a.family.width
  | [address, mask] =>
    (IpAddress.parse address).bind fun a => (netmask a.family mask).bind (ofAddress a)
  | _ => none

/-! ## Writing -/

/-- `str(network)`. -/
def text (n : IpNetwork) : Str := n.address.text ++ str "/" ++ decimal n.network.length

/-- `str(network)`, or of a single address its own text. -/
def stored (n : IpNetwork) : Str := if n.Single then n.address.text else n.text

/-- `subnet_of`, of networks of one version: what compares is the addresses of the networks, with
their scopes where the numbers are the same. -/
def subnetOf (n m : IpNetwork) : Bool :=
  (m.network.first < n.network.first || m.network.first = n.network.first && m.scope = n.scope)
    && n.network.last ≤ m.network.last

example : (parse (str "10.1.2.3/255.255.0.0")).map text = some (str "10.1.0.0/16") := by decide

/-! ## The round trip -/

/-- Only an IPv6 network has a scope, which no separator is in. -/
structure Valid (n : IpNetwork) : Prop where
  scope : ∀ scope ∈ n.scope, n.network.family = .v6 ∧ scope ≠ [] ∧ 37 ∉ scope ∧ 47 ∉ scope

theorem Network.first_lt (n : Network) : n.first < 2 ^ n.family.width := by
  have hindex := n.index_lt
  have hle := n.length_le
  calc n.first = n.index * n.size := rfl
    _ < 2 ^ n.length * n.size := Nat.mul_lt_mul_of_pos_right hindex n.size_pos
    _ = 2 ^ n.family.width := by
      rw [Network.size, ← Nat.pow_add]
      congr 1
      omega

theorem Valid.address {n : IpNetwork} (h : n.Valid) : n.address.Valid :=
  ⟨Network.first_lt n.network, h.scope⟩

theorem valid_ofAddress {a : IpAddress} {length : Nat} {n : IpNetwork} (ha : a.Valid)
    (h : ofAddress a length = some n) : n.Valid := by
  rw [ofAddress] at h
  split at h
  · cases h
    refine ⟨fun scope hscope => ?_⟩
    dsimp only at hscope
    split at hscope
    · exact ha.scope scope hscope
    · cases hscope
  · cases h

theorem valid_of_parse {s : Str} {n : IpNetwork} (h : parse s = some n) : n.Valid := by
  rw [parse] at h
  split at h
  · obtain ⟨a, ha, h⟩ := Option.bind_eq_some_iff.1 h
    exact valid_ofAddress (IpAddress.valid_of_parse ha) h
  · obtain ⟨a, ha, h⟩ := Option.bind_eq_some_iff.1 h
    obtain ⟨length, -, h⟩ := Option.bind_eq_some_iff.1 h
    exact valid_ofAddress (IpAddress.valid_of_parse ha) h
  · cases h

theorem ofAddress_address (n : IpNetwork) : ofAddress n.address n.network.length = some n := by
  obtain ⟨⟨family, length, index, hle, hlt⟩, scope⟩ := n
  have hpos : 0 < 2 ^ (family.width - length) := Nat.two_pow_pos _
  have hlt' := Network.first_lt ⟨family, length, index, hle, hlt⟩
  have hdiv : index * 2 ^ (family.width - length) / 2 ^ (family.width - length) = index :=
    Nat.mul_div_cancel _ hpos
  have hmod : index * 2 ^ (family.width - length) % 2 ^ (family.width - length) = 0 :=
    Nat.mul_mod_left ..
  rw [ofAddress, dif_pos ⟨hle, hlt'⟩]
  simp [address, Network.first, Network.size, hdiv, hmod]

theorem prefixLength_decimal {width n : Nat} (hn : n ≤ width) (hwidth : width < 1000) :
    prefixLength width (decimal n) = some n := by
  have hlen : (decimal n).length ≤ 3 := (length_decimal_le (by decide)).2 (by omega)
  rw [prefixLength, ofDigits_decimal, if_pos]
  simp only [ne_eq, decide_not, Bool.and_eq_true, Bool.not_eq_true', decide_eq_false_iff_not,
    List.all_eq_true, decide_eq_true_eq]
  exact ⟨⟨⟨decimal_ne_nil n, fun c hc => digit_of_mem_decimal hc⟩, by omega⟩, hn⟩

theorem netmask_decimal (n : Network) : netmask n.family (decimal n.length) = some n.length := by
  have hle := n.length_le
  cases hf : n.family with
  | v4 =>
    rw [hf, Family.width_v4] at hle
    rw [netmask, prefixLength_decimal hle (by decide)]
    rfl
  | v6 =>
    rw [hf] at hle
    exact prefixLength_decimal hle (by decide)

theorem slash_not_mem_text {a : IpAddress} (h : a.Valid) : 47 ∉ a.text := by
  obtain ⟨family, value, scope⟩ := a
  cases family with
  | v4 => exact IpAddress.not_mem_v4Text (by decide) (by decide)
  | v6 =>
    have hbody : 47 ∉ IpAddress.v6Text value := IpAddress.not_mem_v6Text (by decide) (by decide)
    cases scope with
    | none => exact hbody
    | some scope =>
      have hscope := (h.scope scope rfl).2.2.2
      show 47 ∉ IpAddress.v6Text value ++ str "%" ++ scope
      simp [hbody, hscope, str]

theorem parse_text {n : IpNetwork} (h : n.Valid) : parse n.text = some n := by
  have hslash := slash_not_mem_text h.address
  have hdigits : 47 ∉ decimal n.network.length := fun hmem => by
    have := digit_of_mem_decimal hmem
    omega
  have hsplit : n.text.splitOn 47 = [n.address.text, decimal n.network.length] := by
    show (n.address.text ++ [47] ++ decimal n.network.length).splitOn 47 = _
    rw [List.append_assoc, List.singleton_append, List.splitOn_append_cons_self_of_not_mem hslash,
      List.splitOn_eq_singleton hdigits]
  rw [parse, hsplit]
  dsimp only
  rw [IpAddress.parse_text h.address, Option.bind_some]
  show (netmask n.network.family _).bind _ = _
  rw [netmask_decimal, Option.bind_some, ofAddress_address]

theorem parse_address_text {n : IpNetwork} (h : n.Valid) (hsingle : n.Single) :
    parse n.address.text = some n := by
  have hlength : n.network.length = n.address.family.width := hsingle
  rw [parse, List.splitOn_eq_singleton (slash_not_mem_text h.address)]
  dsimp only
  rw [IpAddress.parse_text h.address, Option.bind_some, ← hlength, ofAddress_address]

theorem parse_stored {n : IpNetwork} (h : n.Valid) : parse n.stored = some n := by
  rw [stored]
  split
  · next hsingle => exact parse_address_text h hsingle
  · exact parse_text h

/-- What is read without a slash is a single address, and the text ends with its scope. -/
theorem single_of_parse {s : Str} {n : IpNetwork} (hslash : 47 ∉ s) (h : parse s = some n) :
    n.Single ∧ ∀ scope ∈ n.scope, scope <:+ s := by
  rw [parse, List.splitOn_eq_singleton hslash] at h
  obtain ⟨a, ha, h⟩ := Option.bind_eq_some_iff.1 h
  rw [ofAddress] at h
  split at h
  · cases h
    refine ⟨rfl, fun scope hscope => ?_⟩
    dsimp only at hscope
    split at hscope
    · exact IpAddress.scope_suffix ha hscope
    · cases hscope
  · cases h

end IpNetwork

end Lib
