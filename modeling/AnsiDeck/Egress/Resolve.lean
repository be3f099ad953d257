import AnsiDeck.Egress.Extras
import Mathlib.Data.List.Lex

/-!
# What a restricted run may reach

`app.worker.egress.resolve_allowlist`: a job says which hosts, jump host and extra entries its run
may reach, mostly by name, and the worker looks the names up. What comes of it allows exactly the
addresses that the entries have (`resolveAllowlist_spec`); a run whose entries don't all have
addresses is refused, and so is one whose names aren't all looked up in time.
-/

namespace AnsiDeck

namespace Egress

open Lib (Family IpAddress Network Range Str decimal str)

/-! ## Addresses -/

/-- An address without a scope. -/
structure Address where
  family : Family
  value : Nat
  value_lt : value < 2 ^ family.width
  deriving DecidableEq

namespace Address

/-- `str(address)`. -/
def text (a : Address) : Str := IpAddress.text { family := a.family, value := a.value }

/-- `ipaddress.ip_network(address)`. -/
def network (a : Address) : Network :=
  { family := a.family
    length := a.family.width
    index := a.value
    length_le := Nat.le_refl _
    index_lt := a.value_lt }

/-- `_unmapped_address`. -/
def unmapped (a : Address) : Address :=
  if a.family = .v6 ∧ a.value / 2 ^ 32 = 0xffff then
    { family := .v4
      value := a.value % 2 ^ 32
      value_lt := Nat.mod_lt _ (Nat.two_pow_pos _) }
  else a

def ofIpAddress (a : IpAddress) : Option Address :=
  if h : a.value < 2 ^ a.family.width then some ⟨a.family, a.value, h⟩ else none

/-- The order of `(a.version, a)`. -/
def le (a b : Address) : Prop :=
  a.family.width < b.family.width ∨ a.family = b.family ∧ a.value ≤ b.value

instance : DecidableRel le := fun _ _ => inferInstanceAs (Decidable (_ ∨ _ ∧ _))

theorem mem_network {a : Address} {x : Nat} : a.network.Mem x ↔ x = a.value := by
  have hsize : a.network.size = 1 := by
    show 2 ^ (a.family.width - a.family.width) = 1
    rw [Nat.sub_self, Nat.pow_zero]
  rw [Network.mem_iff, hsize, Nat.div_one]
  rfl

end Address

/-! ## The entries of a job -/

structure HostEntry where
  host : Str
  address : Str
  /-- Not one behind a jump host or a proxy. -/
  required : Bool := true

structure JumpEntry where
  host : Option Str
  address : Str
  port : Option Nat

/-- `int(jump.get("port") or 22)`. -/
def JumpEntry.sshPort (j : JumpEntry) : Nat :=
  match j.port with
  | none | some 0 => 22
  | some port => port

structure ExtraEntry where
  target : Str
  ports : Option (List Range)

/-- The `egress` of a job. -/
structure Spec where
  hosts : List HostEntry
  jumpHosts : List JumpEntry
  extras : List ExtraEntry
  warnings : List Str

/-- What a name is looked up as: its addresses, or why it has none. `none` when that isn't done
within `_RESOLVE_SECONDS`. The lookups share a few threads, so its turn may not even have come. -/
abbrev Lookup := Str → Option (Except Str (List Address))

/-- `resolve`. -/
def resolve (getaddrinfo : Lookup) : Lookup := fun host =>
  (getaddrinfo host).map fun found =>
    match (IpAddress.parse host).bind Address.ofIpAddress with
    | some a => .ok [a.unmapped]
    | none => found.map (·.map Address.unmapped)

/-- The names that are looked up. -/
def Spec.names (spec : Spec) : List Str :=
  spec.hosts.map (·.address) ++ spec.jumpHosts.map (·.address)
    ++ (spec.extras.map (·.target)).filter fun target => (targetNetwork target).isNone

/-- `_lookup_all`: the text of `EgressRefused` where not all of them are done in time. -/
def lookupAll (lookup : Lookup) (names : List Str) : Except Str Unit :=
  match (names.dedup.filter fun name => (lookup name).isNone).insertionSort (· ≤ ·) with
  | [] => .ok ()
  | slow =>
    .error (str "looking up " ++ decimal slow.length ++ str " names took longer than 60 s ("
      ++ (str ", ").intercalate (slow.take 3)
      ++ (if 3 < slow.length then str ", ..." else []) ++ str ")")

/-- `addresses_of`: in order, each once. -/
def addressesOf (lookup : Lookup) (name : Str) : Except Str (List Address) :=
  match lookup name with
  | some (.ok addresses) => .ok (addresses.dedup.insertionSort Address.le)
  | some (.error reason) => .error (if reason = [] then str "no address" else reason)
  | none => .error (str "no address")

/-! ## The report -/

structure HostReport where
  host : Str
  address : Str
  addresses : List Str
  deriving DecidableEq

structure JumpReport where
  host : Option Str
  address : Str
  port : Nat
  addresses : List Str
  deriving DecidableEq

structure ExtraReport where
  target : Str
  ports : Option (List Range)
  addresses : List Str
  deriving DecidableEq

structure Unresolved where
  host : Str
  address : Str
  reason : Str
  deriving DecidableEq

/-- What the page of the run shows. -/
structure Report where
  hosts : List HostReport
  jumpHosts : List JumpReport
  extras : List ExtraReport
  unresolved : List Unresolved
  warnings : List Str
  deriving DecidableEq

/-! ## Resolving -/

/-- What one entry adds. -/
structure Part where
  problems : List Str := []
  hosts : List Network := []
  ports : List PortEntry := []
  hostReports : List HostReport := []
  jumpReports : List JumpReport := []
  extraReports : List ExtraReport := []
  unresolved : List Unresolved := []

def hostPart (lookup : Lookup) (h : HostEntry) : Part :=
  match addressesOf lookup h.address with
  | .ok addresses =>
    { hosts := addresses.map Address.network
      hostReports := [⟨h.host, h.address, addresses.map Address.text⟩] }
  | .error reason =>
    if h.required then
      { problems := [h.host ++ str "'s address " ++ h.address ++ str " doesn't resolve here ("
          ++ reason ++ str ")"] }
    else { unresolved := [⟨h.host, h.address, reason⟩] }

def jumpPart (lookup : Lookup) (j : JumpEntry) : Part :=
  match addressesOf lookup j.address with
  | .ok addresses =>
    { ports := addresses.map fun a => ⟨a.network, .tcp, (j.sshPort, j.sshPort)⟩
      jumpReports := [⟨j.host, j.address, j.sshPort, addresses.map Address.text⟩] }
  | .error reason =>
    { problems := [str "the jump host " ++ j.address ++ str " doesn't resolve here ("
        ++ reason ++ str ")"] }

/-- The networks of a target, with the text of each. -/
def extraNetworks (lookup : Lookup) (target : Str) : Except Str (List (Network × Str)) :=
  match targetNetwork target with
  | some n => .ok [(n.network, n.text)]
  | none => (addressesOf lookup target).map (·.map fun a =>
      (a.network, a.text ++ str "/" ++ decimal a.family.width))

def extraPart (lookup : Lookup) (e : ExtraEntry) : Part :=
  match extraNetworks lookup e.target with
  | .ok networks =>
    let report : List ExtraReport := [⟨e.target, e.ports, networks.map Prod.snd⟩]
    match e.ports with
    | none => { hosts := networks.map Prod.fst, extraReports := report }
    | some ranges =>
      { ports := networks.flatMap fun n => [Protocol.tcp, .udp].flatMap fun protocol =>
          ranges.map fun range => ⟨n.1, protocol, range⟩
        extraReports := report }
  | .error reason =>
    { problems := [str "the extra entry " ++ e.target ++ str " doesn't resolve here ("
        ++ reason ++ str ")"] }

/-- What each entry adds, in order. -/
def parts (lookup : Lookup) (spec : Spec) : List Part :=
  spec.hosts.map (hostPart lookup) ++ spec.jumpHosts.map (jumpPart lookup)
    ++ spec.extras.map (extraPart lookup)

/-- The addresses that every entry adds together. -/
def allowlistOf (lookup : Lookup) (spec : Spec) : Allowlist :=
  { hosts := (parts lookup spec).flatMap Part.hosts
    ports := (parts lookup spec).flatMap Part.ports }

def Allowlist.count (allowlist : Allowlist) : Nat := allowlist.hosts.length + allowlist.ports.length

def maxAllowedAddresses : Nat := 20000

/-- The text of `EgressRefused` for entries that don't resolve. -/
def problemsText (problems : List Str) : Str :=
  str "its inventory restricts network egress, and " ++ (str "; ").intercalate (problems.take 3)
    ++ if 3 < problems.length then
      str "; and " ++ decimal (problems.length - 3) ++ str " more"
    else []

def resolveAllowlist (lookup : Lookup) (spec : Spec) : Except Str (Allowlist × Report) := do
  lookupAll lookup spec.names
  let parts := parts lookup spec
  let problems := parts.flatMap Part.problems
  let allowlist := allowlistOf lookup spec
  if problems ≠ [] then .error (problemsText problems)
  else if maxAllowedAddresses < allowlist.count then
    .error (str "its inventory restricts network egress to " ++ decimal allowlist.count
      ++ str " addresses, more than " ++ decimal maxAllowedAddresses)
  else
    .ok (allowlist,
      { hosts := parts.flatMap Part.hostReports
        jumpHosts := parts.flatMap Part.jumpReports
        extras := parts.flatMap Part.extraReports
        unresolved := parts.flatMap Part.unresolved
        warnings := spec.warnings })

/-! ## What it allows -/

/-- Some entry allows it. A packet that is neither TCP's nor UDP's has no protocol here. -/
def Allowlist.Lets (allowlist : Allowlist) (version : Family) (a : Nat)
    (protocol : Option Protocol) (port : Nat) : Prop :=
  (∃ n ∈ allowlist.hosts, Reaches n version a) ∨
    ∃ e ∈ allowlist.ports, Reaches e.network version a ∧ some e.protocol = protocol ∧
      e.ports.Mem port

/-- The name was looked up, and this is an address of it. -/
def HasAddress (lookup : Lookup) (name : Str) (version : Family) (a : Nat) : Prop :=
  ∃ addresses, lookup name = some (.ok addresses) ∧ ∃ x ∈ addresses,
  x.family = version ∧ x.value = a

/-- An extra entry's target is a network with this address, or a name that has it. -/
def TargetHas (lookup : Lookup) (target : Str) (version : Family) (a : Nat) : Prop :=
  match targetNetwork target with
  | some n => n.network.family = version ∧ n.network.Mem a
  | none => HasAddress lookup target version a

/-- What the entries say may be reached: the hosts, the ssh port of the jump hosts, and the extra
entries, on their ports or on any. -/
def Spec.Permits (spec : Spec) (lookup : Lookup) (version : Family) (a : Nat)
    (protocol : Option Protocol) (port : Nat) : Prop :=
  (∃ h ∈ spec.hosts, HasAddress lookup h.address version a) ∨
    (∃ j ∈ spec.jumpHosts, HasAddress lookup j.address version a ∧ protocol = some .tcp ∧
      port = j.sshPort) ∨
    ∃ e ∈ spec.extras, TargetHas lookup e.target version a ∧
      ∀ ranges, e.ports = some ranges → protocol.isSome = true ∧ ∃ r ∈ ranges, r.Mem port

def Resolves (lookup : Lookup) (name : Str) : Prop :=
  ∃ addresses, lookup name = some (.ok addresses)

/-- Every lookup is done in time. -/
def Spec.InTime (spec : Spec) (lookup : Lookup) : Prop :=
  ∀ name ∈ spec.names, (lookup name).isSome = true

/-- Everything that has to resolve does: not a host that isn't connected to directly. -/
structure Spec.Resolves (spec : Spec) (lookup : Lookup) : Prop where
  hosts : ∀ h ∈ spec.hosts, h.required = true → Egress.Resolves lookup h.address
  jumpHosts : ∀ j ∈ spec.jumpHosts, Egress.Resolves lookup j.address
  extras : ∀ e ∈ spec.extras, targetNetwork e.target = none → Egress.Resolves lookup e.target

/-! ## Looking up -/

theorem Address.not_isMapped (a : Address) : ¬ IsMapped a.unmapped.network := by
  intro h
  obtain ⟨hfamily, -, hfirst⟩ := isMapped_iff.1 h
  unfold Address.unmapped at hfamily hfirst
  split at hfamily
  · cases hfamily
  · next hnot =>
    rw [if_neg hnot] at hfirst
    have hvalue : a.network.first = a.value := by
      show a.value * 2 ^ (a.family.width - a.family.width) = a.value
      rw [Nat.sub_self, Nat.pow_zero, Nat.mul_one]
    exact hnot ⟨hfamily, hvalue ▸ hfirst⟩

/-- Of an address that is no mapped one, only itself is reached. -/
theorem Address.reaches_iff {a : Address} (h : ¬ IsMapped a.network) {version : Family} {x : Nat} :
    Reaches a.network version x ↔ a.family = version ∧ a.value = x := by
  have hmem : a.network.Mem x ↔ a.value = x := Address.mem_network.trans eq_comm
  unfold Reaches
  rw [hmem]
  exact ⟨fun hr => hr.elim (fun hm => absurd hm.1 h) And.right, fun hr => .inr ⟨h, hr⟩⟩

/-- What a lookup finds are no mapped addresses. -/
def Lookup.Plain (lookup : Lookup) : Prop :=
  ∀ name addresses, lookup name = some (.ok addresses) → ∀ a ∈ addresses, ¬ IsMapped a.network

theorem plain_resolve (getaddrinfo : Lookup) : Lookup.Plain (resolve getaddrinfo) := by
  intro name addresses h a ha
  obtain ⟨found, hinfo, h⟩ := Option.map_eq_some_iff.1 h
  split at h
  · obtain rfl := Except.ok.inj h
    obtain rfl := List.mem_singleton.1 ha
    exact Address.not_isMapped _
  · cases found with
    | error reason => cases h
    | ok found =>
      obtain rfl := Except.ok.inj h
      obtain ⟨x, -, rfl⟩ := List.mem_map.1 ha
      exact Address.not_isMapped x

variable {lookup : Lookup} {name : Str}

theorem lookupAll_ok {names : List Str} :
    lookupAll lookup names = .ok () ↔ ∀ name ∈ names, (lookup name).isSome = true := by
  have hslow : (names.dedup.filter fun name => (lookup name).isNone).insertionSort (· ≤ ·) = [] ↔
      ∀ name ∈ names, (lookup name).isSome = true := by
    rw [List.eq_nil_iff_forall_not_mem]
    simp only [List.mem_insertionSort, List.mem_filter, List.mem_dedup, not_and]
    refine forall₂_congr fun name _ => ?_
    cases lookup name <;> simp
  unfold lookupAll
  split
  · next hnil => exact ⟨fun _ => hslow.1 hnil, fun _ => rfl⟩
  · next hne => exact ⟨fun h => (nomatch h), fun h => (hne (hslow.2 h)).elim⟩

theorem addressesOf_ok {addresses : List Address} (h : lookup name = some (.ok addresses)) :
    ∃ sorted, addressesOf lookup name = .ok sorted ∧ ∀ a, a ∈ sorted ↔ a ∈ addresses := by
  refine ⟨_, by rw [addressesOf, h], fun a => ?_⟩
  rw [(List.perm_insertionSort Address.le _).mem_iff, List.mem_dedup]

/-- What is found has been looked up. -/
theorem lookup_of_addressesOf {sorted : List Address} (h : addressesOf lookup name = .ok sorted) :
    ∃ addresses, lookup name = some (.ok addresses) := by
  unfold addressesOf at h
  split at h
  · next addresses heq => exact ⟨addresses, heq⟩
  · cases h
  · cases h

/-- The networks of a name's addresses. -/
theorem reaches_addressesOf (hplain : lookup.Plain) {sorted : List Address} {version : Family}
    {x : Nat} (h : addressesOf lookup name = .ok sorted) :
    (∃ a ∈ sorted, Reaches a.network version x) ↔ HasAddress lookup name version x := by
  obtain ⟨addresses, hlookup⟩ := lookup_of_addressesOf h
  obtain ⟨found, hfound, hmem⟩ := addressesOf_ok hlookup
  obtain rfl := Except.ok.inj (hfound.symm.trans h)
  have hreaches : ∀ a ∈ addresses, Reaches a.network version x ↔ a.family = version ∧ a.value = x :=
    fun a ha => Address.reaches_iff (hplain name addresses hlookup a ha)
  constructor
  · intro ⟨a, ha, hr⟩
    exact ⟨addresses, hlookup, a, (hmem a).1 ha, (hreaches a ((hmem a).1 ha)).1 hr⟩
  · intro ⟨addresses', h', a, ha, hr⟩
    obtain rfl := Except.ok.inj (Option.some.inj (hlookup.symm.trans h'))
    exact ⟨a, (hmem a).2 ha, (hreaches a ha).2 hr⟩

theorem not_hasAddress {reason : Str} (h : addressesOf lookup name = .error reason)
    (version : Family) (x : Nat) : ¬ HasAddress lookup name version x := by
  intro ⟨addresses, hlookup, _⟩
  obtain ⟨found, hfound, -⟩ := addressesOf_ok hlookup
  rw [hfound] at h
  cases h

/-! ## What each entry adds -/

variable {version : Family} {a port : Nat} {protocol : Option Protocol}

/-- What the entries of one part allow. -/
def Part.Lets (part : Part) (version : Family) (a : Nat) (protocol : Option Protocol) (port : Nat) :
    Prop :=
  (Allowlist.mk part.hosts part.ports).Lets version a protocol port

theorem lets_hostPart (hplain : lookup.Plain) (h : HostEntry) :
    (hostPart lookup h).Lets version a protocol port ↔ HasAddress lookup h.address version a := by
  unfold hostPart
  cases haddresses : addressesOf lookup h.address with
  | ok sorted =>
    rw [← reaches_addressesOf hplain haddresses]
    simp [Part.Lets, Allowlist.Lets]
  | error reason =>
    have hnone := not_hasAddress haddresses version a
    dsimp only
    split <;> simp [Part.Lets, Allowlist.Lets, hnone]

theorem lets_jumpPart (hplain : lookup.Plain) (j : JumpEntry) :
    (jumpPart lookup j).Lets version a protocol port ↔
      HasAddress lookup j.address version a ∧ protocol = some .tcp ∧ port = j.sshPort := by
  unfold jumpPart
  cases haddresses : addressesOf lookup j.address with
  | ok sorted =>
    rw [← reaches_addressesOf hplain haddresses]
    have hport : Range.Mem (j.sshPort, j.sshPort) port ↔ port = j.sshPort :=
      ⟨fun h => Nat.le_antisymm h.2 h.1, fun h => ⟨h.ge, h.le⟩⟩
    constructor
    · rintro (⟨n, hn, -⟩ | ⟨e, he, hr, hprotocol, hmem⟩)
      · cases hn
      · obtain ⟨x, hx, rfl⟩ := List.mem_map.1 he
        exact ⟨⟨x, hx, hr⟩, hprotocol.symm, hport.1 hmem⟩
    · intro ⟨⟨x, hx, hr⟩, hprotocol, hmem⟩
      exact .inr ⟨_, List.mem_map_of_mem hx, hr, hprotocol.symm, hport.2 hmem⟩
  | error reason =>
    simp [Part.Lets, Allowlist.Lets, not_hasAddress haddresses version a]

/-- The networks that are no IPv4 ones in their IPv6 form any more. -/
theorem not_isMapped_unmap (n : Lib.IpNetwork) : ¬ IsMapped (unmap n).network := by
  intro h
  have hmapped := isMapped_iff.1 h
  unfold unmap at hmapped
  split at hmapped
  · next hcond =>
    have hfamily : (unmapped n.network).family = .v4 := by
      simp only [unmapped, dif_pos hcond]
    rw [hfamily] at hmapped
    cases hmapped.1
  · next hcond => exact hcond hmapped

theorem reaches_extraNetworks (hplain : lookup.Plain) {target : Str}
    {networks : List (Network × Str)} (h : extraNetworks lookup target = .ok networks) :
    (∃ n ∈ networks, Reaches n.1 version a) ↔ TargetHas lookup target version a := by
  unfold extraNetworks at h
  unfold TargetHas
  cases htarget : targetNetwork target with
  | some n =>
    rw [htarget] at h
    obtain rfl := Except.ok.inj h
    obtain ⟨read, -, rfl⟩ := Option.map_eq_some_iff.1 htarget
    have hnot := not_isMapped_unmap read
    constructor
    · intro ⟨m, hm, hr⟩
      obtain rfl := List.mem_singleton.1 hm
      exact hr.elim (fun h => absurd h.1 hnot) And.right
    · exact fun hr => ⟨_, List.mem_singleton_self _, .inr ⟨hnot, hr⟩⟩
  | none =>
    rw [htarget] at h
    cases haddresses : addressesOf lookup target with
    | error reason =>
      rw [haddresses] at h
      cases h
    | ok sorted =>
      rw [haddresses] at h
      obtain rfl := Except.ok.inj h
      dsimp only
      rw [← reaches_addressesOf hplain haddresses]
      simp

theorem not_targetHas {target reason : Str} (h : extraNetworks lookup target = .error reason) :
    ¬ TargetHas lookup target version a := by
  unfold extraNetworks at h
  unfold TargetHas
  cases htarget : targetNetwork target with
  | some n =>
    rw [htarget] at h
    cases h
  | none =>
    rw [htarget] at h
    cases haddresses : addressesOf lookup target with
    | error text => exact not_hasAddress haddresses version a
    | ok sorted =>
      rw [haddresses] at h
      cases h

theorem lets_extraPart (hplain : lookup.Plain) (e : ExtraEntry) :
    (extraPart lookup e).Lets version a protocol port ↔ TargetHas lookup e.target version a ∧
      ∀ ranges, e.ports = some ranges → protocol.isSome = true ∧ ∃ r ∈ ranges, r.Mem port := by
  unfold extraPart
  cases hnetworks : extraNetworks lookup e.target with
  | error reason =>
    have hnone : ¬ TargetHas lookup e.target version a := not_targetHas hnetworks
    simp [Part.Lets, Allowlist.Lets, hnone]
  | ok networks =>
    rw [← reaches_extraNetworks hplain hnetworks]
    cases hports : e.ports with
    | none => simp [Part.Lets, Allowlist.Lets]
    | some ranges =>
      constructor
      · rintro (⟨n, hn, -⟩ | ⟨entry, hentry, hr, hprotocol, hmem⟩)
        · cases hn
        · obtain ⟨n, hn, hentry⟩ := List.mem_flatMap.1 hentry
          obtain ⟨proto, -, hentry⟩ := List.mem_flatMap.1 hentry
          obtain ⟨r, hrange, rfl⟩ := List.mem_map.1 hentry
          refine ⟨⟨n, hn, hr⟩, fun ranges' heq => ?_⟩
          obtain rfl := Option.some.inj heq
          exact ⟨hprotocol ▸ rfl, r, hrange, hmem⟩
      · intro ⟨⟨n, hn, hr⟩, hall⟩
        obtain ⟨hsome, r, hrange, hmem⟩ := hall ranges rfl
        obtain ⟨proto, rfl⟩ := Option.isSome_iff_exists.1 hsome
        have hproto : proto ∈ [Protocol.tcp, .udp] := by cases proto <;> simp
        exact .inr ⟨⟨n.1, proto, r⟩, List.mem_flatMap.2 ⟨n, hn, List.mem_flatMap.2
          ⟨proto, hproto, List.mem_map_of_mem hrange⟩⟩, hr, rfl, hmem⟩

/-! ## What they add together -/

theorem lets_allowlistOf (spec : Spec) :
    (allowlistOf lookup spec).Lets version a protocol port ↔
      ∃ part ∈ parts lookup spec, part.Lets version a protocol port := by
  constructor
  · rintro (⟨n, hn, hr⟩ | ⟨e, he, hrest⟩)
    · obtain ⟨part, hpart, hmem⟩ := List.mem_flatMap.1 hn
      exact ⟨part, hpart, .inl ⟨n, hmem, hr⟩⟩
    · obtain ⟨part, hpart, hmem⟩ := List.mem_flatMap.1 he
      exact ⟨part, hpart, .inr ⟨e, hmem, hrest⟩⟩
  · rintro ⟨part, hpart, ⟨n, hn, hr⟩ | ⟨e, he, hrest⟩⟩
    · exact .inl ⟨n, List.mem_flatMap.2 ⟨part, hpart, hn⟩, hr⟩
    · exact .inr ⟨e, List.mem_flatMap.2 ⟨part, hpart, he⟩, hrest⟩

theorem exists_parts {P : Part → Prop} (spec : Spec) :
    (∃ part ∈ parts lookup spec, P part) ↔ (∃ h ∈ spec.hosts, P (hostPart lookup h)) ∨
      (∃ j ∈ spec.jumpHosts, P (jumpPart lookup j)) ∨
      ∃ e ∈ spec.extras, P (extraPart lookup e) := by
  simp only [parts, List.mem_append, List.mem_map, or_and_right, exists_or, or_assoc,
    exists_exists_and_eq_and]

theorem lets_iff_permits (hplain : lookup.Plain) (spec : Spec) :
    (allowlistOf lookup spec).Lets version a protocol port ↔
      spec.Permits lookup version a protocol port := by
  rw [lets_allowlistOf, exists_parts]
  simp only [lets_hostPart hplain, lets_jumpPart hplain, lets_extraPart hplain, Spec.Permits]

/-! ## When a run is refused -/

theorem not_resolves_of_error {reason : Str} (h : addressesOf lookup name = .error reason) :
    ¬ Resolves lookup name := by
  intro ⟨addresses, hlookup⟩
  obtain ⟨sorted, hsorted, -⟩ := addressesOf_ok hlookup
  rw [hsorted] at h
  cases h

theorem hostPart_problems (h : HostEntry) :
    (hostPart lookup h).problems = [] ↔ (h.required = true → Resolves lookup h.address) := by
  unfold hostPart
  cases haddresses : addressesOf lookup h.address with
  | ok sorted => exact ⟨fun _ _ => lookup_of_addressesOf haddresses, fun _ => rfl⟩
  | error reason =>
    have hnot := not_resolves_of_error haddresses
    cases hrequired : h.required with
    | true => exact ⟨fun hnil => (List.cons_ne_nil _ _ hnil).elim, fun h => absurd (h rfl) hnot⟩
    | false => exact ⟨fun _ h => Bool.noConfusion h, fun _ => rfl⟩

theorem jumpPart_problems (j : JumpEntry) :
    (jumpPart lookup j).problems = [] ↔ Resolves lookup j.address := by
  unfold jumpPart
  cases haddresses : addressesOf lookup j.address with
  | ok sorted => exact ⟨fun _ => lookup_of_addressesOf haddresses, fun _ => rfl⟩
  | error reason =>
    exact ⟨fun hnil => (List.cons_ne_nil _ _ hnil).elim,
      fun h => absurd h (not_resolves_of_error haddresses)⟩

theorem extraPart_problems (e : ExtraEntry) :
    (extraPart lookup e).problems = [] ↔
      (targetNetwork e.target = none → Resolves lookup e.target) := by
  unfold extraPart extraNetworks
  cases htarget : targetNetwork e.target with
  | some n =>
    refine ⟨fun _ h => (nomatch h), fun _ => ?_⟩
    cases e.ports with
    | none => rfl
    | some ranges => rfl
  | none =>
    cases haddresses : addressesOf lookup e.target with
    | error reason =>
      exact ⟨fun hnil => (List.cons_ne_nil _ _ hnil).elim,
        fun h => absurd (h rfl) (not_resolves_of_error haddresses)⟩
    | ok sorted =>
      refine ⟨fun _ _ => lookup_of_addressesOf haddresses, fun _ => ?_⟩
      cases e.ports with
      | none => rfl
      | some ranges => rfl

theorem problems_iff (spec : Spec) :
    (parts lookup spec).flatMap Part.problems = [] ↔ spec.Resolves lookup := by
  rw [List.flatMap_eq_nil_iff]
  simp only [parts, List.mem_append, List.mem_map, or_imp, forall_and, forall_exists_index,
    and_imp, forall_apply_eq_imp_iff₂, hostPart_problems, jumpPart_problems, extraPart_problems]
  exact ⟨fun ⟨⟨hhosts, hjumps⟩, hextras⟩ => ⟨hhosts, hjumps, hextras⟩,
    fun h => ⟨⟨h.hosts, h.jumpHosts⟩, h.extras⟩⟩

/-- By what it is, in the order it is asked. -/
theorem resolveAllowlist_cases (lookup : Lookup) (spec : Spec) :
    match resolveAllowlist lookup spec with
    | .ok (allowlist, _) => spec.InTime lookup ∧ spec.Resolves lookup ∧
        allowlist.count ≤ maxAllowedAddresses ∧ allowlist = allowlistOf lookup spec
    | .error _ => spec.InTime lookup → spec.Resolves lookup →
        maxAllowedAddresses < (allowlistOf lookup spec).count := by
  have hproblems : (parts lookup spec).flatMap Part.problems = [] ↔ spec.Resolves lookup :=
    problems_iff spec
  unfold resolveAllowlist
  cases hlookup : lookupAll lookup spec.names with
  | error message =>
    intro hintime
    rw [lookupAll_ok.2 hintime] at hlookup
    cases hlookup
  | ok _ =>
    have hintime : spec.InTime lookup := lookupAll_ok.1 hlookup
    dsimp only [bind, Except.bind]
    by_cases hnone : (parts lookup spec).flatMap Part.problems = []
    · rw [if_neg (not_not.2 hnone)]
      by_cases hcount : maxAllowedAddresses < (allowlistOf lookup spec).count
      · rw [if_pos hcount]
        exact fun _ _ => hcount
      · rw [if_neg hcount]
        exact ⟨hintime, hproblems.1 hnone, Nat.le_of_not_lt hcount, rfl⟩
    · rw [if_pos hnone]
      exact fun _ h => absurd (hproblems.2 h) hnone

theorem resolved_lets {getaddrinfo : Lookup} {spec : Spec} {allowlist : Allowlist} {report : Report}
    (h : resolveAllowlist (resolve getaddrinfo) spec = .ok (allowlist, report)) :
    allowlist.Lets version a protocol port ↔
      spec.Permits (resolve getaddrinfo) version a protocol port := by
  have hcases := resolveAllowlist_cases (resolve getaddrinfo) spec
  rw [h] at hcases
  obtain ⟨-, -, -, rfl⟩ := hcases
  exact lets_iff_permits (plain_resolve getaddrinfo) spec

/-- **A run may reach what its entries have, or it is refused**: refused are those of which a lookup
isn't done in time, something that has to resolve doesn't, or that would have too many addresses. -/
theorem resolveAllowlist_spec (getaddrinfo : Lookup) (spec : Spec) :
    match resolveAllowlist (resolve getaddrinfo) spec with
    | .ok (allowlist, _) => spec.InTime getaddrinfo ∧ spec.Resolves (resolve getaddrinfo) ∧
        allowlist.count ≤ maxAllowedAddresses ∧
        ∀ version a protocol port, allowlist.Lets version a protocol port ↔
          spec.Permits (resolve getaddrinfo) version a protocol port
    | .error _ => spec.InTime getaddrinfo → spec.Resolves (resolve getaddrinfo) →
        maxAllowedAddresses < (allowlistOf (resolve getaddrinfo) spec).count := by
  have hintime : spec.InTime (resolve getaddrinfo) ↔ spec.InTime getaddrinfo :=
    forall₂_congr fun name _ => by rw [resolve, Option.isSome_map]
  have hcases := resolveAllowlist_cases (resolve getaddrinfo) spec
  split at hcases
  · obtain ⟨hdone, hresolves, hcount, rfl⟩ := hcases
    exact ⟨hintime.1 hdone, hresolves, hcount,
      fun _ _ _ _ => lets_iff_permits (plain_resolve getaddrinfo) spec⟩
  · exact fun hdone => hcases (hintime.2 hdone)

end Egress

end AnsiDeck
