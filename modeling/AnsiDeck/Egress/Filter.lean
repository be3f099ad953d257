import AnsiDeck.Egress.Resolve
import AnsiDeck.Scrub.Forms

/-!
# The worker's egress filter

`app.worker.egress`: an nftables table that keeps every slot's user away from the API and from cloud
metadata, and for a restricted run a table of its slot with the run's allowlist. nft replaces a
table as a whole or not at all, but the worker doesn't learn which when nft fails by a timeout.
-/

namespace AnsiDeck

namespace Egress

open Lib (Family IpAddress Network Str Unicode decimal str)

/-! ## Slots and settings -/

def runUidBase : Nat := 20000

def maxSlots : Nat := 64

/-- `identity_for_slot`, of which the filter needs the uid. -/
def uidOf (slot : Nat) : Nat := runUidBase + slot

/-- The settings of a worker, and what its kernel has. -/
structure Config where
  unicode : Unicode
  slots : Nat
  /-- Every slot runs its jobs as a user of its own. -/
  isolated : Bool
  /-- `has_ipv6()`. -/
  ipv6 : Bool
  production : Bool
  egressFilter : Bool
  allowCloudMetadata : Bool
  blockedNetworks : List Network
  /-- `check_available`: the image has no more run users. -/
  slots_le : isolated = true → slots ≤ maxSlots

/-- The entries of the table that don't depend on the API's addresses. -/
def Config.static (cfg : Config) : List Network :=
  (if cfg.allowCloudMetadata then [] else metadataNetworks.map (·.network))
    ++ alwaysBlocked.map (·.network) ++ cfg.blockedNetworks

/-- The IP versions that a table has rules for. -/
def versions (ipv6 : Bool) : List Family := if ipv6 then [.v4, .v6] else [.v4]

/-! ## Packets -/

/-- A packet on its way out. -/
structure Packet where
  version : Family
  dst : Nat
  /-- `none` for anything but TCP and UDP. -/
  protocol : Option Protocol
  port : Nat
  /-- `ct original proto-dst`: the port before Docker's rules for its own DNS server rewrote it. -/
  originalPort : Nat
  deriving DecidableEq

/-- `_DOCKER_DNS`, 127.0.0.11. -/
def dockerDns : Nat := 0x7f00000b

/-! ## The tables -/

/-- The table `ansideck_egress`: what slot users may not send to, an IP version. -/
structure BlockTable where
  blocked : List (Family × List Network)
  deriving DecidableEq

def ruleset (networks : List Network) (ipv6 : Bool) : BlockTable :=
  { blocked := (versions ipv6).map fun version =>
      (version, Network.collapse ((networks.map unmapped).filter (·.family = version))) }

def BlockTable.rejects (table : BlockTable) (p : Packet) : Bool :=
  table.blocked.any fun sets => p.version = sets.1 && sets.2.any fun n => n.Mem p.dst

/-- The sets of a slot's table for one IP version. -/
structure VersionSets where
  resolvers : List Nat
  hosts : List Network
  ports : List Element
  deriving DecidableEq

/-- A table `ansideck_egress_slot<n>`. -/
structure SlotTable where
  uid : Nat
  sets : List (Family × VersionSets)
  deriving DecidableEq

def versionSets (allowlist : Allowlist) (resolvers : List Address) (version : Family) :
    VersionSets :=
  { resolvers := ((resolvers.map Address.unmapped).filter (·.family = version)).map Address.value
    hosts := (slotSets allowlist version).hosts
    ports := (slotSets allowlist version).ports }

def slotRuleset (uid : Nat) (allowlist : Allowlist) (resolvers : List Address) (ipv6 : Bool) :
    SlotTable :=
  { uid := uid
    sets := (versions ipv6).map fun version => (version, versionSets allowlist resolvers version) }

def VersionSets.accepts (sets : VersionSets) (p : Packet) : Bool :=
  (sets.resolvers.contains p.dst && p.protocol.isSome && p.port = 53)
    || sets.hosts.any (fun n => n.Mem p.dst)
    || p.protocol.any fun protocol => sets.ports.any fun e =>
        e.addresses.Mem p.dst && e.protocol = protocol && e.ports.Mem p.port

/-- The chain `restrict`: whatever it doesn't accept is rejected. -/
def SlotTable.accepts (table : SlotTable) (p : Packet) : Bool :=
  (p.version = .v4 && p.dst = dockerDns && p.protocol.isSome && p.originalPort = 53)
    || table.sets.any fun sets => p.version = sets.1 && sets.2.accepts p

/-- The tables that the worker may have in its network namespace. -/
structure Net where
  /-- `table inet ansideck_egress`. -/
  inet : Option BlockTable
  /-- `table ip ansideck_egress`, where the kernel has no IPv6. -/
  ip : Option BlockTable
  slots : Nat → Option SlotTable

def Net.rejects (net : Net) (p : Packet) : Bool :=
  net.inet.any (·.rejects p) || (p.version = .v4 && net.ip.any (·.rejects p))

/-- Whether a packet of a user's process gets out. A reject is final in whichever table it is. -/
def Net.passes (net : Net) (uid : Nat) (p : Packet) : Bool :=
  !(runUidBase ≤ uid && uid ≤ runUidBase + maxSlots - 1 && net.rejects p)
    && (List.range maxSlots).all fun slot => (net.slots slot).all fun table =>
        table.uid ≠ uid || table.accepts p

/-! ## nft -/

/-- How a call of nft goes. It may have replaced the table before it was found to be too slow. -/
inductive Nft
  | done
  | failed (applied : Bool)
  deriving DecidableEq

/-- `apply`: whether it succeeded (it raises `EgressError` otherwise), and what it left. -/
def Nft.apply {σ : Type} (nft : Nft) (script : σ → σ) (s : σ) : Bool × σ :=
  match nft with
  | .done => (true, script s)
  | .failed true => (false, script s)
  | .failed false => (false, s)

/-- `install`, with a second call where the kernel has no IPv6. -/
def install (ipv6 : Bool) (networks : List Network) (first second : Nft) (net : Net) : Bool × Net :=
  match first.apply (fun net => { net with inet := some (ruleset networks true) }) net with
  | (true, net) => (true, net)
  | (false, net) =>
    if ipv6 then (false, net)
    else second.apply (fun net => { net with ip := some (ruleset networks false) }) net

/-- `release_ruleset`. -/
def releaseSlots (slots : List Nat) (net : Net) : Net :=
  { net with slots := fun n => if slots.contains n then none else net.slots n }

/-! ## The filter -/

/-- `EgressFilter`. -/
structure Filter where
  static : List Network
  addresses : List Address
  healthy : Bool
  allowlistsReady : Bool

def Filter.networks (f : Filter) : List Network := f.static ++ f.addresses.map Address.network

/-- Equal as sets. -/
def sameAddresses (as bs : List Address) : Bool :=
  as.all (bs.contains ·) && bs.all (as.contains ·)

/-- What `refresh` makes of a lookup, `none` if there is nothing to install. -/
def Filter.found (f : Filter) (lookup : Option (List Address)) : Option Filter :=
  lookup.bind fun found =>
    if sameAddresses found f.addresses && f.healthy then none
    else some { f with addresses := found }

/-- `read_resolvers`, of the text of resolv.conf. -/
def readResolvers (t : Unicode) (conf : Option Str) : List Address :=
  (Scrub.splitlines (conf.getD [])).foldl
    (fun found line => match (line.splitOnP t.isSpace).filter (· ≠ []) with
      | key :: server :: _ =>
        if key = str "nameserver" then
          match (IpAddress.parse (server.takeWhile (· ≠ 37))).bind Address.ofIpAddress with
          | some a =>
            let a := a.unmapped
            if (a.family = .v4 && a.value = dockerDns) || found.contains a then found
            else found ++ [a]
          | none => found
        else found
      | _ => found)
    []

/-! ## Before the first run -/

/-- How the tests of a slot's allowlist go: each call of nft, and whether each probe answers as it
should. -/
structure AllowlistTest where
  openPort : Nat
  firstAllow : Nft
  firstProbe : Bool
  secondAllow : Nft
  secondProbe : Bool
  release : Nft
  lastProbe : Bool
  lastRelease : Nft

/-- 127.0.0.1. -/
def loopback : Address := ⟨.v4, 0x7f000001, by decide⟩

def Net.put (slot : Nat) (table : SlotTable) (net : Net) : Net :=
  { net with slots := Function.update net.slots slot (some table) }

/-- `test_allowlists`: whether it found nothing wrong, and what it left. -/
def testAllowlists (cfg : Config) (f : Filter) (resolvers : List Address) (slot : Nat)
    (test : AllowlistTest) (net : Net) : Bool × Net :=
  if f.addresses = [] then (false, net)
  else
    let first := slotRuleset (uidOf slot)
      { hosts := f.addresses.map Address.network
        ports := [⟨loopback.network, .tcp, (test.openPort, test.openPort)⟩] } resolvers cfg.ipv6
    let second := slotRuleset (uidOf slot) { hosts := [loopback.network], ports := [] } resolvers
      cfg.ipv6
    let (ok, net) := test.firstAllow.apply (Net.put slot first) net
    let (ok, net) := if ok && test.firstProbe then test.secondAllow.apply (Net.put slot second) net
      else (false, net)
    let (ok, net) := if ok && test.secondProbe then test.release.apply (releaseSlots [slot]) net
      else (false, net)
    (ok && test.lastProbe, (test.lastRelease.apply (releaseSlots [slot]) net).2)

/-- How the world answers while the worker starts. -/
structure StartUp where
  /-- `check_available`. -/
  available : Bool
  api : Option (List Address)
  install : Nft × Nft
  release : Nft
  apiAgain : Option (List Address)
  installAgain : Nft × Nft
  /-- `self_test` found nothing wrong. -/
  selfTest : Bool
  resolvers : List Address
  tests : Nat → AllowlistTest

/-- `EgressFilter` and `start`, `none` where it raises. -/
def startFilter (cfg : Config) (o : StartUp) (net : Net) : Option Filter × Net :=
  let f : Filter :=
    { static := cfg.static, addresses := o.api.getD [], healthy := true, allowlistsReady := false }
  match install cfg.ipv6 f.networks o.install.1 o.install.2 net with
  | (false, net) => (none, net)
  | (true, net) =>
    match o.release.apply (releaseSlots (List.range maxSlots)) net with
    | (true, net) => (some f, net)
    | (false, net) => (none, net)

/-- The `refresh` before the tests, `none` where it raises. -/
def refreshOnce (cfg : Config) (o : StartUp) (f : Filter) (net : Net) : Option Filter × Net :=
  match f.found o.apiAgain with
  | none => (some f, net)
  | some f =>
    match install cfg.ipv6 f.networks o.installAgain.1 o.installAgain.2 net with
    | (true, net) => (some { f with healthy := true }, net)
    | (false, net) => (none, net)

/-- The tests of some slots, of which none follows one that finds something wrong. -/
def testSlots (cfg : Config) (f : Filter) (o : StartUp) : List Nat → Net → Bool × Net
  | [], net => (true, net)
  | slot :: slots, net =>
    match testAllowlists cfg f o.resolvers slot (o.tests slot) net with
    | (true, net) => testSlots cfg f o slots net
    | (false, net) => (false, net)

/-- `check_egress` and `verify_egress`: the filter, if the worker has one. `none` where it refuses
to start. -/
def startUp (cfg : Config) (o : StartUp) (net : Net) : Option (Option Filter × Net) :=
  let without (net : Net) : Option (Option Filter × Net) :=
    if cfg.production then none else some (none, net)
  if !cfg.egressFilter || !cfg.isolated then some (none, net)
  else if !o.available then without net
  else match startFilter cfg o net with
  | (none, net) => without net
  | (some f, net) =>
    match refreshOnce cfg o f net with
    | (none, net) => without net
    | (some f, net) =>
      if f.addresses = [] || !o.selfTest then without net
      else
        let (ready, net) := testSlots cfg f o [0, cfg.slots - 1].dedup net
        some (some { f with allowlistsReady := ready }, net)

/-! ## What the tables do -/

theorem mem_versions_v4 (ipv6 : Bool) : Family.v4 ∈ versions ipv6 := by cases ipv6
    <;> simp [versions]

/-- A table's rules for one version are about the packets of that version. -/
theorem any_versions {α : Type} (rules : Family → α) (f : α → Bool) (ipv6 : Bool) (p : Packet) :
    (((versions ipv6).map fun version => (version, rules version)).any fun sets =>
        p.version = sets.1 && f sets.2) = true ↔
      p.version ∈ versions ipv6 ∧ f (rules p.version) = true := by
  rw [List.any_map, List.any_eq_true]
  simp only [Function.comp_apply, Bool.and_eq_true, decide_eq_true_eq]
  constructor
  · intro ⟨version, hmem, heq, h⟩
    rw [heq]
    exact ⟨hmem, h⟩
  · exact fun ⟨hmem, h⟩ => ⟨_, hmem, rfl, h⟩

theorem covers_iff {networks : List Network} {version : Family} {a : Nat} :
    (Network.collapse ((networks.map unmapped).filter (·.family = version))).any
        (fun n => n.Mem a) = true ↔ ∃ n ∈ networks, Reaches n version a := by
  rw [List.any_eq_true]
  simp only [decide_eq_true_eq]
  show Network.Covers _ _ ↔ _
  rw [Network.covers_collapse]
  simp [Network.Covers, and_assoc, unmapped_reaches]

theorem rejects_ruleset {networks : List Network} {ipv6 : Bool} {p : Packet} :
    (ruleset networks ipv6).rejects p = true ↔
      p.version ∈ versions ipv6 ∧ ∃ n ∈ networks, Reaches n p.version p.dst := by
  rw [← covers_iff]
  exact any_versions (fun version => Network.collapse ((networks.map unmapped).filter
    (·.family = version))) (fun networks => networks.any fun n => n.Mem p.dst) ipv6 p

/-- A lookup at Docker's DNS server, or at one that resolv.conf names. -/
def Dns (resolvers : List Address) (p : Packet) : Prop :=
  p.protocol.isSome = true ∧ (p.version = .v4 ∧ p.dst = dockerDns ∧ p.originalPort = 53 ∨
    p.port = 53 ∧ ∃ r ∈ resolvers, r.unmapped.family = p.version ∧ r.unmapped.value = p.dst)

theorem accepts_hosts (allowlist : Allowlist) (p : Packet) :
    (slotSets allowlist p.version).hosts.any (fun n => n.Mem p.dst) = true ↔
      ∃ n ∈ allowlist.hosts, Reaches n p.version p.dst := covers_iff

/-- The entries of the ports' set that are left out are the hosts'. -/
theorem accepts_ports (allowlist : Allowlist) (p : Packet) (protocol : Protocol) :
    ((slotSets allowlist p.version).hosts.any (fun n => n.Mem p.dst) = true ∨
        (slotSets allowlist p.version).ports.any (fun e =>
          e.addresses.Mem p.dst && e.protocol = protocol && e.ports.Mem p.port) = true) ↔
      allowlist.Lets p.version p.dst (some protocol) p.port := by
  have hports : (slotSets allowlist p.version).ports.any (fun e =>
      e.addresses.Mem p.dst && e.protocol = protocol && e.ports.Mem p.port) = true ↔
        ∃ e ∈ (slotSets allowlist p.version).ports, e.Mem p.dst protocol p.port := by
    rw [List.any_eq_true]
    simp only [Bool.and_eq_true, decide_eq_true_eq, Element.Mem, and_assoc]
  have hhosts : (∃ n ∈ allowlist.hosts, Reaches n p.version p.dst) ↔
      ∃ n ∈ allowlist.hosts.map unmapped, n.family = p.version ∧ n.Mem p.dst := by
    simp only [List.mem_map, exists_exists_and_eq_and, unmapped_reaches]
  rw [accepts_hosts, hports, hhosts, slotSets, mem_disjoint, entriesOf_allow]
  simp only [List.mem_map, exists_exists_and_eq_and, unmapped_reaches, Allowlist.Lets,
    Option.some.injEq]

theorem accepts_resolvers (resolvers : List Address) (p : Packet) :
    (((resolvers.map Address.unmapped).filter (·.family = p.version)).map
        Address.value).contains p.dst = true ↔
      ∃ r ∈ resolvers, r.unmapped.family = p.version ∧ r.unmapped.value = p.dst := by
  simp [and_assoc]

/-- **A slot's table lets through lookups, and what the allowlist allows.** -/
theorem accepts_slotRuleset {uid : Nat} {allowlist : Allowlist} {resolvers : List Address}
    {ipv6 : Bool} {p : Packet} (hversion : p.version ∈ versions ipv6) :
    (slotRuleset uid allowlist resolvers ipv6).accepts p = true ↔
      Dns resolvers p ∨ allowlist.Lets p.version p.dst p.protocol p.port := by
  have hsets : ((slotRuleset uid allowlist resolvers ipv6).sets.any fun sets =>
      p.version = sets.1 && sets.2.accepts p) = true ↔
        (p.protocol.isSome = true ∧ p.port = 53 ∧
          ∃ r ∈ resolvers, r.unmapped.family = p.version ∧ r.unmapped.value = p.dst) ∨
        allowlist.Lets p.version p.dst p.protocol p.port := by
    refine ((any_versions (versionSets allowlist resolvers) (VersionSets.accepts · p) ipv6 p).trans
      (and_iff_right hversion)).trans ?_
    simp only [VersionSets.accepts, versionSets, Bool.or_eq_true, Bool.and_eq_true,
      decide_eq_true_eq, accepts_resolvers, or_assoc]
    refine or_congr ⟨fun ⟨⟨hr, hp⟩, hport⟩ => ⟨hp, hport, hr⟩,
      fun ⟨hp, hport, hr⟩ => ⟨⟨hr, hp⟩, hport⟩⟩ ?_
    cases p.protocol with
    | none =>
      rw [accepts_hosts]
      simp [Allowlist.Lets]
    | some protocol => exact accepts_ports allowlist p protocol
  unfold SlotTable.accepts
  rw [Bool.or_eq_true, hsets, ← or_assoc]
  refine or_congr ?_ Iff.rfl
  simp only [Bool.and_eq_true, decide_eq_true_eq, Dns]
  tauto

/-- A slot's own table is the only one about its user. -/
def Net.Own (net : Net) : Prop :=
  ∀ slot < maxSlots, ∀ table, net.slots slot = some table → table.uid = uidOf slot

theorem passes_iff {net : Net} (hown : net.Own) {slot : Nat}
    (hslot : slot < maxSlots) {p : Packet} :
    net.passes (uidOf slot) p = true ↔
      net.rejects p = false ∧ ∀ table, net.slots slot = some table → table.accepts p = true := by
  have hlo : runUidBase ≤ uidOf slot := Nat.le_add_right _ _
  have hhi : uidOf slot ≤ runUidBase + maxSlots - 1 := by
    unfold uidOf
    omega
  unfold Net.passes
  rw [Bool.and_eq_true]
  refine and_congr (by simp [hlo, hhi]) ?_
  rw [List.all_eq_true]
  constructor
  · intro h table htable
    have hall := h slot (List.mem_range.2 hslot)
    rw [htable, Option.all_some, hown slot hslot table htable] at hall
    simpa using hall
  · intro h other hother
    cases htable : net.slots other with
    | none => rfl
    | some table =>
      rw [Option.all_some]
      by_cases hsame : other = slot
      · subst hsame
        rw [h table htable, Bool.or_true]
      · have huid : table.uid ≠ uidOf slot := by
          rw [hown other (List.mem_range.1 hother) table htable]
          unfold uidOf
          omega
        rw [decide_eq_true huid, Bool.true_or]

theorem rejected {net : Net} {slot : Nat} (hslot : slot < maxSlots) {p : Packet}
    (h : net.rejects p = true) : net.passes (uidOf slot) p = false := by
  have hlo : runUidBase ≤ uidOf slot := Nat.le_add_right _ _
  have hhi : uidOf slot ≤ runUidBase + maxSlots - 1 := by
    unfold uidOf
    omega
  unfold Net.passes
  rw [h, decide_eq_true hlo, decide_eq_true hhi]
  rfl

/-! ## What nft leaves -/

/-- Nothing that reaches the network gets past the tables that all slots share. -/
def Net.Blocks (net : Net) (ipv6 : Bool) (n : Network) : Prop :=
  ∀ p : Packet, p.version ∈ versions ipv6 → Reaches n p.version p.dst → net.rejects p = true

theorem blocks_inet {net : Net} {networks : List Network} {ipv6 : Bool}
    (h : net.inet = some (ruleset networks true)) {n : Network} (hn : n ∈ networks) :
    net.Blocks ipv6 n := by
  intro p _ hreaches
  have hversion : p.version ∈ versions true := by cases p.version <;> simp [versions]
  rw [Net.rejects, h, Option.any_some, rejects_ruleset.2 ⟨hversion, n, hn, hreaches⟩, Bool.true_or]

theorem blocks_ip {net : Net} {networks : List Network}
    (h : net.ip = some (ruleset networks false)) {n : Network} (hn : n ∈ networks) :
    net.Blocks false n := by
  intro p hversion hreaches
  have hv4 : p.version = .v4 := List.mem_singleton.1 hversion
  rw [Net.rejects, h, Option.any_some, rejects_ruleset.2 ⟨hversion, n, hn, hreaches⟩,
    decide_eq_true hv4, Bool.and_true, Bool.or_true]

/-- Once `install` succeeds all the networks are blocked. Those that were before still are. -/
structure Installed (ipv6 : Bool) (networks : List Network) (net : Net)
    (r : Bool × Net) : Prop where
  blocks : r.1 = true → ∀ n ∈ networks, r.2.Blocks ipv6 n
  kept : ∀ n ∈ networks, net.Blocks ipv6 n → r.2.Blocks ipv6 n
  slots : r.2.slots = net.slots

theorem installed (ipv6 : Bool) (networks : List Network) (first second : Nft) (net : Net) :
    Installed ipv6 networks net (install ipv6 networks first second net) := by
  have hinet : ∀ net : Net, ∀ n ∈ networks,
      Net.Blocks { net with inet := some (ruleset networks true) } ipv6 n :=
    fun _ _ hn => blocks_inet rfl hn
  have hsecond : ∀ net' : Net, net'.slots = net.slots →
      (∀ n ∈ networks, net.Blocks ipv6 n → net'.Blocks ipv6 n) →
        Installed ipv6 networks net (if ipv6 then (false, net')
          else second.apply (fun net => { net with ip := some (ruleset networks false) })
              net') := by
    intro net' hslots hkept
    cases ipv6 with
    | true => exact ⟨fun h => Bool.noConfusion h, hkept, hslots⟩
    | false =>
      cases second with
      | done => exact ⟨fun _ _ hn => blocks_ip rfl hn, fun _ hn _ => blocks_ip rfl hn, hslots⟩
      | failed applied =>
        cases applied with
        | true => exact ⟨fun h => Bool.noConfusion h, fun _ hn _ => blocks_ip rfl hn, hslots⟩
        | false => exact ⟨fun h => Bool.noConfusion h, hkept, hslots⟩
  cases first with
  | done => exact ⟨fun _ => hinet net, fun n hn _ => hinet net n hn, rfl⟩
  | failed applied =>
    cases applied with
    | true => exact hsecond _ rfl fun n hn _ => hinet net n hn
    | false => exact hsecond _ rfl fun _ _ h => h

theorem Net.Blocks.congr {net net' : Net} (h : (net'.inet, net'.ip) = (net.inet, net.ip))
    {ipv6 : Bool} {n : Network} (hblocks : net.Blocks ipv6 n) : net'.Blocks ipv6 n := by
  obtain ⟨hinet, hip⟩ := Prod.mk.inj h
  intro p hversion hreaches
  rw [Net.rejects, hinet, hip]
  exact hblocks p hversion hreaches

/-! ## What the worker starts with -/

/-- The filter is in place. -/
structure Started (cfg : Config) (f : Filter) (net : Net) : Prop where
  static : f.static = cfg.static
  healthy : f.healthy = true
  blocks : ∀ n ∈ f.networks, net.Blocks cfg.ipv6 n

/-- No slot has a table. -/
def Net.Released (net : Net) : Prop := ∀ slot < maxSlots, net.slots slot = none

theorem released_releaseSlots (net : Net) :
    (releaseSlots (List.range maxSlots) net).Released := by
  intro slot hslot
  have hmem : (List.range maxSlots).contains slot = true := by simpa using hslot
  show (if (List.range maxSlots).contains slot = true then none else net.slots slot) = none
  rw [if_pos hmem]

theorem startFilter_spec {cfg : Config} {o : StartUp} {net net' : Net} {f : Filter}
    (h : startFilter cfg o net = (some f, net')) : Started cfg f net' ∧ net'.Released := by
  unfold startFilter at h
  dsimp only at h
  have hinstalled := installed cfg.ipv6
    (Filter.networks ⟨cfg.static, o.api.getD [], true, false⟩) o.install.1 o.install.2 net
  split at h
  · cases h
  · next mid hmid =>
    rw [hmid] at hinstalled
    cases hrelease : o.release with
    | done =>
      rw [hrelease] at h
      obtain ⟨hf, rfl⟩ := Prod.mk.inj h
      obtain rfl := Option.some.inj hf
      refine ⟨⟨rfl, rfl, fun n hn => ?_⟩, released_releaseSlots mid⟩
      exact Net.Blocks.congr rfl (hinstalled.blocks rfl n hn)
    | failed applied =>
      rw [hrelease] at h
      cases applied <;> cases h

theorem refreshOnce_spec {cfg : Config} {o : StartUp} {net net' : Net} {f f' : Filter}
    (hf : Started cfg f net) (h : refreshOnce cfg o f net = (some f', net')) :
    Started cfg f' net' ∧ net'.slots = net.slots := by
  unfold refreshOnce at h
  split at h
  · obtain ⟨hf', rfl⟩ := Prod.mk.inj h
    obtain rfl := Option.some.inj hf'
    exact ⟨hf, rfl⟩
  · next found hfound =>
    have hstatic : found.static = cfg.static := by
      obtain ⟨addresses, -, hif⟩ := Option.bind_eq_some_iff.1 hfound
      split at hif
      · cases hif
      · obtain rfl := Option.some.inj hif
        exact hf.static
    have hinstalled := installed cfg.ipv6 found.networks o.installAgain.1 o.installAgain.2 net
    split at h
    · next mid hmid =>
      rw [hmid] at hinstalled
      obtain ⟨hf', rfl⟩ := Prod.mk.inj h
      obtain rfl := Option.some.inj hf'
      exact ⟨⟨hstatic, rfl, hinstalled.blocks rfl⟩, hinstalled.slots⟩
    · cases h

/-- What the tests do to the tables that all slots share. -/
theorem apply_shared (script : Net → Net)
    (hscript : ∀ net, ((script net).inet, (script net).ip) = (net.inet, net.ip)) (nft : Nft)
    (net : Net) : ((nft.apply script net).2.inet, (nft.apply script net).2.ip)
      = (net.inet, net.ip) := by
  cases nft with
  | done => exact hscript net
  | failed applied =>
    cases applied with
    | true => exact hscript net
    | false => rfl

theorem apply_released {nft : Nft} {slot : Nat} {net : Net} (h : net.Released) :
    (nft.apply (releaseSlots [slot]) net).2.Released := by
  have hrelease : (releaseSlots [slot] net).Released := by
    intro n hn
    show (if [slot].contains n = true then none else net.slots n) = none
    rw [h n hn, ite_self]
  cases nft with
  | done => exact hrelease
  | failed applied =>
    cases applied with
    | true => exact hrelease
    | false => exact h

/-- Only a slot's own table is put in place. -/
theorem apply_put {nft : Nft} {slot : Nat} {table : SlotTable} {net : Net} {n : Nat}
    (hn : n ≠ slot) :
    (nft.apply (Net.put slot table) net).2.slots n = net.slots n := by
  have hput : (Net.put slot table net).slots n = net.slots n := Function.update_of_ne hn _ _
  cases nft with
  | done => exact hput
  | failed applied =>
    cases applied with
    | true => exact hput
    | false => rfl

/-- A test leaves the shared tables alone, and none of its own if it finds nothing wrong. -/
theorem testAllowlists_spec (cfg : Config) (f : Filter) (resolvers : List Address) (slot : Nat)
    (test : AllowlistTest) (net : Net) :
    ((testAllowlists cfg f resolvers slot test net).2.inet,
      (testAllowlists cfg f resolvers slot test net).2.ip) = (net.inet, net.ip) ∧
    ((testAllowlists cfg f resolvers slot test net).1 = true → net.Released →
      (testAllowlists cfg f resolvers slot test net).2.Released) := by
  unfold testAllowlists
  by_cases hnone : f.addresses = []
  · rw [if_pos hnone]
    exact ⟨rfl, fun _ h => h⟩
  · rw [if_neg hnone]
    dsimp only
    generalize slotRuleset (uidOf slot) { hosts := f.addresses.map Address.network, ports := [_] }
      resolvers cfg.ipv6 = one
    generalize slotRuleset (uidOf slot) { hosts := [loopback.network], ports := [] } resolvers
      cfg.ipv6 = two
    have hshared₁ := apply_shared (Net.put slot one) (fun _ => rfl) test.firstAllow net
    have hother₁ : ∀ n, n ≠ slot →
        (test.firstAllow.apply (Net.put slot one) net).2.slots n = net.slots n :=
      fun n hn => apply_put hn
    generalize test.firstAllow.apply (Net.put slot one) net = r₁ at hshared₁ hother₁ ⊢
    have hlast : ∀ r : Bool × Net, (r.2.inet, r.2.ip) = (net.inet, net.ip) →
        ((test.lastRelease.apply (releaseSlots [slot]) r.2).2.inet,
          (test.lastRelease.apply (releaseSlots [slot]) r.2).2.ip) = (net.inet, net.ip) :=
      fun r hr =>
        (apply_shared (releaseSlots [slot]) (fun _ => rfl) test.lastRelease r.2).trans hr
    by_cases hok₁ : (r₁.1 && test.firstProbe) = true
    · rw [if_pos hok₁]
      have hshared₂ := (apply_shared (Net.put slot two) (fun _ => rfl) test.secondAllow
        r₁.2).trans hshared₁
      have hother₂ : ∀ n, n ≠ slot →
          (test.secondAllow.apply (Net.put slot two) r₁.2).2.slots n = net.slots n :=
        fun n hn => (apply_put hn).trans (hother₁ n hn)
      generalize test.secondAllow.apply (Net.put slot two) r₁.2 = r₂ at hshared₂ hother₂ ⊢
      by_cases hok₂ : (r₂.1 && test.secondProbe) = true
      · rw [if_pos hok₂]
        have hshared₃ := (apply_shared (releaseSlots [slot]) (fun _ => rfl) test.release
          r₂.2).trans hshared₂
        refine ⟨hlast _ hshared₃, fun hpassed hreleased => ?_⟩
        cases hrelease : test.release with
        | failed applied =>
          rw [hrelease] at hpassed
          cases applied <;> cases hpassed
        | done =>
          refine apply_released fun n hn => ?_
          show (if [slot].contains n = true then none else r₂.2.slots n) = none
          split
          · rfl
          · next hne => rw [hother₂ n (by simpa using hne), hreleased n hn]
      · rw [if_neg hok₂]
        exact ⟨hlast r₂ hshared₂, fun h => Bool.noConfusion h⟩
    · rw [if_neg hok₁, if_neg (by rw [Bool.false_and]; exact Bool.false_ne_true)]
      exact ⟨hlast r₁ hshared₁, fun h => Bool.noConfusion h⟩

theorem testSlots_spec (cfg : Config) (f : Filter) (o : StartUp) (slots : List Nat) (net : Net) :
    ((testSlots cfg f o slots net).2.inet, (testSlots cfg f o slots net).2.ip)
      = (net.inet, net.ip) ∧
    ((testSlots cfg f o slots net).1 = true → net.Released →
      (testSlots cfg f o slots net).2.Released) := by
  induction slots generalizing net with
  | nil => exact ⟨rfl, fun _ h => h⟩
  | cons slot slots ih =>
    have hspec := testAllowlists_spec cfg f o.resolvers slot (o.tests slot) net
    unfold testSlots
    split
    · next net' htest =>
      rw [htest] at hspec
      exact ⟨(ih net').1.trans hspec.1, fun h hreleased => (ih net').2 h (hspec.2 rfl hreleased)⟩
    · next net' htest =>
      rw [htest] at hspec
      exact ⟨hspec.1, fun h => Bool.noConfusion h⟩

/-- The filter that a worker starts with is in place, and if it is to limit runs no slot is limited
yet. -/
theorem startUp_spec {cfg : Config} {o : StartUp} {net net' : Net} {f : Filter}
    (h : startUp cfg o net = some (some f, net')) :
    cfg.isolated = true ∧ Started cfg f net' ∧ (f.allowlistsReady = true → net'.Released) := by
  have hwithout : ∀ net, (if cfg.production then none else some ((none : Option Filter), net))
      ≠ some (some f, net') := by
    intro net
    cases cfg.production <;> simp
  unfold startUp at h
  dsimp only at h
  split at h
  · cases h
  · next hon =>
    split at h
    · exact absurd h (hwithout _)
    · split at h
      · exact absurd h (hwithout _)
      · next g mid hstart =>
        obtain ⟨hstarted, hreleased⟩ := startFilter_spec hstart
        split at h
        · exact absurd h (hwithout _)
        · next g' mid' hrefresh =>
          obtain ⟨hstarted', hslots⟩ := refreshOnce_spec hstarted hrefresh
          split at h
          · exact absurd h (hwithout _)
          · obtain ⟨hf, rfl⟩ := Prod.mk.inj (Option.some.inj h)
            obtain rfl := Option.some.inj hf
            have htests := testSlots_spec cfg g' o [0, cfg.slots - 1].dedup mid'
            refine ⟨?_, ⟨hstarted'.static, hstarted'.healthy, fun n hn => ?_⟩, fun hready => ?_⟩
            · cases hisolated : cfg.isolated with
              | true => rfl
              | false =>
                rw [hisolated] at hon
                exact absurd (Bool.or_true _) hon
            · exact (hstarted'.blocks n hn).congr htests.1
            · exact htests.2 hready fun slot hslot => hslots ▸ hreleased slot hslot

end Egress

end AnsiDeck
