import AnsiDeck.Egress.Extras
import AnsiDeck.Egress.JumpHosts
import AnsiDeck.HostKeys.Names
import AnsiDeck.Lib.Case
import AnsiDeck.Lib.IpText

/-!
# Where host keys expect a host

`app.host_keys.address_of`: the known_hosts name of a host, read from the same variables as
`app.egress_allowlist` reads its address from, by other code. The names of the plugins that run ssh
are not the same, and `address_of` takes the text of the address as it stands where the allowlist
writes it anew, without brackets, white space or a last dot: see `sameAddress_iff`.
-/

namespace AnsiDeck

namespace HostKeys

open Lib (IpAddress Json Str decimal lowerAscii str Unicode)

open HostVars (lastSet templated)

structure HostAddress where
  name : Option Str
  connection : Str
  checked : Bool
  reason : Option Str := none
  deriving DecidableEq

/-- `SSH_CONNECTIONS` of this module. -/
def sshConnections : List Str := ["ssh", "smart"].map str

/-- `_TEMPLATE`. -/
def templateMarks : List Str := ["\x7b\x7b", "\x7b%", "\x7b#"].map str

/-- The variables of the address, the last first in precedence. -/
def hostVars : List Str := ["ansible_host", "ansible_ssh_host"].map str

def portVars : List Str := ["ansible_port", "ansible_ssh_port"].map str

section

variable (t : Unicode)

/-- `_port`, `none` where it raises `ValueError`. `isdigit()` also takes digits that `int` refuses.
-/
def portOf (value : Json) : Option Int := do
  let port ← match value with
    | .int n => some n
    | .str s =>
      let s := t.strip s
      if s ≠ [] && s.all (fun c => (t.digit c).isSome) then t.int? s else none
    | _ => none
  if 1 ≤ port && port ≤ 65535 then some port else none

/-- The port that is set, `some none` without one. -/
def setPort (port : Option Json) : Option (Option Int) :=
  match port with
  | none => some none
  | some value => (portOf t value).map some

def addressOf (inventoryHostname : Str) (vars : Vars) : HostAddress :=
  match HostVars.connection vars with
  | .str connection =>
    if templated templateMarks (.str connection) then
      ⟨none, str "?", false, some (str "its connection is set by a template")⟩
    else if !sshConnections.contains connection then
      ⟨none, connection, false, some (str "connects with " ++ connection ++ str ", not ssh")⟩
    else
      let host := (lastSet vars hostVars none).getD (.str inventoryHostname)
      let port := lastSet vars portVars none
      if templated templateMarks host || port.any (templated templateMarks) then
        ⟨none, str "ssh", true, some (str "its address is set by a template")⟩
      else match setPort t port with
      | none => ⟨none, str "ssh", true, some (str "its port isn't a number")⟩
      | some port =>
        let name := match host with
          | .str host => normaliseName t (aliasOf t host port)
          | _ => none
        match name with
        | none => ⟨none, str "ssh", true, some (str "its address isn't a plain host name")⟩
        | some name => ⟨some name, str "ssh", true, none⟩
  | _ => ⟨none, str "?", false, some (str "its connection is set by a template")⟩

/-! ## Agreeing with the allowlist -/

/-- The variables' address of a host. -/
def givenAddress (host : Str) (vars : Vars) : Json :=
  (lastSet vars hostVars none).getD (.str host)

/-- Neither the address nor the port is a template. -/
def Untemplated (host : Str) (vars : Vars) : Prop :=
  templated templateMarks (givenAddress host vars) = false ∧
    ∀ port ∈ lastSet vars portVars none, templated templateMarks port = false

instance (host : Str) (vars : Vars) : Decidable (Untemplated host vars) :=
  inferInstanceAs (Decidable (_ ∧ _))

/-- The port that a variable sets: 1 to 65535, as a number or as the digits of one. -/
inductive SetsPort : Option Json → Option Int → Prop
  | unset : SetsPort none none
  | number {n : Int} (hlo : 1 ≤ n) (hhi : n ≤ 65535) : SetsPort (some (.int n)) (some n)
  | digits {s : Str} {n : Int} (hdigits : ∀ c ∈ t.strip s, (t.digit c).isSome = true)
    (hvalue : t.int? (t.strip s) = some n) (hlo : 1 ≤ n) (hhi : n ≤ 65535) :
    SetsPort (some (.str s)) (some n)

/-- `address_of` gives a checked name, and it is the name of the address the egress target opens and
of the port that is set. -/
def SameAddress (host : Str) (vars : Vars) : Prop :=
  ∃ address port, (Egress.egressTarget t host vars).address = some address ∧
    SetsPort t (lastSet vars portVars none) port ∧
    addressOf t host vars = ⟨some (aliasOf t address port), str "ssh", true, none⟩

/-- A text that is read alike: a host name without a last dot, or an IP address as `str` writes it,
up to case, that known_hosts can name (it doesn't begin with a colon, and its scope is plain). -/
inductive ReadAlike : Str → Prop
  | hostname {text : Str} (hhost : Egress.isHostname text = true)
    (hip : IpAddress.parse text = none) (hdot : text.getLast? ≠ some 46) : ReadAlike text
  | address {text : Str} {a : IpAddress} (hip : IpAddress.parse text = some a)
    (hcase : t.lower text = t.lower a.text) (hname : isHost (t.lower text) = true) : ReadAlike text

/-- The connection is `ssh` or `smart`, the port, if one is set, is one, and the address is a text
that is read alike, with white space around it only where the port is 22, and not too long. -/
structure WrittenPlainly (host : Str) (vars : Vars) (value : Str) (port : Option Int) : Prop where
  plugin : ∃ connection ∈ sshConnections, HostVars.connection vars = .str connection
  set : SetsPort t (lastSet vars portVars none) port
  given : givenAddress host vars = .str value
  bare : t.strip value = value ∨ port = none ∨ port = some 22
  alike : ReadAlike t (t.strip value)
  fits : (aliasOf t (t.strip value) port).length ≤ maxName

end

variable {t : Unicode}

theorem setPort_iff {value : Option Json} {port : Option Int} :
    setPort t value = some port ↔ SetsPort t value port := by
  cases value with
  | none =>
    refine ⟨fun h => ?_, fun h => ?_⟩
    · obtain rfl := Option.some.inj h
      exact .unset
    · cases h
      rfl
  | some value =>
    rw [setPort, Option.map_eq_some_iff]
    constructor
    · rintro ⟨n, h, rfl⟩
      unfold portOf at h
      dsimp only at h
      split at h
      · obtain ⟨m, hm, h⟩ := Option.bind_eq_some_iff.1 h
        obtain rfl := Option.some.inj hm
        obtain ⟨hrange, h⟩ := Option.ite_none_right_eq_some.1 h
        obtain rfl := Option.some.inj h
        simp only [Bool.and_eq_true, decide_eq_true_eq] at hrange
        exact .number hrange.1 hrange.2
      · split at h
        · next hdigits =>
          obtain ⟨m, hm, h⟩ := Option.bind_eq_some_iff.1 h
          obtain ⟨hrange, h⟩ := Option.ite_none_right_eq_some.1 h
          obtain rfl := Option.some.inj h
          simp only [Bool.and_eq_true, List.all_eq_true, decide_eq_true_eq] at hdigits hrange
          exact .digits hdigits.2 hm hrange.1 hrange.2
        · cases h
      · cases h
    · intro h
      cases h with
      | @number n hlo hhi => exact ⟨n, by simp [portOf, hlo, hhi], rfl⟩
      | @digits s n hdigits hvalue hlo hhi =>
        have hne : t.strip s ≠ [] := by
          intro hnil
          rw [hnil] at hvalue
          exact absurd hvalue (by simp [Unicode.int?, Lib.Str.strip, Unicode.digitRun])
        have hall : (t.strip s).all (fun c => (t.digit c).isSome) = true :=
          List.all_eq_true.2 hdigits
        exact ⟨n, by simp [portOf, hne, hall, hvalue, hlo, hhi], rfl⟩

theorem SetsPort.range {value : Option Json} {n : Int} (h : SetsPort t value (some n)) :
    1 ≤ n ∧ n ≤ 65535 := by
  cases h with
  | number hlo hhi => exact ⟨hlo, hhi⟩
  | digits _ _ hlo hhi => exact ⟨hlo, hhi⟩

/-! ## Names that are read alike -/

/-- No character of a name in known_hosts parts a text. -/
theorem not_parts_of_hostChar {c : Nat} (h : hostChar c = true) : t.parts c = false := by
  have hspace := isSpace_of_hostChar (t := t) h
  obtain ⟨-, -, hopen, hclose, -⟩ := hostChar_cases h
  simp [Unicode.parts, hspace, hopen, hclose]

/-- So a text that is one in lower case has neither brackets nor white space. -/
theorem not_mem_of_isHost (ht : t.Cases) {text : Str} (h : isHost (t.lower text) = true) {c : Nat}
    (hc : t.parts c = true) : c ∉ text := by
  intro hmem
  have hchar := hostChar_of_mem h ((ht.mem_lower_iff hc).2 hmem)
  rw [not_parts_of_hostChar hchar] at hc
  cases hc

theorem unbracketed {text : Str} (hopen : 91 ∉ text) (hclose : 93 ∉ text) :
    Lib.Str.strip (fun c => c = 91 || c = 93) text = text := by
  refine Lib.Str.strip_eq_self fun c hc => ?_
  have hne : c ≠ 91 ∧ c ≠ 93 := ⟨fun h => hopen (h ▸ hc), fun h => hclose (h ▸ hc)⟩
  simp [hne]

/-- The first character of a host name. -/
theorem labelStart_of_hostname {c : Nat} {rest : Str} (h : Egress.isHostname (c :: rest) = true)
    (hdot : (c :: rest).rdropWhile (· = 46) = c :: rest) : Egress.labelStart c = true := by
  obtain ⟨-, -, -, hlabels, -⟩ := Egress.labels_of_hostname h
  rw [hdot, List.splitOn_cons_eq_if_modifyHead] at hlabels
  split at hlabels
  · exact absurd (hlabels [] (by simp)) (by decide)
  · cases hsplit : rest.splitOn 46 with
    | nil => exact absurd hsplit (List.splitOn_ne_nil 46 rest)
    | cons label labels =>
      rw [hsplit] at hlabels
      have hlabel := hlabels (c :: label) (by simp)
      simp only [Egress.isLabel, Bool.and_eq_true] at hlabel
      exact hlabel.1.1

theorem hostChar_lowerAscii {c : Nat} (h : Egress.nameChar c = true) :
    hostChar (lowerAscii c) = true := by
  simp only [Egress.nameChar, Egress.labelStart, hostChar, hostStart, lowerAscii, Bool.or_eq_true,
    Bool.and_eq_true, decide_eq_true_eq] at h ⊢
  split <;> omega

theorem hostStart_lowerAscii {c : Nat} (h : Egress.labelStart c = true) :
    hostStart (lowerAscii c) = true := by
  simp only [Egress.labelStart, hostStart, lowerAscii, Bool.or_eq_true, Bool.and_eq_true,
    decide_eq_true_eq] at h ⊢
  split <;> omega

theorem ascii_of_hostname {text : Str} (h : Egress.isHostname text = true) :
    t.lower text = text.map lowerAscii := by
  refine t.lower_plain fun c hc => .inl ?_
  have hname := Egress.nameChar_of_hostname h c hc
  simp only [Egress.nameChar, Egress.labelStart, Bool.or_eq_true, Bool.and_eq_true,
    decide_eq_true_eq] at hname
  omega

/-- A host name without a last dot is read, and named, as it is in lower case. -/
theorem hostname_spec {text : Str} (hhost : Egress.isHostname text = true)
    (hdot : text.getLast? ≠ some 46) :
    isHost (t.lower text) = true ∧ (t.lower text).rdropWhile (· = 46) = t.lower text := by
  have hself : text.rdropWhile (· = 46) = text := by
    rw [List.rdropWhile_eq_self_iff]
    intro hne h
    rw [List.getLast?_eq_some_getLast hne] at hdot
    exact hdot (by simpa using h)
  constructor
  · rw [ascii_of_hostname hhost]
    cases text with
    | nil => exact absurd hhost (by decide)
    | cons c rest =>
      have hchars := Egress.nameChar_of_hostname hhost
      simp only [List.map_cons, isHost, Bool.and_eq_true, List.all_eq_true]
      refine ⟨hostStart_lowerAscii (labelStart_of_hostname hhost hself), fun d hd => ?_⟩
      obtain ⟨e, he, rfl⟩ := List.mem_map.1 hd
      exact hostChar_lowerAscii (hchars e (List.mem_cons_of_mem _ he))
  · rw [Egress.lower_hostname hhost, hself, ascii_of_hostname hhost]

/-- What is read alike is the allowlist's address, up to case, and a name in known_hosts. -/
theorem ReadAlike.address_eq (ht : t.Cases) {value : Str} (h : ReadAlike t (t.strip value)) :
    ∃ address, Egress.plainAddress t (.str value) = some address ∧
      t.lower address = t.lower (t.strip value) ∧ isHost (t.lower (t.strip value)) = true := by
  rw [Egress.plainAddress]
  revert h
  generalize t.strip value = text
  intro h
  cases h with
  | hostname hhost hip hdot =>
    obtain ⟨hname, hself⟩ := hostname_spec (t := t) hhost hdot
    have hopen : 91 ∉ text := not_mem_of_isHost ht hname (by simp [Unicode.parts])
    have hclose : 93 ∉ text := not_mem_of_isHost ht hname (by simp [Unicode.parts])
    refine ⟨t.lower text, ?_, ht.lower_lower text, hname⟩
    rw [unbracketed hopen hclose, hip]
    dsimp only
    rw [if_pos hhost, hself]
  | @address a hip hcase hname =>
    have hopen : 91 ∉ text := not_mem_of_isHost ht hname (by simp [Unicode.parts])
    have hclose : 93 ∉ text := not_mem_of_isHost ht hname (by simp [Unicode.parts])
    refine ⟨a.text, ?_, hcase.symm, hname⟩
    rw [unbracketed hopen hclose, hip]

/-- An address whose lower case is that of the text, and a name, is of a text that is read alike. -/
theorem readAlike_of_address (ht : t.Cases) {value address : Str}
    (h : Egress.plainAddress t (.str value) = some address)
    (hlower : t.lower (t.strip value) = t.lower address)
    (hname : isHost (t.lower (t.strip value)) = true) : ReadAlike t (t.strip value) := by
  rw [Egress.plainAddress] at h
  revert h hlower hname
  generalize t.strip value = text
  intro h hlower hname
  have hopen : 91 ∉ text := not_mem_of_isHost ht hname (by simp [Unicode.parts])
  have hclose : 93 ∉ text := not_mem_of_isHost ht hname (by simp [Unicode.parts])
  rw [unbracketed hopen hclose] at h
  split at h
  · next a hip =>
    obtain rfl := Option.some.inj h
    exact .address hip hlower hname
  · next hip =>
    obtain ⟨hhost, h⟩ := Option.ite_none_right_eq_some.1 h
    obtain rfl := Option.some.inj h
    refine .hostname hhost hip fun hdot => ?_
    -- the last dot would not be in the address
    obtain ⟨front, rfl⟩ := List.getLast?_eq_some_iff.1 hdot
    have hlength := congrArg List.length hlower
    have hstored := Egress.lower_hostname (t := t) hhost
    rw [List.rdropWhile_concat_pos _ _ _ (by decide)] at hstored
    have hchars : ∀ c ∈ front.map lowerAscii, c < 128 ∧ lowerAscii c = c := by
      intro c hc
      obtain ⟨d, hd, rfl⟩ := List.mem_map.1 hc
      have hname := Egress.nameChar_of_hostname hhost d (List.mem_append_left _ hd)
      obtain ⟨hlt, hfix, -⟩ := Egress.nameChar_lowerAscii hname
      exact ⟨hlt, hfix⟩
    have hshort : (t.lower ((t.lower (front ++ [46])).rdropWhile (· = 46))).length ≤
        front.length := by
      rw [hstored, Unicode.lower_eq_self fun c hc => .inl (hchars c
        (List.map_subset _ (List.rdropWhile_prefix _ _).subset hc)), List.length_map]
      exact (List.rdropWhile_prefix _ _).length_le
    rw [ascii_of_hostname hhost, List.length_map, List.length_append] at hlength
    rw [ascii_of_hostname hhost] at hshort
    simp only [List.length_cons, List.length_nil] at hlength
    omega

/-! ## The text of a name -/

theorem text_head (a : IpAddress) : a.text.head? ≠ some 91 := by
  intro hhead
  obtain ⟨family, value, scope⟩ := a
  cases family with
  | v4 => exact IpAddress.not_mem_v4Text (by decide) (by decide) (List.mem_of_head? hhead)
  | v6 =>
    have hnot : 91 ∉ IpAddress.v6Text value := IpAddress.not_mem_v6Text (by decide) (by decide)
    have hcolon := IpAddress.colon_mem_v6Text value
    have hhead' : (IpAddress.v6Text value).head? = some 91 := by
      cases scope with
      | none => exact hhead
      | some scope =>
        have happend : (IpAddress.v6Text value ++ str "%" ++ scope).head? = some 91 := hhead
        cases htext : IpAddress.v6Text value with
        | nil => simp [htext] at hcolon
        | cons c rest =>
          rw [htext] at happend
          exact happend
    exact hnot (List.mem_of_head? hhead')

/-- No address of the allowlist begins with a bracket. -/
theorem address_head (ht : t.Cases) {value address rest : Str}
    (h : Egress.plainAddress t (.str value) = some address) : t.lower address ≠ 91 :: rest := by
  intro hlower
  obtain ⟨rest', rfl, -⟩ := ht.head_of_lower (by simp [Unicode.parts]) hlower
  rw [Egress.plainAddress] at h
  split at h
  · next a _ => exact text_head a (by rw [Option.some.inj h]; rfl)
  · obtain ⟨hhost, h⟩ := Option.ite_none_right_eq_some.1 h
    have hmem : 91 ∈ t.lower (t.strip value) := by
      refine (List.rdropWhile_prefix (fun c => decide (c = 46)) _).subset ?_
      rw [Option.some.inj h]
      exact List.mem_cons_self
    have hname := Egress.nameChar_of_hostname hhost 91
      (ht.mem_of_lower (by simp [Unicode.parts]) hmem)
    exact absurd hname (by decide)

theorem strip_brackets {inside back : Str} (hne : inside ≠ []) (hopen : 91 ∉ inside)
    (hclose : 93 ∉ inside) (hback : ∀ c, back.getLast? = some c → c ≠ 91 ∧ c ≠ 93)
    (hback_ne : back ≠ []) :
    Lib.Str.strip (fun c => c = 91 || c = 93) (91 :: (inside ++ 93 :: back))
      = inside ++ 93 :: back := by
  have hfirst : (inside ++ 93 :: back).dropWhile (fun c => c = 91 || c = 93)
      = inside ++ 93 :: back := by
    cases inside with
    | nil => exact absurd rfl hne
    | cons c inside =>
      refine List.dropWhile_cons_of_neg fun hc => ?_
      simp only [Bool.or_eq_true, decide_eq_true_eq] at hc
      rcases hc with rfl | rfl
      · exact hopen List.mem_cons_self
      · exact hclose List.mem_cons_self
  rw [Lib.Str.strip, List.dropWhile_cons_of_pos (by decide), hfirst, List.rdropWhile_eq_self_iff]
  intro hne' hlast
  rw [List.getLast_append_of_ne_nil _ (List.cons_ne_nil _ _), List.getLast_cons hback_ne] at hlast
  have := hback _ (List.getLast?_eq_some_getLast hback_ne)
  simp [this] at hlast

/-- A text in brackets with a port is none that the allowlist reads as the host in them. -/
theorem not_bracketed (ht : t.Cases) {value address port : Str}
    (h : Egress.plainAddress t (.str value) = some address)
    (hhost : isHost (t.lower address) = true) (hport : isPort t port = true) :
    t.lower (t.strip value) ≠ bracketed (t.lower address) port := by
  intro hlower
  have hclose : 93 ∉ t.lower address := fun hc => absurd (hostChar_of_mem hhost hc) (by decide)
  rw [bracketed_eq] at hlower
  obtain ⟨rest, htext, hrest⟩ := ht.head_of_lower (by simp [Unicode.parts]) hlower
  obtain ⟨inside, back, rfl, hinside, hback⟩ :=
    ht.split_of_lower (by simp [Unicode.parts]) hclose hrest
  rw [← hinside] at hhost
  have hback_ne : back ≠ [] := by
    rintro rfl
    rw [Unicode.lower_nil] at hback
    cases hback
  have hlast : ∀ c, back.getLast? = some c → c ≠ 91 ∧ c ≠ 93 := by
    intro c hc
    by_contra hbracket
    have hparts : t.parts c = true := by
      simp only [Unicode.parts, Bool.or_eq_true, decide_eq_true_eq]
      by_contra hno
      exact hbracket ⟨fun h91 => hno (.inl (.inr h91)), fun h93 => hno (.inr h93)⟩
    have hmem : c ∈ 58 :: port := hback ▸ (ht.mem_lower_iff hparts).2 (List.mem_of_getLast? hc)
    rcases List.mem_cons.1 hmem with rfl | hmem
    · exact hbracket (by decide)
    · obtain ⟨d, hd⟩ := digit_of_isPort hport hmem
      refine hbracket ⟨?_, ?_⟩ <;> rintro rfl <;>
        simp [t.digit_ascii _ (by decide : 91 < 128), t.digit_ascii _ (by decide : 93 < 128),
          Lib.asciiDigit] at hd
  have hinside_ne : inside ≠ [] := by
    rintro rfl
    rw [Unicode.lower_nil] at hhost
    cases hhost
  rw [Egress.plainAddress, htext, strip_brackets hinside_ne
    (not_mem_of_isHost ht hhost (by simp [Unicode.parts]))
    (not_mem_of_isHost ht hhost (by simp [Unicode.parts])) hlast hback_ne] at h
  split at h
  · next a hip =>
    -- the bracket that is left is in the address, as it can only be part of a scope
    have hmem : 93 ∈ a.text :=
      IpAddress.mem_text_of_parse hip (by simp) (by decide) (by decide) (by decide) (by decide)
    rw [Option.some.inj h] at hmem
    exact hclose ((ht.mem_lower_iff (by simp [Unicode.parts])).2 hmem)
  · obtain ⟨hname, -⟩ := Option.ite_none_right_eq_some.1 h
    exact absurd (Egress.nameChar_of_hostname hname 91 List.mem_cons_self) (by decide)

/-- What is checked of a name on port 22. -/
theorem lower_strip_aliasOf (ht : t.Cases) {value : Str} {port : Option Int}
    (hport : port = none ∨ port = some 22) :
    t.lower (t.strip (aliasOf t value port)) = t.lower (t.strip value) := by
  have halias : aliasOf t value port = t.lower value := by
    rcases hport with rfl | rfl
    · rfl
    · rw [aliasOf, if_pos rfl]
  rw [halias, ht.strip_lower, ht.lower_lower]

theorem isPort_decimal {p : Nat} (h : p ≤ 65535) : isPort t (decimal p) = true := by
  refine isPort_iff.2 ⟨fun c hc => ?_, List.length_pos_iff.2 (Lib.decimal_ne_nil p), ?_⟩
  · rw [Unicode.digit_of_decimal hc]
    rfl
  · exact (Lib.length_decimal_le (by decide)).2 (by omega)

/-- And on another one. -/
theorem lower_strip_bracketed (ht : t.Cases) {value : Str} {p : Nat} (hp : p ≤ 65535) :
    t.lower (t.strip (bracketed (t.lower value) (decimal p)))
      = bracketed (t.lower value) (decimal p) := by
  have hdigits : ∀ {c}, c ∈ decimal p → ∃ d, t.digit c = some d :=
    fun hc => digit_of_isPort (isPort_decimal hp) hc
  have hstrip : t.strip (bracketed (t.lower value) (decimal p))
      = bracketed (t.lower value) (decimal p) := by
    rw [Unicode.strip, Lib.Str.strip, bracketed_eq, List.dropWhile_cons_of_neg
      (by simp [t.isSpace_ascii 91 (by decide), Lib.asciiSpace]), List.rdropWhile_eq_self_iff]
    intro hne hlast
    rw [List.getLast_cons (by simp), List.getLast_append_of_ne_nil _ (List.cons_ne_nil _ _),
      List.getLast_cons (List.cons_ne_nil _ _), List.getLast_cons (Lib.decimal_ne_nil p)] at hlast
    obtain ⟨d, hd⟩ := hdigits (List.getLast_mem (Lib.decimal_ne_nil p))
    rw [t.isSpace_of_digit hd] at hlast
    cases hlast
  have hport : t.lower (58 :: decimal p) = 58 :: decimal p := by
    refine Unicode.lower_eq_self fun c hc => ?_
    rcases List.mem_cons.1 hc with rfl | hc
    · exact .inl (by decide)
    · obtain ⟨d, hd⟩ := hdigits hc
      exact .inr (hd ▸ rfl)
  rw [hstrip, bracketed_eq, ← List.nil_append (91 :: _),
    ht.lower_append _ _ _ (by simp [Unicode.parts]), Unicode.lower_nil,
    ht.lower_append _ _ _ (by simp [Unicode.parts]), ht.lower_lower, hport]

/-! ## Names that agree -/

/-- On port 22, or without one. -/
theorem stored_iff_readAlike (ht : t.Cases) {value address : Str}
    (h : Egress.plainAddress t (.str value) = some address) :
    Stored t (t.lower (t.strip value)) (t.lower address) ↔ ReadAlike t (t.strip value) := by
  constructor
  · intro hstored
    generalize hname : t.lower address = name at hstored
    generalize htext : t.lower (t.strip value) = text at hstored
    cases hstored with
    | plain hhost =>
      exact readAlike_of_address ht h (htext.trans hname.symm) (htext ▸ hhost)
    | port22 hhost hport _ =>
      rw [← hname] at hhost htext
      exact absurd htext (not_bracketed ht h hhost hport)
    | bracketed _ _ _ _ _ _ =>
      rw [bracketed_eq] at hname
      exact absurd hname (address_head ht h)
  · intro halike
    obtain ⟨address', haddress, hlower, hhost⟩ := halike.address_eq ht
    obtain rfl := Option.some.inj (h.symm.trans haddress)
    rw [hlower]
    exact .plain hhost

/-- On another port the text of the address is in brackets, with all that is around it. -/
theorem stored_bracketed_iff (ht : t.Cases) {value address : Str} {p : Nat}
    (h : Egress.plainAddress t (.str value) = some address) (hlo : 1 ≤ p) (hhi : p ≤ 65535)
    (hne : p ≠ 22) :
    Stored t (bracketed (t.lower value) (decimal p)) (bracketed (t.lower address) (decimal p)) ↔
      t.strip value = value ∧ ReadAlike t (t.strip value) := by
  have hcolon := colon_not_mem_decimal p
  constructor
  · intro hstored
    generalize hname : bracketed (t.lower address) (decimal p) = name at hstored
    generalize htext : bracketed (t.lower value) (decimal p) = text at hstored
    cases hstored with
    | plain hhost => simp [← hname, isHost_bracketed] at hhost
    | port22 hhost _ _ => simp [← hname, isHost_bracketed] at hhost
    | @bracketed host port _ hhost hport _ _ _ _ =>
      obtain ⟨hvalue, -⟩ := bracketed_inj hcolon (colon_not_mem_port hport) htext
      obtain ⟨haddress, -⟩ := bracketed_inj hcolon (colon_not_mem_port hport) hname
      rw [← hvalue] at hhost
      have hbare : t.strip value = value := Lib.Str.strip_eq_self fun c hc => by
        by_contra hspace
        rw [Bool.not_eq_false] at hspace
        exact not_mem_of_isHost ht hhost (by simp [Unicode.parts, hspace]) hc
      refine ⟨hbare, readAlike_of_address ht h ?_ (by rwa [hbare])⟩
      rw [hbare, hvalue, haddress]
  · rintro ⟨hbare, halike⟩
    obtain ⟨address', haddress, hlower, hhost⟩ := halike.address_eq ht
    obtain rfl := Option.some.inj (h.symm.trans haddress)
    rw [hbare] at hlower hhost
    rw [hlower]
    have hdecimal : (decimal p).length ≤ Unicode.maxStrDigits :=
      (isPort_iff.1 (isPort_decimal (t := t) hhi)).2.2.trans (by decide)
    exact .bracketed hhost (isPort_decimal hhi) (Unicode.int?_decimal hdecimal) hlo hhi hne

/-- The name of an address that the allowlist opens is the one of its text. -/
theorem normaliseName_iff (ht : t.Cases) {value address : Str} {port : Option Int}
    (hrange : ∀ n, port = some n → 1 ≤ n ∧ n ≤ 65535)
    (h : Egress.plainAddress t (.str value) = some address) :
    normaliseName t (aliasOf t value port) = some (aliasOf t address port) ↔
      (t.strip value = value ∨ port = none ∨ port = some 22) ∧ ReadAlike t (t.strip value) ∧
        (aliasOf t (t.strip value) port).length ≤ maxName := by
  rw [normaliseName_eq_some]
  by_cases hport : port = none ∨ port = some 22
  · have halias : ∀ text, aliasOf t text port = t.lower text := by
      intro text
      rcases hport with rfl | rfl
      · rfl
      · rw [aliasOf, if_pos rfl]
    rw [lower_strip_aliasOf ht hport, halias, halias, stored_iff_readAlike ht h]
    constructor
    · rintro ⟨hfits, halike⟩
      exact ⟨.inr hport, halike, hfits⟩
    · rintro ⟨-, halike, hfits⟩
      exact ⟨hfits, halike⟩
  · rw [not_or] at hport
    obtain ⟨n, rfl⟩ := Option.ne_none_iff_exists'.1 hport.1
    obtain ⟨hlo, hhi⟩ := hrange n rfl
    obtain ⟨p, rfl⟩ := Int.eq_ofNat_of_zero_le (show 0 ≤ n by omega)
    have hne : p ≠ 22 := by
      rintro rfl
      exact hport.2 rfl
    have halias : ∀ text, aliasOf t text (some (p : Int)) =
        bracketed (t.lower text) (decimal p) := by
      intro text
      rw [aliasOf, if_neg (by omega)]
      rfl
    rw [halias, halias, halias, lower_strip_bracketed ht (by omega),
      stored_bracketed_iff ht h (by omega) (by omega) hne]
    constructor
    · rintro ⟨hfits, hbare, halike⟩
      exact ⟨.inl hbare, halike, by rwa [hbare]⟩
    · rintro ⟨hbare | hnone | h22, halike, hfits⟩
      · exact ⟨by rwa [hbare] at hfits, hbare, halike⟩
      · cases hnone
      · exact absurd h22 hport.2

theorem untemplated_egress {value : Json} (h : templated templateMarks value = false) :
    templated Egress.templateMarks value = false := by
  cases value with
  | str s =>
    simp only [templated, templateMarks, Egress.templateMarks, List.map_cons, List.map_nil,
      List.any_cons, List.any_nil, Bool.or_false, Bool.or_eq_false_iff] at h ⊢
    exact ⟨h.1, h.2.1⟩
  | _ => rfl

/-- A plugin that runs ssh is one the allowlist knows the variables of. -/
theorem ssh_cases {connection : Str} (h : Egress.sshConnections.contains connection = true) :
    templated templateMarks (.str connection) = false ∧
      Egress.localConnections.contains connection = false ∧
      Egress.addressVars connection = some hostVars := by
  simp only [Egress.sshConnections, List.map_cons, List.map_nil, List.contains_eq_mem,
    List.mem_cons, List.not_mem_nil, or_false, decide_eq_true_eq] at h
  rcases h with rfl | rfl | rfl
  · decide +kernel
  · decide +kernel
  · decide +kernel

theorem egressTarget_address {host connection : Str} {vars : Vars}
    (hconnection : HostVars.connection vars = .str connection)
    (hssh : Egress.sshConnections.contains connection = true)
    (hplain : Untemplated host vars) :
    (Egress.egressTarget t host vars).address = Egress.plainAddress t (givenAddress host vars) := by
  obtain ⟨htemplate, hlocal, hvars⟩ := ssh_cases hssh
  have hvalue := untemplated_egress hplain.1
  rw [givenAddress] at hvalue
  simp only [Egress.egressTarget, hconnection, untemplated_egress htemplate, hlocal, hvars, hvalue,
    givenAddress, Bool.false_eq_true, if_false]
  split
  · rename_i hnone
    exact hnone.symm
  · rename_i hsome
    exact hsome.symm

theorem addressOf_eq {host connection : Str} {vars : Vars}
    (hconnection : HostVars.connection vars = .str connection)
    (hssh : Egress.sshConnections.contains connection = true)
    (hplain : Untemplated host vars) {name : Str} :
    addressOf t host vars = ⟨some name, str "ssh", true, none⟩ ↔
      connection ∈ sshConnections ∧ ∃ port value,
        setPort t (lastSet vars portVars none) = some port ∧ givenAddress host vars = .str value ∧
          normaliseName t (aliasOf t value port) = some name := by
  have hport : (lastSet vars portVars none).any (templated templateMarks) = false := by
    cases hset : lastSet vars portVars none with
    | none => rfl
    | some port => exact hplain.2 port (by simp [hset])
  have htemplated := hplain.1
  rw [givenAddress] at htemplated
  rw [addressOf, hconnection]
  simp only [(ssh_cases hssh).1, htemplated, hport, Bool.false_eq_true, Bool.or_self, if_false,
    givenAddress]
  generalize (lastSet vars hostVars none).getD (.str host) = address
  by_cases hplugin : connection ∈ sshConnections
  · simp only [List.contains_eq_mem, hplugin, decide_true, Bool.not_true, Bool.false_eq_true,
      if_false, true_and]
    cases setPort t (lastSet vars portVars none) with
    | none => simp
    | some port =>
      cases address with
      | str value =>
        cases hname : normaliseName t (aliasOf t value port) with
        | none => simp [hname]
        | some found => simp [hname]
      | _ => simp
  · simp [hplugin]

/-- For a host that the allowlist connects to with ssh, at an address and a port without templates:
`address_of` gives the name of what the egress target opens exactly when these are written plainly.
-/
theorem sameAddress_iff (t : Unicode) (ht : t.Cases) (host : Str) (vars : Vars)
    (hssh : Egress.runsSsh vars = true) (hplain : Untemplated host vars) :
    SameAddress t host vars ↔ ∃ value port, WrittenPlainly t host vars value port := by
  rw [Egress.runsSsh] at hssh
  cases hconnection : HostVars.connection vars with
  | str connection =>
    simp only [hconnection] at hssh
    rw [SameAddress, egressTarget_address hconnection hssh hplain]
    constructor
    · rintro ⟨address, port, haddress, hport, hname⟩
      obtain ⟨hplugin, port', value, hport', hvalue, hnormal⟩ :=
        (addressOf_eq hconnection hssh hplain).1 hname
      rw [setPort_iff.2 hport, Option.some.injEq] at hport'
      subst hport'
      rw [hvalue] at haddress
      have hrange : ∀ n, port = some n → 1 ≤ n ∧ n ≤ 65535 := by
        rintro n rfl
        exact hport.range
      obtain ⟨hbare, halike, hfits⟩ := (normaliseName_iff ht hrange haddress).1 hnormal
      exact ⟨value, port, ⟨connection, hplugin, hconnection⟩, hport, hvalue, hbare, halike, hfits⟩
    · rintro ⟨value, port, ⟨connection', hplugin, hconnects⟩, hport, hvalue, hbare, halike, hfits⟩
      rw [hconnection, Json.str.injEq] at hconnects
      subst hconnects
      obtain ⟨address, haddress, -⟩ := halike.address_eq ht
      have hrange : ∀ n, port = some n → 1 ≤ n ∧ n ≤ 65535 := by
        rintro n rfl
        exact hport.range
      refine ⟨address, port, hvalue ▸ haddress, hport,
        (addressOf_eq hconnection hssh hplain).2
        ⟨hplugin, port, value, setPort_iff.2 hport, hvalue, ?_⟩⟩
      exact (normaliseName_iff ht hrange haddress).2 ⟨hbare, halike, hfits⟩
  | _ => simp [hconnection] at hssh

theorem sameAddress_web1 :
    let vars : Vars := .ofList [(str "ansible_host", .str (str "10.0.0.5")),
      (str "ansible_port", .int 2222)]
    SameAddress .ascii (str "web1") vars ↔
      ∃ value port, WrittenPlainly .ascii (str "web1") vars value port :=
  sameAddress_iff .ascii Unicode.cases_ascii (str "web1") _ (by decide +kernel) (by decide +kernel)

/-- The plugin's full name runs ssh too, and the host's keys are not checked. -/
theorem not_sameAddress : ¬ ∀ (t : Unicode) (host : Str) (vars : Vars),
    Egress.runsSsh vars = true → Untemplated host vars → SameAddress t host vars := by
  intro h
  obtain ⟨address, port, -, -, hname⟩ := h .ascii (str "web1")
    (.ofList [(str "ansible_connection", .str (str "ansible.builtin.ssh"))])
    (by decide +kernel) (by decide +kernel)
  have hchecked : (addressOf .ascii (str "web1")
      (.ofList [(str "ansible_connection", .str (str "ansible.builtin.ssh"))])).checked =
        false := by
    decide +kernel
  rw [hname] at hchecked
  exact absurd hchecked (by simp)

end HostKeys

end AnsiDeck
