import AnsiDeck.Egress.Allowlist
import AnsiDeck.Egress.Firewall
import AnsiDeck.Egress.Ports
import AnsiDeck.Lib.IpNetwork

/-!
# Extra entries

`app.egress_allowlist.parse_extra`: a target that the runs of an inventory may also reach, as it is
stored, and what the worker makes of it (`_target_network`). What is refused is looked for in the
target as it was typed, and a name loses its last dot only after that: see `parseExtra_iff`.
-/

namespace AnsiDeck

namespace Egress

open Lib (IpAddress IpNetwork Network Range Str str Unicode lowerAscii)

/-! ## The networks that are refused -/

def metadataNetworks : List IpNetwork :=
  (["169.254.0.0/16", "100.100.100.200/32", "fd00:ec2::254/128", "fd00:ec2::23/128",
    "fd20:ce::254/128", "fd00:c1::a9fe:a9fe/128", "64:ff9b::a9fe:0/112",
    "64:ff9b::6464:64c8/128"].map str).filterMap IpNetwork.parse

def alwaysBlocked : List IpNetwork := ([str "fe80::/10"]).filterMap IpNetwork.parse

def blockedNetworks : List IpNetwork := metadataNetworks ++ alwaysBlocked

/-- Every text of the two lists is a network. -/
example : blockedNetworks.length = 9 := by decide

/-! ## Reading a target -/

/-- An IPv4-mapped IPv6 network as the IPv4 network it is. -/
def unmap (n : IpNetwork) : IpNetwork :=
  if n.network.family = .v6 ∧ 96 ≤ n.network.length ∧ n.network.first / 2 ^ 32 = 0xffff then
    { network := unmapped n.network }
  else n

/-- `_network`, `none` where the text isn't an address or a network. -/
def network (s : Str) : Option IpNetwork := (IpNetwork.parse s).map unmap

/-- The worker's `_target_network`. -/
def targetNetwork (target : Str) : Option IpNetwork := (IpNetwork.parse target).map unmap

def maxNote : Nat := 200

/-- `ValueError`, with what it names. -/
inductive ExtraError
  /-- An address, a network (CIDR) or a host name is required. -/
  | required
  /-- That's every address: turn the restriction off instead. -/
  | everyAddress
  /-- Is always blocked for runs. -/
  | blocked (network : Str)
  /-- Isn't an address, a network or a host name. -/
  | notTarget (target : Str)
  | notPorts (error : PortsError)
  /-- A note is text of at most 200 characters. -/
  | note
  deriving DecidableEq, Repr

/-- An extra entry as stored. -/
structure Extra where
  target : Str
  ports : Option (List Range)
  note : Option Str
  deriving DecidableEq, Repr

/-- Whether a network is always blocked for runs. -/
def refused (n : IpNetwork) : Bool :=
  blockedNetworks.any fun b => n.network.family = b.network.family && n.subnetOf b

section

variable (t : Unicode)

/-- The target as stored, of a text without white space around it. -/
def parseTarget (target : Str) : Except ExtraError Str :=
  match network target with
  | some n =>
    if n.network.length = 0 then .error .everyAddress
    else if refused n then .error (.blocked n.text)
    else .ok n.stored
  | none =>
    if target.contains 42 || !isHostname target then .error (.notTarget target)
    else .ok ((t.lower target).rdropWhile (· = 46))

/-- The ports as stored, `none` for any. -/
def extraPorts : Option Str → Except ExtraError (Option (List Range))
  | none => .ok none
  | some ports =>
    if [[], str "any", str "*"].contains (t.strip ports) then .ok none
    else match parsePorts t ports with
    | .ok ranges => .ok (some ranges)
    | .error e => .error (.notPorts e)

def extraNote : Option Str → Except ExtraError (Option Str)
  | none => .ok none
  | some note =>
    if maxNote < note.length then .error .note
    else .ok (if t.strip note = [] then none else some (t.strip note))

def parseExtra (target : Str) (ports note : Option Str) : Except ExtraError Extra :=
  if t.strip target = [] then .error .required
  else do
    let target ← parseTarget t (t.strip target)
    let ports ← extraPorts t ports
    let note ← extraNote t note
    pure { target, ports, note }

/-! ## Stored as what it is -/

/-- Every address of one network is one of the other. -/
def Inside (n m : IpNetwork) : Prop :=
  n.network.family = m.network.family ∧ ∀ a, n.network.Mem a → m.network.Mem a

/-- The stored target gives itself again, and no network that the worker reads it as is refused. -/
structure StoredAsIs (extra : Extra) (ports note : Option Str) : Prop where
  again : parseExtra t extra.target ports note = .ok extra
  allowed : ∀ n, targetNetwork extra.target = some n →
    (∀ b ∈ blockedNetworks, ¬ Inside n b) ∧ n.network.length ≠ 0

/-- The network that a target is, with the dot at its end or without. -/
def readAs (target : Str) : Option IpNetwork :=
  (network target).or (network (target.rdropWhile (· = 46)))

/-- It isn't inside of a blocked network, its scope aside, and a scope with which its text ends does
not end with white space. -/
def Plain (target : Str) : Prop :=
  ∀ n, readAs target = some n → (∀ b ∈ blockedNetworks, ¬ Inside n b) ∧
    (n.Single → ∀ scope ∈ n.scope, ∀ c ∈ scope.getLast?, t.isSpace c = false)

end

/-! ## Networks -/

theorem unmap_unmap (n : IpNetwork) : unmap (unmap n) = unmap n := by
  by_cases h : n.network.family = .v6 ∧ 96 ≤ n.network.length ∧ n.network.first / 2 ^ 32 = 0xffff
  · have hv4 : (unmap n).network.family = .v4 := by
      rw [unmap, if_pos h]
      simp only [unmapped, dif_pos h]
    rw [unmap, if_neg (fun hmapped => by rw [hv4] at hmapped; cases hmapped.1)]
  · have hsame : unmap n = n := if_neg h
    rw [hsame, hsame]

theorem valid_unmap {n : IpNetwork} (h : n.Valid) : (unmap n).Valid := by
  rw [unmap]
  split
  · exact ⟨fun scope hscope => by cases hscope⟩
  · exact h

theorem network_stored {s : Str} {n : IpNetwork} (h : network s = some n) :
    n.Valid ∧ network n.stored = some n := by
  obtain ⟨read, hread, rfl⟩ := Option.map_eq_some_iff.1 h
  have hvalid := valid_unmap (IpNetwork.valid_of_parse hread)
  refine ⟨hvalid, ?_⟩
  rw [network, IpNetwork.parse_stored hvalid, Option.map_some, unmap_unmap]

theorem inside_of_subnetOf {n m : IpNetwork} (hf : n.network.family = m.network.family)
    (h : n.subnetOf m = true) : Inside n m := by
  simp only [IpNetwork.subnetOf, Bool.and_eq_true, Bool.or_eq_true, decide_eq_true_eq] at h
  obtain ⟨hfirst, hlast⟩ := h
  refine ⟨hf, fun a ha => ⟨?_, ha.2.trans hlast⟩⟩
  rcases hfirst with hlt | ⟨heq, -⟩
  · exact (Nat.le_of_lt hlt).trans ha.1
  · exact heq ▸ ha.1

theorem not_refused {n : IpNetwork} (h : ∀ b ∈ blockedNetworks, ¬ Inside n b) :
    refused n = false := by
  rw [refused, List.any_eq_false]
  intro b hb hrefused
  rw [Bool.and_eq_true, decide_eq_true_eq] at hrefused
  exact h b hb (inside_of_subnetOf hrefused.1 hrefused.2)

/-! ## White space around a stored target -/

variable {t : Unicode}

theorem strip_of_ends {p : Nat → Bool} {s : Str} (hhead : ∀ c ∈ s.head?, p c = false)
    (hlast : ∀ c ∈ s.getLast?, p c = false) : Str.strip p s = s := by
  have hdrop : s.dropWhile p = s := by
    rw [List.dropWhile_eq_self_iff]
    intro hpos
    simp [hhead _ (List.head?_eq_getElem? ▸ List.getElem?_eq_getElem hpos)]
  rw [Str.strip, hdrop, List.rdropWhile_eq_self_iff]
  intro hne
  simp [hlast _ (List.getLast?_eq_some_getLast hne)]

theorem last_of_strip {p : Nat → Bool} {s : Str} {c : Nat}
    (h : c ∈ (Str.strip p s).getLast?) : p c = false := by
  obtain ⟨hne, rfl⟩ := List.mem_getLast?_eq_getLast h
  exact Bool.eq_false_iff.2 (List.rdropWhile_last_not p _ hne)

theorem not_space_of_word {c : Nat} (hc : (IpAddress.hexValue c).isSome = true ∨ c = 58 ∨ c = 46) :
    t.isSpace c = false := by
  have hrange : 46 ≤ c ∧ c < 128 := by
    rcases hc with hc | rfl | rfl
    · unfold IpAddress.hexValue at hc
      split at hc
      · omega
      · split at hc
        · omega
        · split at hc
          · omega
          · cases hc
    · decide
    · decide
  rw [t.isSpace_ascii c hrange.2]
  simp only [Lib.asciiSpace, Bool.or_eq_false_iff, Bool.and_eq_false_iff, decide_eq_false_iff_not]
  omega

/-- The text of an address without its scope. -/
def body (n : IpNetwork) : Str :=
  match n.network.family with
  | .v4 => IpAddress.v4Text n.network.first
  | .v6 => IpAddress.v6Text n.network.first

theorem not_space_of_body {n : IpNetwork} {c : Nat} (hc : c ∈ body n) : t.isSpace c = false := by
  apply not_space_of_word (t := t)
  unfold body at hc
  split at hc
  · by_cases hdot : c = 46
    · exact .inr (.inr hdot)
    · refine .inl ?_
      have hdigit : 48 ≤ c ∧ c ≤ 57 := by
        apply Classical.byContradiction
        intro hdigit
        exact IpAddress.not_mem_v4Text hdigit hdot hc
      simp [IpAddress.hexValue, hdigit]
  · by_cases hcolon : c = 58
    · exact .inr (.inl hcolon)
    · refine .inl ?_
      cases hvalue : IpAddress.hexValue c with
      | some value => rfl
      | none => exact absurd hc (IpAddress.not_mem_v6Text hvalue hcolon)

theorem body_ne_nil (n : IpNetwork) : body n ≠ [] := by
  unfold body
  split
  · intro hnil
    have := IpAddress.splitOn_v4Text n.network.first
    rw [hnil] at this
    have := congrArg List.length this
    simp at this
  · exact List.ne_nil_of_mem (IpAddress.colon_mem_v6Text n.network.first)

theorem address_text {n : IpNetwork} (h : n.Valid) :
    n.address.text = body n ++ match n.scope with
      | none => []
      | some scope => str "%" ++ scope := by
  obtain ⟨⟨family, length, index, hle, hlt⟩, scope⟩ := n
  cases family with
  | v4 =>
    cases scope with
    | none => exact (List.append_nil _).symm
    | some scope => cases (h.scope scope rfl).1
  | v6 =>
    cases scope with
    | none => exact (List.append_nil _).symm
    | some scope => exact List.append_assoc ..

theorem stored_ne_nil {n : IpNetwork} (h : n.Valid) : n.stored ≠ [] := by
  rw [IpNetwork.stored]
  split
  · rw [address_text h]
    exact List.append_ne_nil_of_left_ne_nil (body_ne_nil n) _
  · simp [IpNetwork.text, str]

theorem strip_stored {n : IpNetwork} (h : n.Valid)
    (hscope : n.Single → ∀ scope ∈ n.scope, ∀ c ∈ scope.getLast?, t.isSpace c = false) :
    t.strip n.stored = n.stored := by
  have htext := address_text h
  have hhead : ∀ rest, ∀ c ∈ (body n ++ rest).head?, t.isSpace c = false := by
    intro rest c hc
    rw [List.head?_append_of_ne_nil _ (body_ne_nil n)] at hc
    exact not_space_of_body (List.mem_of_head? hc)
  rw [IpNetwork.stored]
  split
  · next hsingle =>
    rw [htext]
    refine strip_of_ends (hhead _) fun c hc => ?_
    cases hs : n.scope with
    | none =>
      rw [hs, List.append_nil] at hc
      exact not_space_of_body (List.mem_of_getLast? hc)
    | some scope =>
      have hne := (h.scope scope hs).2.1
      rw [hs, List.getLast?_append_of_ne_nil _ (by simp [str]),
        List.getLast?_append_of_ne_nil _ hne] at hc
      exact hscope hsingle scope hs c hc
  · rw [IpNetwork.text, htext, List.append_assoc, List.append_assoc]
    refine strip_of_ends (hhead _) fun c hc => ?_
    rw [← List.append_assoc, ← List.append_assoc,
      List.getLast?_append_of_ne_nil _ (Lib.decimal_ne_nil _)] at hc
    have hdigit := Lib.digit_of_mem_decimal (List.mem_of_getLast? hc)
    apply not_space_of_word (t := t)
    refine .inl ?_
    simp [IpAddress.hexValue, hdigit]

/-- A text that is stored as itself doesn't end with the white space of its scope. -/
theorem scope_ends {s : Str} {n : IpNetwork} (h : network (t.strip s) = some n)
    (hstored : n.stored = s) (hsingle : n.Single) :
    ∀ scope ∈ n.scope, ∀ c ∈ scope.getLast?, t.isSpace c = false := by
  intro scope hscope c hc
  obtain ⟨read, hread, hunmap⟩ := Option.map_eq_some_iff.1 h
  have hvalid := (network_stored h).1
  have hsame : read = n := by
    rw [unmap] at hunmap
    split at hunmap
    · rw [← hunmap] at hscope
      cases hscope
    · exact hunmap
  rw [hsame] at hread
  have hslash : 47 ∉ t.strip s := by
    intro hmem
    have hmem : 47 ∈ s := (List.dropWhile_sublist _).subset
      ((List.rdropWhile_prefix _ _).subset hmem)
    rw [← hstored, IpNetwork.stored, if_pos hsingle] at hmem
    exact IpNetwork.slash_not_mem_text hvalid.address hmem
  have hsuffix := (IpNetwork.single_of_parse hslash hread).2 scope hscope
  obtain ⟨before, hbefore⟩ := hsuffix
  have hne := (hvalid.scope scope hscope).2.1
  refine last_of_strip (p := t.isSpace) (s := s) ?_
  show c ∈ (t.strip s).getLast?
  rw [← hbefore, List.getLast?_append_of_ne_nil _ hne]
  exact hc

/-! ## Names -/

/-- What a host name is made of. -/
def nameChar (c : Nat) : Bool := labelStart c || c = 45 || c = 46

theorem chars_of_label {l : Str} (h : isLabel l = true) :
    l ≠ [] ∧ ∀ c ∈ l, labelStart c = true ∨ c = 45 := by
  cases l with
  | nil => cases h
  | cons first rest =>
    simp only [isLabel, Bool.and_eq_true, List.all_eq_true, Bool.or_eq_true,
      decide_eq_true_eq] at h
    refine ⟨List.cons_ne_nil _ _, fun c hc => ?_⟩
    rcases List.mem_cons.1 hc with rfl | hc
    · exact .inl h.1.1
    · exact h.1.2 c hc

/-- A host name without its last dot is labels between dots. -/
theorem labels_of_hostname {s : Str} (h : isHostname s = true) :
    s.length ≤ 253 ∧ s.rdropWhile (· = 46) ≠ [] ∧ (s.rdropWhile (· = 46)).getLast? ≠ some 46 ∧
      (∀ l ∈ (s.rdropWhile (· = 46)).splitOn 46, isLabel l = true) ∧
      ∀ c ∈ s, c = 46 ∨ c ∈ s.rdropWhile (· = 46) := by
  simp only [isHostname, Bool.and_eq_true, decide_eq_true_eq, List.all_eq_true] at h
  obtain ⟨⟨-, hlen⟩, hlabels⟩ := h
  have hends : ∀ x : Str, (∀ l ∈ x.splitOn 46, isLabel l = true) → x ≠ [] ∧
      x.getLast? ≠ some 46 := by
    intro x hx
    refine ⟨?_, fun hlast => ?_⟩
    · rintro rfl
      exact absurd (hx [] (by simp)) (by decide)
    · obtain ⟨y, rfl⟩ := List.getLast?_eq_some_iff.1 hlast
      rw [List.splitOn_append_cons_self] at hx
      exact absurd (hx [] (by simp)) (by decide)
  have hself : ∀ x : Str, x.getLast? ≠ some 46 → x.rdropWhile (· = 46) = x := by
    intro x hx
    rw [List.rdropWhile_eq_self_iff]
    intro hne hdot
    rw [List.getLast?_eq_some_getLast hne] at hx
    exact hx (by simpa using hdot)
  split at hlabels
  · next hlast =>
    obtain ⟨x, rfl⟩ := List.getLast?_eq_some_iff.1 hlast
    rw [List.dropLast_concat] at hlabels
    have hx := hends x hlabels
    rw [List.rdropWhile_concat_pos _ _ _ (by decide), hself x hx.2]
    refine ⟨hlen, hx.1, hx.2, hlabels, fun c hc => ?_⟩
    rcases List.mem_append.1 hc with hc | hc
    · exact .inr hc
    · exact .inl (List.mem_singleton.1 hc)
  · have hx := hends s hlabels
    rw [hself s hx.2]
    exact ⟨hlen, hx.1, hx.2, hlabels, fun c hc => .inr hc⟩

theorem nameChar_of_hostname {s : Str} (h : isHostname s = true) : ∀ c ∈ s, nameChar c = true := by
  intro c hc
  obtain ⟨-, -, -, hlabels, hchars⟩ := labels_of_hostname h
  simp only [nameChar, Bool.or_eq_true, decide_eq_true_eq]
  rcases hchars c hc with rfl | hc
  · exact .inr rfl
  · have hjoined : [46].intercalate ((s.rdropWhile (· = 46)).splitOn 46) = s.rdropWhile (· = 46) :=
      List.intercalate_splitOn 46
    rw [← hjoined] at hc
    rcases Lib.mem_intercalate hc with hc | ⟨l, hl, hc⟩
    · exact .inr (List.mem_singleton.1 hc)
    · exact .inl ((chars_of_label (hlabels l hl)).2 c hc)

theorem splitOn_map {f : Nat → Nat} {b : Nat} (hf : ∀ c, f c = b ↔ c = b) (s : Str) :
    (s.map f).splitOn b = (s.splitOn b).map (List.map f) := by
  induction s with
  | nil => rfl
  | cons c s ih =>
    rw [List.map_cons, List.splitOn_cons_eq_if_modifyHead, List.splitOn_cons_eq_if_modifyHead, ih]
    by_cases hc : c = b
    · simp [hc, (hf b).2 rfl]
    · have hfc : f c ≠ b := fun h => hc ((hf c).1 h)
      simp only [beq_iff_eq, if_neg hc, if_neg hfc]
      cases s.splitOn b <;> rfl

theorem lowerAscii_dot (c : Nat) : lowerAscii c = 46 ↔ c = 46 := by
  simp only [lowerAscii, Bool.and_eq_true, decide_eq_true_eq]
  split <;> omega

theorem nameChar_lowerAscii {c : Nat} (h : nameChar c = true) :
    lowerAscii c < 128 ∧ lowerAscii (lowerAscii c) = lowerAscii c ∧ 42 < lowerAscii c := by
  simp only [nameChar, labelStart, lowerAscii, Bool.or_eq_true, Bool.and_eq_true,
    decide_eq_true_eq] at h ⊢
  split
  · refine ⟨?_, ?_, ?_⟩
    · omega
    · rw [if_neg]
      omega
    · omega
  · refine ⟨by omega, rfl, by omega⟩

theorem labelStart_lowerAscii {c : Nat} (h : labelStart c = true) :
    labelStart (lowerAscii c) = true := by
  simp only [labelStart, lowerAscii, Bool.or_eq_true, Bool.and_eq_true, decide_eq_true_eq] at h ⊢
  split <;> omega

theorem isLabel_lowerAscii {l : Str} (h : isLabel l = true) :
    isLabel (l.map lowerAscii) = true := by
  cases l with
  | nil => cases h
  | cons first rest =>
    simp only [isLabel, List.map_cons, List.length_map, Bool.and_eq_true, List.all_eq_true,
      Bool.or_eq_true, decide_eq_true_eq] at h ⊢
    refine ⟨⟨labelStart_lowerAscii h.1.1, fun c hc => ?_⟩, h.2⟩
    obtain ⟨d, hd, rfl⟩ := List.mem_map.1 hc
    rcases h.1.2 d hd with hstart | rfl
    · exact .inl (labelStart_lowerAscii hstart)
    · exact .inr rfl

/-- A host name as it is stored. -/
theorem lower_hostname {s : Str} (h : isHostname s = true) :
    (t.lower s).rdropWhile (· = 46) = (s.rdropWhile (· = 46)).map lowerAscii := by
  have hplain : ∀ c ∈ s, c < 128 ∨ (t.digit c).isSome = true ∨ t.isSpace c = true := by
    intro c hc
    have hname := nameChar_of_hostname h c hc
    simp only [nameChar, labelStart, Bool.or_eq_true, Bool.and_eq_true, decide_eq_true_eq] at hname
    exact .inl (by omega)
  have hdot : ((fun c : Nat => decide (c = 46)) ∘ lowerAscii) = fun c => decide (c = 46) := by
    funext c
    exact decide_eq_decide.2 (lowerAscii_dot c)
  rw [t.lower_plain hplain, List.rdropWhile, List.rdropWhile, ← List.map_reverse,
    List.dropWhile_map, hdot, ← List.map_reverse]

/-- The stored name is a host name, and no text that `lower`, `rstrip` or `strip` changes. -/
theorem stored_hostname {s : Str} (h : isHostname s = true) :
    isHostname ((s.rdropWhile (· = 46)).map lowerAscii) = true ∧
      (t.lower ((s.rdropWhile (· = 46)).map lowerAscii)).rdropWhile (· = 46)
        = (s.rdropWhile (· = 46)).map lowerAscii ∧
      t.strip ((s.rdropWhile (· = 46)).map lowerAscii) = (s.rdropWhile (· = 46)).map lowerAscii ∧
      ((s.rdropWhile (· = 46)).map lowerAscii).contains 42 = false := by
  obtain ⟨hlen, hne, hlast, hlabels, -⟩ := labels_of_hostname h
  have hname : ∀ c ∈ s.rdropWhile (· = 46), nameChar c = true := fun c hc =>
    nameChar_of_hostname h c ((List.rdropWhile_prefix _ _).subset hc)
  have hshort := (List.rdropWhile_prefix (fun c : Nat => decide (c = 46)) s).length_le
  generalize s.rdropWhile (· = 46) = x at *
  have hchars : ∀ c ∈ x.map lowerAscii, c < 128 ∧ lowerAscii c = c ∧ 42 < c := by
    intro c hc
    obtain ⟨d, hd, rfl⟩ := List.mem_map.1 hc
    exact nameChar_lowerAscii (hname d hd)
  have hlast' : (x.map lowerAscii).getLast? ≠ some 46 := by
    rw [List.getLast?_map]
    intro hdot
    obtain ⟨c, hc, hdot⟩ := Option.map_eq_some_iff.1 hdot
    exact hlast ((lowerAscii_dot c).1 hdot ▸ hc)
  refine ⟨?_, ?_, ?_, ?_⟩
  · simp only [isHostname, Bool.and_eq_true, decide_eq_true_eq, List.all_eq_true, List.length_map,
      if_neg hlast']
    refine ⟨⟨List.length_pos_iff.2 hne, by omega⟩, fun l hl => ?_⟩
    rw [splitOn_map lowerAscii_dot] at hl
    obtain ⟨label, hlabel, rfl⟩ := List.mem_map.1 hl
    exact isLabel_lowerAscii (hlabels label hlabel)
  · rw [Unicode.lower_eq_self fun c hc => .inl ⟨(hchars c hc).1, (hchars c hc).2.1⟩,
      List.rdropWhile_eq_self_iff]
    intro hne' hdot
    rw [List.getLast?_eq_some_getLast hne'] at hlast'
    exact hlast' (by simpa using hdot)
  · refine Str.strip_eq_self fun c hc => ?_
    obtain ⟨hascii, -, hprint⟩ := hchars c hc
    rw [t.isSpace_ascii c hascii]
    simp only [Lib.asciiSpace, Bool.or_eq_false_iff, Bool.and_eq_false_iff, decide_eq_false_iff_not]
    omega
  · rw [List.contains_eq_mem, decide_eq_false_iff_not]
    intro hmem
    exact absurd (hchars 42 hmem).2.2 (by decide)

/-! ## Names that are addresses -/

theorem parse_name {s : Str} (h : ∀ c ∈ s, nameChar c = true) :
    IpNetwork.parse s = (IpAddress.v4 s).bind fun a =>
      IpNetwork.ofAddress { family := .v4, value := a } 32 := by
  have hother : ∀ c, nameChar c = false → c ∉ s := by
    intro c hc hmem
    rw [h c hmem] at hc
    cases hc
  have hcontains : s.contains 47 = false := by
    rw [List.contains_eq_mem, decide_eq_false_iff_not]
    exact hother 47 (by decide)
  have hpartition : Str.partition (str "%") s = none :=
    Str.partition_of_not_mem (hother 37 (by decide))
  have hv6 : IpAddress.v6 s = none := by
    rw [IpAddress.v6_eq, List.splitOn_eq_singleton (hother 58 (by decide))]
    rfl
  rw [IpNetwork.parse, List.splitOn_eq_singleton (hother 47 (by decide))]
  dsimp only
  rw [IpAddress.parse]
  cases hv4 : IpAddress.v4 s with
  | some a => rfl
  | none =>
    dsimp only
    rw [hcontains, hpartition]
    dsimp only
    rw [hv6]
    rfl

theorem octetChar_of_v4 {s : Str} {value : Nat} (h : IpAddress.v4 s = some value) {c : Nat}
    (hc : c ∈ s) : 48 ≤ c ∧ c ≤ 57 ∨ c = 46 := by
  rw [(IpAddress.v4_eq_some h).1] at hc
  by_cases hdot : c = 46
  · exact .inr hdot
  · refine .inl ?_
    apply Classical.byContradiction
    intro hdigit
    exact IpAddress.not_mem_v4Text hdigit hdot hc

/-- No letter is in an IPv4 address, in either case. -/
theorem v4_lowerAscii (s : Str) : IpAddress.v4 (s.map lowerAscii) = IpAddress.v4 s := by
  have hsame : (∀ c ∈ s, 48 ≤ lowerAscii c ∧ lowerAscii c ≤ 57 ∨ lowerAscii c = 46) →
      s.map lowerAscii = s := by
    intro h
    refine (List.map_congr_left fun c hc => ?_).trans (List.map_id s)
    have := h c hc
    simp only [lowerAscii, Bool.and_eq_true, decide_eq_true_eq, id_eq] at this ⊢
    split
    · next hupper =>
      rw [if_pos hupper] at this
      omega
    · rfl
  refine Option.ext fun value => ⟨fun h => ?_, fun h => ?_⟩
  · rw [← hsame fun c hc => octetChar_of_v4 h (List.mem_map_of_mem hc)]
    exact h
  · rw [hsame]
    · exact h
    · intro c hc
      have hc := octetChar_of_v4 h hc
      rw [lowerAscii, if_neg]
      · exact hc
      · simp only [Bool.and_eq_true, decide_eq_true_eq]
        omega

theorem network_lowerAscii {s : Str} (h : ∀ c ∈ s, nameChar c = true) :
    network (s.map lowerAscii) = network s := by
  have hlower : ∀ c ∈ s.map lowerAscii, nameChar c = true := by
    intro c hc
    obtain ⟨d, hd, rfl⟩ := List.mem_map.1 hc
    have hname := h d hd
    simp only [nameChar, Bool.or_eq_true, decide_eq_true_eq] at hname ⊢
    rcases hname with (hstart | rfl) | rfl
    · exact .inl (.inl (labelStart_lowerAscii hstart))
    · exact .inl (.inr rfl)
    · exact .inr rfl
  rw [network, network, parse_name hlower, parse_name h, v4_lowerAscii]

/-- A name that is an address is a single one, and its own text. -/
theorem network_name {s : Str} {n : IpNetwork} (hname : ∀ c ∈ s, nameChar c = true)
    (h : network s = some n) : n.Single ∧ n.network.length = 32 ∧ n.scope = none ∧
    n.stored = s := by
  obtain ⟨read, hread, rfl⟩ := Option.map_eq_some_iff.1 h
  rw [parse_name hname] at hread
  obtain ⟨a, ha, hread⟩ := Option.bind_eq_some_iff.1 hread
  obtain ⟨htext, hlt⟩ := IpAddress.v4_eq_some ha
  have hfits : 32 ≤ Lib.Family.v4.width ∧ a < 2 ^ Lib.Family.v4.width := ⟨Nat.le_refl 32, hlt⟩
  rw [IpNetwork.ofAddress, dif_pos hfits] at hread
  cases hread
  have hsame : ∀ n : IpNetwork, n.network.family = .v4 → unmap n = n := by
    intro n hf
    rw [unmap, if_neg]
    rw [hf]
    exact fun hmapped => by cases hmapped.1
  rw [hsame _ rfl]
  refine ⟨rfl, rfl, ?_, ?_⟩
  · show (if _ then none else none) = _
    exact ite_self none
  · rw [IpNetwork.stored]
    refine (if_pos rfl).trans ?_
    show IpAddress.v4Text (a / 2 ^ (32 - 32) * 2 ^ (32 - 32)) = s
    rw [Nat.sub_self, Nat.pow_zero, Nat.div_one, Nat.mul_one]
    exact htext.symm

/-! ## `parse_extra` -/

theorem parseExtra_ok {target : Str} {ports note : Option Str} {extra : Extra} :
    parseExtra t target ports note = .ok extra ↔
      t.strip target ≠ [] ∧ parseTarget t (t.strip target) = .ok extra.target ∧
        extraPorts t ports = .ok extra.ports ∧ extraNote t note = .ok extra.note := by
  rw [parseExtra]
  constructor
  · intro h
    split at h
    · cases h
    · next hne =>
      obtain ⟨target', htarget, h⟩ := Lib.Except.bind_eq_ok.1 h
      obtain ⟨ports', hports, h⟩ := Lib.Except.bind_eq_ok.1 h
      obtain ⟨note', hnote, h⟩ := Lib.Except.bind_eq_ok.1 h
      cases h
      exact ⟨hne, htarget, hports, hnote⟩
  · rintro ⟨hne, htarget, hports, hnote⟩
    rw [if_neg hne, htarget, hports, hnote]
    rfl

/-- With the ports and the note of before, only the target can be read otherwise. -/
theorem again_iff {target : Str} {ports note : Option Str} {extra : Extra}
    (h : parseExtra t target ports note = .ok extra) :
    parseExtra t extra.target ports note = .ok extra ↔
      t.strip extra.target ≠ [] ∧ parseTarget t (t.strip extra.target) = .ok extra.target := by
  obtain ⟨-, -, hports, hnote⟩ := parseExtra_ok.1 h
  rw [parseExtra_ok]
  exact ⟨fun h => ⟨h.1, h.2.1⟩, fun h => ⟨h.1, h.2, hports, hnote⟩⟩

theorem parseTarget_network {s : Str} {n : IpNetwork} (h : network s = some n) {stored : Str} :
    parseTarget t s = .ok stored ↔ n.network.length ≠ 0 ∧ refused n = false ∧
      n.stored = stored := by
  rw [parseTarget, h]
  dsimp only
  constructor
  · intro h
    split at h
    · cases h
    · next hlength =>
      split at h
      · cases h
      · next hrefused =>
        cases h
        exact ⟨hlength, by simpa using hrefused, rfl⟩
  · rintro ⟨hlength, hrefused, rfl⟩
    rw [if_neg hlength, hrefused]
    rfl

theorem parseTarget_name {s : Str} (h : network s = none) {stored : Str} :
    parseTarget t s = .ok stored ↔ s.contains 42 = false ∧ isHostname s = true ∧
      (t.lower s).rdropWhile (· = 46) = stored := by
  rw [parseTarget, h]
  dsimp only
  constructor
  · intro h
    split at h
    · cases h
    · next hname =>
      cases h
      simp only [Bool.or_eq_true, Bool.not_eq_true', not_or, Bool.not_eq_true,
        Bool.not_eq_false] at hname
      exact ⟨hname.1, hname.2, rfl⟩
  · rintro ⟨hstar, hname, rfl⟩
    rw [hstar, hname]
    rfl

/-- Of a target that is an address or a network as it was typed. -/
theorem storedAsIs_network {target : Str} {ports note : Option Str} {extra : Extra} {n : IpNetwork}
    (h : parseExtra t target ports note = .ok extra) (hn : network (t.strip target) = some n) :
    StoredAsIs t extra ports note ↔ Plain t (t.strip target) := by
  obtain ⟨-, htarget, -, -⟩ := parseExtra_ok.1 h
  obtain ⟨hlength, hrefused, hstored⟩ := (parseTarget_network hn).1 htarget
  obtain ⟨hvalid, hagain⟩ := network_stored hn
  have hread : readAs (t.strip target) = some n := by rw [readAs, hn, Option.some_or]
  have htargetNetwork : targetNetwork extra.target = some n := by
    rw [← hstored]
    exact hagain
  constructor
  · rintro ⟨hsame, hallowed⟩ read hread'
    cases hread.symm.trans hread'
    refine ⟨(hallowed n htargetNetwork).1, fun hsingle scope hscope c hc => ?_⟩
    -- read again, the target has lost the white space at its end
    obtain ⟨-, hsame⟩ := (again_iff h).1 hsame
    cases hn' : network (t.strip extra.target) with
    | some n' =>
      obtain ⟨-, -, hstored'⟩ := (parseTarget_network hn').1 hsame
      have hagain' := (network_stored hn').2
      rw [hstored', ← hstored, hagain] at hagain'
      cases hagain'
      exact scope_ends hn' hstored hsingle scope hscope c hc
    | none =>
      obtain ⟨-, hname, hstored'⟩ := (parseTarget_name hn').1 hsame
      have hpercent : 37 ∈ extra.target := by
        rw [← hstored, IpNetwork.stored, if_pos hsingle, address_text hvalid, hscope]
        simp [str]
      rw [← hstored', lower_hostname hname] at hpercent
      obtain ⟨c, hc, hlower⟩ := List.mem_map.1 hpercent
      have hc := nameChar_of_hostname hname c ((List.rdropWhile_prefix _ _).subset hc)
      have := (nameChar_lowerAscii hc).2.2
      omega
  · intro hplain
    obtain ⟨houtside, hends⟩ := hplain n hread
    have hstrip : t.strip extra.target = extra.target := by
      rw [← hstored]
      exact strip_stored hvalid hends
    refine ⟨(again_iff h).2 ?_, fun n' hn' => ?_⟩
    · have hagain' : network extra.target = some n := htargetNetwork
      refine ⟨?_, ?_⟩
      · rw [hstrip, ← hstored]
        exact stored_ne_nil hvalid
      · rw [hstrip]
        exact (parseTarget_network hagain').2 ⟨hlength, hrefused, hstored⟩
    · cases htargetNetwork.symm.trans hn'
      exact ⟨houtside, hlength⟩

/-- Of a host name. -/
theorem storedAsIs_name {target : Str} {ports note : Option Str} {extra : Extra}
    (h : parseExtra t target ports note = .ok extra) (hn : network (t.strip target) = none) :
    StoredAsIs t extra ports note ↔ Plain t (t.strip target) := by
  obtain ⟨-, htarget, -, -⟩ := parseExtra_ok.1 h
  obtain ⟨-, hname, hstored⟩ := (parseTarget_name hn).1 htarget
  obtain ⟨-, hne, -, -, -⟩ := labels_of_hostname hname
  rw [lower_hostname hname] at hstored
  obtain ⟨hname', hlower, hstrip, hstar⟩ := stored_hostname (t := t) hname
  rw [hstored] at hname' hlower hstrip hstar
  have hchars : ∀ c ∈ (t.strip target).rdropWhile (· = 46), nameChar c = true := fun c hc =>
    nameChar_of_hostname hname c ((List.rdropWhile_prefix _ _).subset hc)
  have hread : readAs (t.strip target) = targetNetwork extra.target := by
    rw [readAs, hn, Option.none_or, ← hstored]
    exact (network_lowerAscii hchars).symm
  have haddress : ∀ n, targetNetwork extra.target = some n → n.Single ∧ n.network.length = 32 ∧
      n.scope = none ∧ n.stored = extra.target := fun n hn' =>
    network_name (nameChar_of_hostname hname') hn'
  constructor
  · rintro ⟨-, hallowed⟩ n hn'
    rw [hread] at hn'
    refine ⟨(hallowed n hn').1, fun _ scope hscope => ?_⟩
    rw [(haddress n hn').2.2.1] at hscope
    cases hscope
  · intro hplain
    have hnil : extra.target ≠ [] := by
      rw [← hstored]
      simpa using hne
    refine ⟨(again_iff h).2 ⟨by rwa [hstrip], ?_⟩, fun n hn' => ?_⟩
    · rw [hstrip]
      cases hn' : network extra.target with
      | none => exact (parseTarget_name hn').2 ⟨hstar, hname', hlower⟩
      | some n =>
        obtain ⟨-, hlength, -, hsame⟩ := haddress n hn'
        have houtside := (hplain n (hread.trans hn')).1
        exact (parseTarget_network hn').2 ⟨by omega, not_refused houtside, hsame⟩
    · have houtside := (hplain n (hread.trans hn')).1
      have hlength := (haddress n hn').2.1
      exact ⟨houtside, by omega⟩

theorem parseExtra_iff {target : Str} {ports note : Option Str} {extra : Extra}
    (h : parseExtra t target ports note = .ok extra) :
    StoredAsIs t extra ports note ↔ Plain t (t.strip target) := by
  cases hn : network (t.strip target) with
  | some n => exact storedAsIs_network h hn
  | none => exact storedAsIs_name h hn

theorem parseExtra_lan :
    StoredAsIs Unicode.ascii ⟨str "10.0.0.0/24", none, none⟩ none none ↔
      Plain Unicode.ascii (Unicode.ascii.strip (str "10.0.0.7/24")) :=
  parseExtra_iff (by decide)

/-- The metadata service, with a dot at the end. -/
theorem parseExtra_metadata : ¬ ∀ (t : Unicode) (target : Str) (ports note : Option Str)
    (extra : Extra), parseExtra t target ports note = .ok extra →
    StoredAsIs t extra ports note := by
  intro h
  have hstored : parseExtra Unicode.ascii (str "169.254.169.254.") none none
      = .ok ⟨str "169.254.169.254", none, none⟩ := by decide
  have hagain : parseExtra Unicode.ascii (str "169.254.169.254") none none
      = .error (.blocked (str "169.254.169.254/32")) := by decide
  have := (h _ _ _ _ _ hstored).again
  rw [hagain] at this
  cases this

end Egress

end AnsiDeck
