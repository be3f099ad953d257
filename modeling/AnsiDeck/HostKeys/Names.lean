import AnsiDeck.Lib.Unicode

/-!
# Names in known_hosts

`app.host_keys`'s `alias` and `normalise_name`, and `app.host_key_scans.split_name`. A key is stored
under the name ssh looks a host up by: `web1`, or `[10.0.0.5]:2222` when the port isn't 22.

`normalise_name` keeps the text of the port as it was given, where ssh writes the number: see
`canonical_iff`.
-/

namespace AnsiDeck

namespace HostKeys

open Lib (Str str decimal decimalInt lowerAscii Unicode)

def maxName : Nat := 300

/-- `[a-z0-9_]`. -/
def hostStart (c : Nat) : Bool := 97 ≤ c && c ≤ 122 || 48 ≤ c && c ≤ 57 || c = 95

/-- `[a-z0-9_.:%-]`. -/
def hostChar (c : Nat) : Bool := hostStart c || c = 46 || c = 58 || c = 37 || c = 45

/-- `_HOST`. -/
def isHost : Str → Bool
  | [] => false
  | c :: rest => hostStart c && rest.all hostChar

/-- `[host]:port`. -/
def bracketed (host port : Str) : Str := str "[" ++ host ++ str "]:" ++ port

section

variable (t : Unicode)

/-- `\d{1,5}`. -/
def isPort (s : Str) : Bool := s.all (fun c => (t.digit c).isSome) && 1 ≤ s.length && s.length ≤ 5

/-- `_NAME.fullmatch(name)`: no character of a host is a closing bracket. -/
def isName (name : Str) : Bool :=
  isHost name || match name with
    | 91 :: rest =>
      match rest.dropWhile (· ≠ 93) with
      | 93 :: 58 :: port => isHost (rest.takeWhile (· ≠ 93)) && isPort t port
      | _ => false
    | _ => false

/-- `alias`: the known_hosts name ssh looks a host up by. -/
def aliasOf (host : Str) (port : Option Int) : Str :=
  let host := t.lower host
  match port with
  | none => host
  | some port => if port = 22 then host else bracketed host (decimalInt port)

/-- A known_hosts name as stored, or `none` if it isn't one plain name. -/
def normaliseName (name : Str) : Option Str :=
  let name := t.lower (t.strip name)
  if name = [] || maxName < name.length || !isName t name then none
  else if (str "[").isPrefixOf name then do
    let port ← t.int? (← Str.rsplit (str ":") name).2
    if !(1 ≤ port && port ≤ 65535) then none
    else if port = 22 then some (← Str.rsplit (str "]:") (name.drop 1)).1
    else some name
  else some name

/-- `[host]:port` or `host` (port 22) to what ssh-keyscan connects to. -/
def splitName (name : Str) : Option (Str × Int) :=
  if (str "[").isPrefixOf name then do
    let (host, port) ← Str.rsplit (str "]:") (name.drop 1)
    some (host, ← t.int? port)
  else some (name, 22)

/-- The port, where the name has one, is 22 or in ASCII digits without a leading zero. -/
def PlainPort (name : Str) : Prop :=
  ∀ host port, t.lower (t.strip name) = bracketed host port → 58 ∉ port →
    t.int? port = some 22 ∨ ∃ n : Nat, port = decimal n

/-- The two shapes of a name. -/
inductive Form : Str → Prop
  | plain {name : Str} (host : isHost name = true) : Form name
  | bracketed {host port : Str} (hhost : isHost host = true) (hport : isPort t port = true) :
    Form (bracketed host port)

end

/-! ## What a name is made of -/

theorem bracketed_eq (host port : Str) :
    bracketed host port = 91 :: (host ++ 93 :: 58 :: port) := by
  simp [bracketed, str]

theorem hostChar_of_hostStart {c : Nat} (h : hostStart c = true) : hostChar c = true := by
  simp [hostChar, h]

theorem hostChar_of_mem {host : Str} (h : isHost host = true) {c : Nat} (hc : c ∈ host) :
    hostChar c = true := by
  cases host with
  | nil => exact absurd h (by simp [isHost])
  | cons d rest =>
    simp only [isHost, Bool.and_eq_true, List.all_eq_true] at h
    rcases List.mem_cons.1 hc with rfl | hc
    · exact hostChar_of_hostStart h.1
    · exact h.2 c hc

/-- A host's characters are ASCII, in lower case, and neither white space nor brackets. -/
theorem hostChar_cases {c : Nat} (h : hostChar c = true) :
    32 < c ∧ c < 128 ∧ c ≠ 91 ∧ c ≠ 93 ∧ lowerAscii c = c := by
  simp only [hostChar, hostStart, Bool.or_eq_true, Bool.and_eq_true, decide_eq_true_eq] at h
  have hle : ¬ (65 ≤ c ∧ c ≤ 90) := by omega
  refine ⟨by omega, by omega, by omega, by omega, ?_⟩
  simp only [lowerAscii, Bool.and_eq_true, decide_eq_true_eq, if_neg hle]

variable {t : Unicode}

theorem isSpace_of_hostChar {c : Nat} (h : hostChar c = true) : t.isSpace c = false := by
  obtain ⟨hlo, hhi, -, -, -⟩ := hostChar_cases h
  rw [t.isSpace_ascii c hhi]
  simp only [Lib.asciiSpace, Bool.or_eq_false_iff, Bool.and_eq_false_iff, decide_eq_false_iff_not]
  omega

theorem isPort_iff {port : Str} : isPort t port = true ↔
    (∀ c ∈ port, (t.digit c).isSome = true) ∧ 1 ≤ port.length ∧ port.length ≤ 5 := by
  simp [isPort, and_assoc]

theorem digit_of_isPort {port : Str} (h : isPort t port = true) {c : Nat} (hc : c ∈ port) :
    ∃ d, t.digit c = some d := Option.isSome_iff_exists.1 ((isPort_iff.1 h).1 c hc)

theorem colon_not_mem_port {port : Str} (h : isPort t port = true) : 58 ∉ port := by
  intro hc
  obtain ⟨d, hd⟩ := digit_of_isPort h hc
  rw [t.digit_ascii 58 (by omega)] at hd
  exact absurd hd (by simp [Lib.asciiDigit])

theorem colon_not_mem_decimal (n : Nat) : 58 ∉ decimal n := by
  intro hc
  have := Lib.digit_of_mem_decimal hc
  omega

theorem port_ne_nil {port : Str} (h : isPort t port = true) : port ≠ [] := by
  rintro rfl
  exact absurd (isPort_iff.1 h).2.1 (by simp)

theorem int?_of_isPort {port : Str} (h : isPort t port = true) :
    ∃ p : Nat, t.int? port = some (p : Int) :=
  ⟨_, Unicode.int?_of_digits (isPort_iff.1 h).1 (port_ne_nil h)
    ((isPort_iff.1 h).2.2.trans (by decide))⟩

/-- The host and the port of a bracketed name are found again. -/
theorem rsplit_bracketed (host : Str) {port : Str} (hport : 58 ∉ port) :
    Str.rsplit (str "]:") ((bracketed host port).drop 1) = some (host, port) ∧
      Str.rsplit (str ":") (bracketed host port) = some (91 :: (host ++ [93]), port) := by
  have hsplit := Str.rsplit_append [93] hport host
  have hcolon := Str.rsplit_append [] hport (91 :: (host ++ [93]))
  simp only [bracketed_eq]
  constructor
  · simpa [str] using hsplit
  · simpa [str] using hcolon

theorem bracketed_inj {host host' port port' : Str} (hport : 58 ∉ port) (hport' : 58 ∉ port')
    (h : bracketed host port = bracketed host' port') : host = host' ∧ port = port' := by
  have hsplit := (rsplit_bracketed host hport).1
  rw [h, (rsplit_bracketed host' hport').1] at hsplit
  simp only [Option.some.injEq, Prod.mk.injEq] at hsplit
  exact ⟨hsplit.1.symm, hsplit.2.symm⟩

theorem not_bracket_isHost {host : Str} (h : isHost host = true) :
    (str "[").isPrefixOf host = false := by
  cases host with
  | nil => rfl
  | cons c rest =>
    have hc := hostChar_cases (hostChar_of_mem h (List.mem_cons_self ..))
    simp [str, List.isPrefixOf, Ne.symm hc.2.2.1]

theorem bracket_bracketed (host port : Str) :
    (str "[").isPrefixOf (bracketed host port) = true := by
  simp [bracketed_eq, str, List.isPrefixOf]

theorem isHost_bracketed (host port : Str) : isHost (bracketed host port) = false := by
  simp [bracketed_eq, isHost, hostStart]

theorem isName_iff {name : Str} : isName t name = true ↔ Form t name := by
  constructor
  · intro h
    simp only [isName, Bool.or_eq_true] at h
    rcases h with h | h
    · exact .plain h
    · split at h
      · rename_i rest
        split at h
        · rename_i port htail
          simp only [Bool.and_eq_true] at h
          have hrest := List.takeWhile_append_dropWhile (p := (· ≠ 93)) (l := rest)
          rw [htail] at hrest
          have := Form.bracketed h.1 h.2
          rwa [bracketed_eq, hrest] at this
        · exact absurd h (by simp)
      · exact absurd h (by simp)
  · intro h
    cases h with
    | plain host => simp [isName, host]
    | @bracketed host port hhost hport =>
      have hne : ∀ c ∈ host, decide (c ≠ 93) = true := fun c hc =>
        decide_eq_true (hostChar_cases (hostChar_of_mem hhost hc)).2.2.2.1
      rw [bracketed_eq]
      simp only [isName, List.dropWhile_append_of_pos hne, List.takeWhile_append_of_pos hne]
      simp [hhost, hport]

namespace Form

theorem mem {name : Str} (h : Form t name) {c : Nat} (hc : c ∈ name) :
    hostChar c = true ∨ c = 91 ∨ c = 93 ∨ (t.digit c).isSome = true := by
  cases h with
  | plain host => exact .inl (hostChar_of_mem host hc)
  | @bracketed host port hhost hport =>
    rw [bracketed_eq] at hc
    simp only [List.mem_cons, List.mem_append] at hc
    rcases hc with hc | hc | hc | hc | hc
    · exact .inr (.inl hc)
    · exact .inl (hostChar_of_mem hhost hc)
    · exact .inr (.inr (.inl hc))
    · exact .inl (by simp [hc, hostChar])
    · exact .inr (.inr (.inr ((isPort_iff.1 hport).1 c hc)))

theorem ne_nil {name : Str} (h : Form t name) : name ≠ [] := by
  cases h with
  | plain host =>
    rintro rfl
    exact absurd host (by simp [isHost])
  | bracketed hhost hport => simp [bracketed_eq]

theorem strip {name : Str} (h : Form t name) : t.strip name = name := by
  refine Str.strip_eq_self fun c hc => ?_
  rcases h.mem hc with hc | rfl | rfl | hc
  · exact isSpace_of_hostChar hc
  · simp [t.isSpace_ascii 91 (by omega), Lib.asciiSpace]
  · simp [t.isSpace_ascii 93 (by omega), Lib.asciiSpace]
  · obtain ⟨d, hd⟩ := Option.isSome_iff_exists.1 hc
    exact t.isSpace_of_digit hd

theorem lower {name : Str} (h : Form t name) : t.lower name = name := by
  refine Unicode.lower_eq_self fun c hc => ?_
  rcases h.mem hc with hc | rfl | rfl | hc
  · obtain ⟨-, hlt, -, -, hfix⟩ := hostChar_cases hc
    exact .inl ⟨hlt, hfix⟩
  · exact .inl ⟨by omega, rfl⟩
  · exact .inl ⟨by omega, rfl⟩
  · exact .inr hc

end Form

/-! ## What is stored -/

/-- What `normalise_name` makes of a text in lower case without white space around it. -/
inductive Stored (t : Unicode) : Str → Str → Prop
  | plain {name : Str} (hhost : isHost name = true) : Stored t name name
  | port22 {host port : Str} (hhost : isHost host = true) (hport : isPort t port = true)
    (hp : t.int? port = some 22) : Stored t (bracketed host port) host
  | bracketed {host port : Str} {p : Nat} (hhost : isHost host = true)
    (hport : isPort t port = true) (hp : t.int? port = some (p : Int)) (hlo : 1 ≤ p)
    (hhi : p ≤ 65535) (hne : p ≠ 22) : Stored t (bracketed host port) (bracketed host port)

theorem Stored.form {name n : Str} (h : Stored t name n) : Form t name ∧ Form t n := by
  cases h with
  | plain hhost => exact ⟨.plain hhost, .plain hhost⟩
  | port22 hhost hport hp => exact ⟨.bracketed hhost hport, .plain hhost⟩
  | bracketed hhost hport hp hlo hhi hne =>
    exact ⟨.bracketed hhost hport, .bracketed hhost hport⟩

theorem Stored.length_le {name n : Str} (h : Stored t name n) : n.length ≤ name.length := by
  cases h with
  | plain hhost => exact Nat.le_refl _
  | @port22 host port hhost hport hp =>
    simp only [bracketed_eq, List.length_cons, List.length_append]
    omega
  | bracketed hhost hport hp hlo hhi hne => exact Nat.le_refl _

/-- What is stored would be stored as it is. -/
theorem Stored.again {name n : Str} (h : Stored t name n) : Stored t n n := by
  cases h with
  | plain hhost => exact .plain hhost
  | port22 hhost hport hp => exact .plain hhost
  | bracketed hhost hport hp hlo hhi hne => exact .bracketed hhost hport hp hlo hhi hne

theorem normaliseName_eq_some {s n : Str} : normaliseName t s = some n ↔
    (t.lower (t.strip s)).length ≤ maxName ∧ Stored t (t.lower (t.strip s)) n := by
  rw [normaliseName]
  generalize t.lower (t.strip s) = name
  by_cases hform : Form t name
  · have hpass : (name = [] || maxName < name.length || !isName t name) = true ↔
        ¬ name.length ≤ maxName := by
      simp [isName_iff.2 hform, hform.ne_nil]
    by_cases hlen : name.length ≤ maxName
    · have hgo : ¬ (name = [] || maxName < name.length || !isName t name) = true := by
        rw [hpass]
        simp [hlen]
      simp only [if_neg hgo, hlen, true_and]
      cases hform with
      | plain hhost =>
        rw [not_bracket_isHost hhost]
        constructor
        · intro h
          simp only [Bool.false_eq_true, if_false, Option.some.injEq] at h
          exact h ▸ .plain hhost
        · intro h
          cases h with
          | plain _ => rfl
          | port22 => simp [isHost_bracketed] at hhost
          | bracketed => simp [isHost_bracketed] at hhost
      | @bracketed host port hhost hport =>
        have hcolon := colon_not_mem_port hport
        obtain ⟨p, hp⟩ := int?_of_isPort hport
        obtain ⟨hsplit, hrsplit⟩ := rsplit_bracketed host hcolon
        simp only [bracket_bracketed, if_true, hrsplit, hsplit, Option.bind_eq_bind,
          Option.bind_some, hp]
        constructor
        · intro h
          split at h
          · exact absurd h (by simp)
          · rename_i hrange
            split at h
            · rename_i h22
              simp only [Option.some.injEq] at h
              exact h ▸ .port22 hhost hport (h22 ▸ hp)
            · rename_i h22
              simp only [Option.some.injEq] at h
              simp only [Bool.not_eq_true', Bool.not_eq_false, Bool.and_eq_true,
                decide_eq_true_eq] at hrange
              exact h ▸ .bracketed hhost hport hp (by omega) (by omega) (by omega)
        · intro h
          generalize hname : bracketed host port = name at h
          cases h with
          | plain hplain => simp [← hname, isHost_bracketed] at hplain
          | port22 _ hport' hp' =>
            obtain ⟨rfl, rfl⟩ := bracketed_inj hcolon (colon_not_mem_port hport') hname
            rw [hp] at hp'
            simp only [Option.some.injEq] at hp'
            simp [hp']
          | @bracketed _ _ q _ hport' hp' hlo hhi hne =>
            obtain ⟨rfl, rfl⟩ := bracketed_inj hcolon (colon_not_mem_port hport') hname
            rw [hp] at hp'
            simp only [Option.some.injEq, Int.natCast_inj] at hp'
            subst hp'
            have hrange : (1 : Int) ≤ p ∧ (p : Int) ≤ 65535 ∧ (p : Int) ≠ 22 := by omega
            simp [hrange]
    · simp [hpass.2 hlen, hlen]
  · have hfail : (name = [] || maxName < name.length || !isName t name) = true := by
      have hname : isName t name = false := Bool.eq_false_iff.2 fun h => hform (isName_iff.1 h)
      simp [hname]
    have hnone : ∀ {n}, ¬ Stored t name n := fun h => hform h.form.1
    simp [hfail, hnone]

theorem normaliseName_again {s n : Str} (h : normaliseName t s = some n) :
    normaliseName t n = some n := by
  obtain ⟨hlen, hstored⟩ := normaliseName_eq_some.1 h
  have hform := hstored.form.2
  rw [normaliseName_eq_some, hform.strip, hform.lower]
  exact ⟨hstored.length_le.trans hlen, hstored.again⟩

theorem aliasOf_isHost {host : Str} (h : isHost host = true) : aliasOf t host (some 22) = host := by
  simp [aliasOf, (Form.plain h).lower]

theorem splitName_isHost {host : Str} (h : isHost host = true) :
    splitName t host = some (host, 22) := by
  simp [splitName, not_bracket_isHost h]

theorem splitName_bracketed {host port : Str} {p : Int} (hport : isPort t port = true)
    (hp : t.int? port = some p) : splitName t (bracketed host port) = some (host, p) := by
  simp only [splitName, bracket_bracketed, if_true,
    (rsplit_bracketed _ (colon_not_mem_port hport)).1, hp, Option.bind_eq_bind, Option.bind_some]

/-- Of an accepted name: what is stored would be stored as it is, and it is the name of the address
and the port it stands for exactly when its port is written as ssh writes it. -/
theorem canonical_iff (t : Unicode) {s n : Str} (h : normaliseName t s = some n) :
    (normaliseName t n = some n ∧
      ∃ host port, splitName t n = some (host, port) ∧ aliasOf t host (some port) = n) ↔
    PlainPort t s := by
  have hagain := normaliseName_again h
  simp only [hagain, true_and]
  obtain ⟨-, hstored⟩ := normaliseName_eq_some.1 h
  rw [PlainPort]
  revert hstored
  generalize t.lower (t.strip s) = name
  intro hstored
  cases hstored with
  | plain hhost =>
    constructor
    · intro _ host port hname _
      simp [hname, isHost_bracketed] at hhost
    · intro _
      exact ⟨n, 22, splitName_isHost hhost, aliasOf_isHost hhost⟩
  | @port22 _ port hhost hport hp =>
    constructor
    · intro _ host' port' hname hcolon
      obtain ⟨-, rfl⟩ := bracketed_inj (colon_not_mem_port hport) hcolon hname
      exact .inl hp
    · intro _
      exact ⟨n, 22, splitName_isHost hhost, aliasOf_isHost hhost⟩
  | @bracketed host port p hhost hport hp hlo hhi hne =>
    have hcolon := colon_not_mem_port hport
    have halias : aliasOf t host (some (p : Int)) = bracketed host (decimal p) := by
      have hne22 : (p : Int) ≠ 22 := by omega
      simp [aliasOf, hne22, (Form.plain hhost).lower, decimalInt]
    constructor
    · rintro ⟨host', q, hsplit, hname⟩ host₁ port₁ heq hcolon₁
      obtain ⟨rfl, rfl⟩ := bracketed_inj hcolon hcolon₁ heq
      rw [splitName_bracketed hport hp, Option.some.injEq, Prod.mk.injEq] at hsplit
      obtain ⟨rfl, rfl⟩ := hsplit
      rw [halias] at hname
      exact .inr ⟨p, (bracketed_inj (colon_not_mem_decimal p) hcolon hname).2.symm⟩
    · intro hplain
      refine ⟨host, p, splitName_bracketed hport hp, ?_⟩
      rcases hplain host port rfl hcolon with h22 | ⟨k, rfl⟩
      · rw [hp, Option.some.injEq] at h22
        omega
      · -- ssh writes the number these digits stand for
        rw [Unicode.int?_decimal ((isPort_iff.1 hport).2.2.trans (by decide)), Option.some.injEq,
          Int.natCast_inj] at hp
        rw [halias, hp]

theorem canonical_web1 : (normaliseName .ascii (str "[web1]:2222") = some (str "[web1]:2222") ∧
    ∃ host port, splitName .ascii (str "[web1]:2222") = some (host, port) ∧
      aliasOf .ascii host (some port) = str "[web1]:2222") ↔
    PlainPort .ascii (str "[web1]:2222") :=
  canonical_iff .ascii (s := str "[web1]:2222") (by decide)

/-- With a zero before it the port is stored as it is, and a scan finds the host's keys under
another name. -/
theorem not_canonical : ¬ ∀ (t : Unicode) (s n : Str), normaliseName t s = some n →
    normaliseName t n = some n ∧
      ∃ host port, splitName t n = some (host, port) ∧ aliasOf t host (some port) = n := by
  intro h
  obtain ⟨-, host, port, hsplit, hname⟩ :=
    h .ascii (str "[web1]:02222") (str "[web1]:02222") (by decide)
  have hsplit' : splitName .ascii (str "[web1]:02222") = some (str "web1", 2222) := by decide
  rw [hsplit', Option.some.injEq, Prod.mk.injEq] at hsplit
  rw [← hsplit.1, ← hsplit.2] at hname
  exact absurd hname (by decide)

end HostKeys

end AnsiDeck
