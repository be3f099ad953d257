import AnsiDeck.Lib.JsonNumbers
import AnsiDeck.Lib.JsonReader

/-!
# Reading what was written

`json.loads` of `json.dumps`. What it gives is `reread` of the value: the same but for two
surrogates next to each other in a string, which come back as the character they spell, and for the
keys that become equal by that. It is read just when the reader takes every number in it
(`Readable`) and lets it nest so deep.
-/

namespace Lib

namespace JsonText

/-! ## Strings -/

theorem hexDigit_hexChar : ∀ n < 16, hexDigit (hexChar n) = some n := by decide

/-- How a character is written: itself, or by an escape of one letter or of four digits. -/
def written (c : Nat) : List (Nat × Bool) :=
  if 32 ≤ c ∧ c ≤ 126 ∨ (escapes.find? fun e => e.1 = c).isSome then [(c, false)]
  else if c < 0x10000 then [(c, true)]
  else [((0xd800 + (c - 0x10000) / 0x400) % 0x10000, true), (0xdc00 + (c - 0x10000) % 0x400, true)]

/-- A character that needs no escape is read as itself. -/
theorem units_plain {c : Nat} (h : 32 ≤ c ∧ c ≤ 126 ∧ c ≠ 34 ∧ c ≠ 92) (s : Str) :
    units .plain (c :: s) = (units .plain s).map fun r => ((c, false) :: r.1, r.2) := by
  rw [units, if_neg h.2.2.1, if_neg h.2.2.2, if_neg (by omega)]

/-- Four digits are read as the unit they spell. -/
theorem units_escapeUnit (n : Nat) (s : Str) :
    units .plain (escapeUnit n ++ s) = (units .plain s).map fun r =>
      ((n % 0x10000, true) :: r.1, r.2) := by
  have hdigit (k : Nat) := hexDigit_hexChar (k % 16) (Nat.mod_lt _ (by decide))
  rw [escapeUnit]
  simp only [List.cons_append, List.nil_append]
  rw [units, if_neg (by decide), if_pos rfl, units, if_pos rfl]
  rw [units, hdigit, Option.bind_some, if_neg (by decide), units, hdigit, Option.bind_some,
    if_neg (by decide), units, hdigit, Option.bind_some, if_neg (by decide), units, hdigit,
    Option.bind_some, if_pos (by decide)]
  have hvalue : 16 * (16 * (16 * (16 * 0 + n / 4096 % 16) + n / 256 % 16) + n / 16 % 16) + n % 16 =
      n % 0x10000 := by omega
  rw [hvalue]

/-- The escapes of one letter are read as what they are written for. -/
theorem unescape_escapes : ∀ e ∈ escapes, e.2 ≠ 117 ∧ unescape e.2 = some e.1 := by decide

theorem units_escapeChar (c : Nat) (s : Str) :
    units .plain (escapeChar c ++ s) = (units .plain s).map fun r => (written c ++ r.1, r.2) := by
  rw [escapeChar, written]
  split
  · rename_i hplain
    rw [if_pos (.inl ⟨hplain.1, hplain.2.1⟩)]
    exact units_plain hplain s
  rename_i hplain
  cases hfind : escapes.find? fun e => e.1 = c with
  | some e =>
    have hkey : e.1 = c := by simpa using List.find?_some hfind
    obtain ⟨hu, hunescape⟩ := unescape_escapes e (List.mem_of_find?_eq_some hfind)
    have hescaped : 32 ≤ c ∧ c ≤ 126 ∨ (some e).isSome = true := .inr rfl
    rw [if_pos hescaped]
    show units .plain (92 :: e.2 :: s) = _
    rw [units, if_neg (by decide), if_pos rfl, units, if_neg hu, hunescape, hkey]
    rfl
  | none =>
    have hnot : ¬ (32 ≤ c ∧ c ≤ 126 ∨ (none : Option (Nat × Nat)).isSome = true) := by
      rintro (hc | hc)
      · refine hplain ⟨hc.1, hc.2, ?_, ?_⟩
        · rintro rfl
          cases hfind
        · rintro rfl
          cases hfind
      · cases hc
    rw [if_neg hnot]
    dsimp only
    split
    · rename_i hsmall
      rw [units_escapeUnit, Nat.mod_eq_of_lt hsmall]
      rfl
    · rw [List.append_assoc, units_escapeUnit, units_escapeUnit, Option.map_map]
      have hlow : (0xdc00 + (c - 0x10000) % 0x400) % 0x10000 = 0xdc00 + (c - 0x10000) % 0x400 := by
        omega
      rw [hlow]
      rfl

/-- What the text comes back as. -/
def rereadStr (s : Str) : Str := Utf.join (s.flatMap written)

/-- A string that was written is read up to its closing quote. -/
theorem string_dumpStr (s rest : Str) :
    string (s.flatMap escapeChar ++ 34 :: rest) = some (rereadStr s, rest) := by
  have hunits : ∀ t : Str, units .plain (t.flatMap escapeChar ++ 34 :: rest) =
      some (t.flatMap written, rest) := by
    intro t
    induction t with
    | nil => rfl
    | cons c t ih =>
      rw [List.flatMap_cons, List.append_assoc, units_escapeChar, ih]
      rfl
  rw [string, hunits]
  rfl

/-! ## Values -/

mutual

/-- What a value comes back as. -/
def reread : Json → Json
  | .str s => .str (rereadStr s)
  | .arr items => .arr (rereadItems items)
  | .obj entries => object (rereadEntries entries)
  | v => v

def rereadItems : List Json → List Json
  | [] => []
  | v :: vs => reread v :: rereadItems vs

def rereadEntries : List (Str × Json) → List (Str × Json)
  | [] => []
  | (k, v) :: es => (rereadStr k, reread v) :: rereadEntries es

end

mutual

/-- The reader takes every number in it. -/
def Readable (d : Dialect) : Json → Prop
  | .int n => (d.maxDigits.all fun most => decide ((decimal n.natAbs).length ≤ most)) = true
  | .float .nan | .float (.infinity _) => d.constants = true
  | .arr items => ReadableItems d items
  | .obj entries => ReadableEntries d entries
  | _ => True

def ReadableItems (d : Dialect) : List Json → Prop
  | [] => True
  | v :: vs => Readable d v ∧ ReadableItems d vs

def ReadableEntries (d : Dialect) : List (Str × Json) → Prop
  | [] => True
  | (_, v) :: es => Readable d v ∧ ReadableEntries d es

end

theorem readableItems_iff {d : Dialect} {vs : List Json} :
    ReadableItems d vs ↔ ∀ v ∈ vs, Readable d v := by
  induction vs with
  | nil => simp [ReadableItems]
  | cons v vs ih => rw [ReadableItems, ih, List.forall_mem_cons]

theorem readableEntries_iff {d : Dialect} {es : List (Str × Json)} :
    ReadableEntries d es ↔ ∀ e ∈ es, Readable d e.2 := by
  induction es with
  | nil => simp [ReadableEntries]
  | cons e es ih => rw [ReadableEntries, ih, List.forall_mem_cons]

/-- A digit, or a minus sign and a digit. -/
def startsNumber : Str → Bool
  | [] => false
  | c :: s => isDigit c || c = 45 && (s.head?.any isDigit)

theorem startsNumber_sign (negative : Bool) {s : Str}
    (h : s.head?.any isDigit = true) (rest : Str) :
    startsNumber (sign negative ++ s ++ rest) = true := by
  cases s with
  | nil => cases h
  | cons c s =>
    have hc : isDigit c = true := h
    cases negative with
    | true => simp [sign, startsNumber, hc]
    | false => simp [sign, startsNumber, hc]

theorem head_wholePart {digits : Str} (h : WholePart digits) (rest : Str) :
    (digits ++ rest).head?.any isDigit = true := by
  obtain ⟨c, tail, rfl⟩ := List.exists_cons_of_ne_nil h.ne_nil
  exact h.all c List.mem_cons_self

theorem startsNumber_decimalInt (n : Int) (rest : Str) :
    startsNumber (decimalInt n ++ rest) = true := by
  cases n with
  | ofNat n =>
    have hhead := head_wholePart (wholePart_decimal n) []
    rw [List.append_nil] at hhead
    exact startsNumber_sign false hhead rest
  | negSucc n =>
    have hhead := head_wholePart (wholePart_decimal (n + 1)) []
    rw [List.append_nil] at hhead
    exact startsNumber_sign true hhead rest

theorem head_layOut (form : DecimalForm) : (Double.layOut form).head?.any isDigit = true := by
  have hdigits := wholePart_decimal form.coefficient
  have htake {n : Nat} (hn : 0 < n) := head_wholePart (wholePart_take hdigits hn)
  rw [Double.layOut]
  split
  · split
    · rfl
    split
    · rw [List.append_assoc]
      exact head_wholePart hdigits _
    · rw [List.append_assoc]
      exact htake (by omega) _
  · rw [List.append_assoc]
    exact htake Nat.one_pos _

theorem startsNumber_repr (negative : Bool) {mantissa shift : Nat}
    (h : CanonicalDouble mantissa shift)
    (rest : Str) : startsNumber (Double.repr negative mantissa shift h ++ rest) = true :=
  startsNumber_sign negative (head_layOut _) rest

theorem literals_start : ∀ constants : Bool, ∀ l ∈ literals constants,
    startsNumber l.1 = false ∧ 2 ≤ l.1.length := by
  intro constants
  cases constants with
  | false => decide
  | true => decide

/-- No constant begins like a number. -/
theorem literal_number (constants : Bool) {s : Str} (h : startsNumber s = true) :
    literal constants s = none := by
  rw [literal, Option.map_eq_none_iff, List.find?_eq_none]
  intro l hl hprefix
  obtain ⟨hstart, hlength⟩ := literals_start constants l hl
  obtain ⟨rest, rfl⟩ := List.isPrefixOf_iff_prefix.1 hprefix
  match hword : l.1 with
  | [] | [_] =>
    rw [hword] at hlength
    exact absurd hlength (by simp)
  | a :: b :: word =>
    rw [hword] at h hstart
    exact absurd (hstart.symm.trans h) (by simp)

/-- A text that begins like a number is read as one, whatever else a value may be. -/
theorem value_number (d : Dialect) (fuel room : Nat) {s : Str} (h : startsNumber s = true) :
    value d (fuel + 1) room s = number d s := by
  have hhead {c : Nat} (hdigit : isDigit c = false) (hminus : c ≠ 45) : s.head? ≠ some c := by
    intro hc
    rw [eq_cons_of_head? hc] at h
    simp [startsNumber, hdigit, hminus] at h
  rw [value, if_neg (hhead (by decide) (by decide)), if_neg (hhead (by decide) (by decide)),
    if_neg (hhead (by decide) (by decide)), literal_number _ h, Option.none_or]

/-! ## What a value's text begins with -/

/-- Neither white space nor a closing bracket. -/
def Begins (s : Str) : Prop := ∃ c tail, s = c :: tail ∧ isSpace c = false ∧ c ≠ 93 ∧ c ≠ 125

theorem begins_number {s : Str} (h : startsNumber s = true) : Begins s := by
  cases s with
  | nil => cases h
  | cons c s =>
    refine ⟨c, s, rfl, ?_⟩
    have hc : isDigit c = true ∨ c = 45 := by
      simp only [startsNumber, Bool.or_eq_true, Bool.and_eq_true, decide_eq_true_eq] at h
      exact h.imp_right And.left
    obtain hc | rfl := hc
    · rw [isDigit_iff] at hc
      have hspace : isSpace c = false := by
        simp only [isSpace, Bool.or_eq_false_iff, decide_eq_false_iff_not]
        omega
      exact ⟨hspace, by omega, by omega⟩
    · decide

/-- What is written begins with neither white space nor a closing bracket, so the reader doesn't
skip it. -/
theorem begins_dump (v : Json) (rest : Str) : Begins (dump v ++ rest) := by
  cases v with
  | null => exact ⟨_, _, rfl, by decide⟩
  | bool b => cases b with
    | true => exact ⟨_, _, rfl, by decide⟩
    | false => exact ⟨_, _, rfl, by decide⟩
  | int n => exact begins_number (startsNumber_decimalInt n rest)
  | float x => cases x with
    | nan => exact ⟨_, _, rfl, by decide⟩
    | infinity negative => cases negative with
      | true => exact ⟨_, _, rfl, by decide⟩
      | false => exact ⟨_, _, rfl, by decide⟩
    | finite negative mantissa shift h => exact begins_number (startsNumber_repr negative h rest)
  | str s => exact ⟨_, _, rfl, by decide⟩
  | arr items => exact ⟨_, _, rfl, by decide⟩
  | obj entries => exact ⟨_, _, rfl, by decide⟩

theorem skip_of_begins {s : Str} (h : Begins s) : skip s = s := by
  obtain ⟨c, tail, rfl, hspace, -⟩ := h
  exact List.dropWhile_cons_of_neg (by simp [hspace])

theorem skip_ends {s : Str} (h : Ends s) : skip s = s := by
  cases s with
  | nil => rfl
  | cons c s =>
    refine List.dropWhile_cons_of_neg ?_
    obtain rfl | rfl | rfl := h c rfl
    all_goals decide

theorem ends_moreItems (vs : List Json) (rest : Str) : Ends (dumpMoreItems vs ++ rest) := by
  intro c hc
  cases vs with
  | nil =>
    cases hc
    exact .inr (.inl rfl)
  | cons v vs =>
    cases hc
    exact .inl rfl

theorem ends_moreMembers (es : List (Str × Json)) (rest : Str) :
    Ends (dumpMoreMembers es ++ rest) := by
  intro c hc
  cases es with
  | nil =>
    cases hc
    exact .inr (.inr rfl)
  | cons e es =>
    cases hc
    exact .inl rfl

/-! ## One step of the reader -/

theorem value_str (d : Dialect) (fuel room : Nat) (s rest : Str) :
    value d (fuel + 1) room (dumpStr s ++ rest) = some (.str (rereadStr s), rest) := by
  have htext : dumpStr s ++ rest = 34 :: (s.flatMap escapeChar ++ 34 :: rest) := by simp [dumpStr]
  rw [htext, value, List.head?_cons, if_pos rfl, List.tail_cons, string_dumpStr]
  rfl

theorem value_arr_nil (d : Dialect) (fuel room : Nat) (rest : Str) :
    value d (fuel + 1) room (dump (.arr []) ++ rest) =
      if room = 0 then none else some (.arr [], rest) := by
  rfl

theorem value_arr_cons (d : Dialect) (fuel room : Nat) (v : Json) (vs : List Json) (rest : Str) :
    value d (fuel + 1) room (dump (.arr (v :: vs)) ++ rest) =
      if room = 0 then none
      else (items d fuel (room - 1) (dump v ++ (dumpMoreItems vs ++ rest))).map fun r =>
        (.arr r.1, r.2) := by
  have hbegins := begins_dump v (dumpMoreItems vs ++ rest)
  have hskip := skip_of_begins hbegins
  have hclose : (dump v ++ (dumpMoreItems vs ++ rest)).head? ≠ some 93 := by
    obtain ⟨c, tail, hs, -, hc, -⟩ := hbegins
    rw [hs]
    exact fun h => hc (Option.some.inj h)
  rw [dump, dumpItems, List.cons_append, List.append_assoc, value, List.head?_cons,
    if_neg (by decide), if_pos rfl, List.tail_cons, hskip]
  rw [if_neg hclose]

theorem value_obj_nil (d : Dialect) (fuel room : Nat) (rest : Str) :
    value d (fuel + 1) room (dump (.obj []) ++ rest) =
      if room = 0 then none else some (object [], rest) := by
  rfl

/-- The text of one member. -/
def dumpMember (e : Str × Json) (s : Str) : Str := dumpStr e.1 ++ (58 :: 32 :: (dump e.2 ++ s))

theorem value_obj_cons (d : Dialect) (fuel room : Nat) (e : Str × Json) (es : List (Str × Json))
    (rest : Str) :
    value d (fuel + 1) room (dump (.obj (e :: es)) ++ rest) =
      if room = 0 then none
      else (members d fuel (room - 1) (dumpMember e (dumpMoreMembers es ++ rest))).map fun r =>
        (object r.1, r.2) := by
  have htext : dump (.obj (e :: es)) ++ rest =
      123 :: dumpMember e (dumpMoreMembers es ++ rest) := by
    obtain ⟨k, v⟩ := e
    simp [dump, dumpMembers, dumpMember, str]
  rw [htext, value, List.head?_cons, if_neg (by decide), if_neg (by decide),
    if_pos rfl, List.tail_cons]
  rfl

/-- After a value of an array comes the end or another one. -/
theorem items_dump (d : Dialect) {fuel room : Nat} {v w : Json} {vs : List Json} {rest : Str}
    (h : value d fuel room (dump v ++ (dumpMoreItems vs ++ rest)) =
      some (w, dumpMoreItems vs ++ rest)) :
    items d (fuel + 1) room (dump v ++ (dumpMoreItems vs ++ rest)) =
      match vs with
      | [] => some ([w], rest)
      | v' :: vs => (items d fuel room (dump v' ++ (dumpMoreItems vs ++ rest))).map fun r =>
        (w :: r.1, r.2) := by
  rw [items, h, Option.bind_some]
  dsimp only
  rw [skip_ends (ends_moreItems vs rest)]
  cases vs with
  | nil => rfl
  | cons v' vs =>
    have htext : dumpMoreItems (v' :: vs) ++ rest =
        44 :: 32 :: (dump v' ++ (dumpMoreItems vs ++ rest)) := by
      simp [dumpMoreItems, str]
    have hskip : skip (32 :: (dump v' ++ (dumpMoreItems vs ++ rest))) =
        dump v' ++ (dumpMoreItems vs ++ rest) :=
      (List.dropWhile_cons_of_pos (by decide)).trans (skip_of_begins (begins_dump v' _))
    rw [htext, List.head?_cons, if_neg (by decide), expect_eq_some.2 rfl, Option.bind_some, hskip]

/-- A member that was written is read, and then the others or the end. -/
theorem members_dump (d : Dialect) {fuel room : Nat} {e : Str × Json} {w : Json}
    {es : List (Str × Json)} {rest : Str}
    (h : value d fuel room (dump e.2 ++ (dumpMoreMembers es ++ rest)) =
      some (w, dumpMoreMembers es ++ rest)) :
    members d (fuel + 1) room (dumpMember e (dumpMoreMembers es ++ rest)) =
      match es with
      | [] => some ([(rereadStr e.1, w)], rest)
      | e' :: es => (members d fuel room (dumpMember e' (dumpMoreMembers es ++ rest))).map fun r =>
        ((rereadStr e.1, w) :: r.1, r.2) := by
  have hskip : skip (32 :: (dump e.2 ++ (dumpMoreMembers es ++ rest))) =
      dump e.2 ++ (dumpMoreMembers es ++ rest) :=
    (List.dropWhile_cons_of_pos (by decide)).trans (skip_of_begins (begins_dump e.2 _))
  have hkey : expect 34 (dumpMember e (dumpMoreMembers es ++ rest)) =
      some (e.1.flatMap escapeChar ++ 34 ::
        (58 :: 32 :: (dump e.2 ++ (dumpMoreMembers es ++ rest)))) :=
    expect_eq_some.2 (by simp [dumpMember, dumpStr])
  rw [members, hkey, Option.bind_some, string_dumpStr, Option.bind_some]
  rw [show skip (58 :: 32 :: (dump e.2 ++ (dumpMoreMembers es ++ rest))) =
    58 :: 32 :: (dump e.2 ++ (dumpMoreMembers es ++ rest)) from rfl, expect_eq_some.2 rfl,
    Option.bind_some, hskip, h, Option.bind_some]
  dsimp only
  rw [skip_ends (ends_moreMembers es rest)]
  cases es with
  | nil => rfl
  | cons e' es =>
    have htext : dumpMoreMembers (e' :: es) ++ rest =
        44 :: 32 :: dumpMember e' (dumpMoreMembers es ++ rest) := by
      obtain ⟨k, v⟩ := e'
      simp [dumpMoreMembers, dumpMember, str]
    rw [htext, List.head?_cons, if_neg (by decide), expect_eq_some.2 rfl, Option.bind_some]
    rfl

theorem members_none (d : Dialect) {fuel room : Nat} {e : Str × Json} {s : Str}
    (h : value d fuel room (dump e.2 ++ s) = none) :
    members d (fuel + 1) room (dumpMember e s) = none := by
  have hskip : skip (32 :: (dump e.2 ++ s)) = dump e.2 ++ s :=
    (List.dropWhile_cons_of_pos (by decide)).trans (skip_of_begins (begins_dump e.2 _))
  have hkey : expect 34 (dumpMember e s) =
      some (e.1.flatMap escapeChar ++ 34 :: (58 :: 32 :: (dump e.2 ++ s))) :=
    expect_eq_some.2 (by simp [dumpMember, dumpStr])
  rw [members, hkey, Option.bind_some, string_dumpStr, Option.bind_some]
  rw [show skip (58 :: 32 :: (dump e.2 ++ s)) = 58 :: 32 :: (dump e.2 ++ s) from rfl,
    expect_eq_some.2 rfl, Option.bind_some, hskip, h, Option.bind_none]

/-- The constants are read by a reader that takes them. -/
theorem value_constant (d : Dialect) (fuel room : Nat) (x : Double) (rest : Str)
    (h : ∀ negative mantissa shift hcanonical, x ≠ .finite negative mantissa shift hcanonical) :
    value d (fuel + 1) room (dumpFloat x ++ rest) =
      if d.constants then some (.float x, rest) else none := by
  obtain ⟨constants, maxDigits⟩ := d
  cases x with
  | finite negative mantissa shift hcanonical => exact absurd rfl (h _ _ _ hcanonical)
  | nan => cases constants with
    | true => rfl
    | false => rfl
  | infinity negative =>
    cases constants with
    | true => cases negative with
      | true => rfl
      | false => rfl
    | false => cases negative with
      | true => rfl
      | false => rfl

/-- There is no value in an empty text. -/
theorem value_nil (d : Dialect) (fuel room : Nat) : value d fuel room [] = none := by
  obtain ⟨constants, maxDigits⟩ := d
  cases fuel with
  | zero => rfl
  | succ fuel => cases constants with
    | true => rfl
    | false => rfl

/-! ## Whatever is read is the value -/

/-- An array after its bracket, and an object after its one. -/
def itemsText : List Json → Str → Str
  | [], _ => []
  | v :: vs, rest => dump v ++ (dumpMoreItems vs ++ rest)

def membersText : List (Str × Json) → Str → Str
  | [], _ => []
  | e :: es, rest => dumpMember e (dumpMoreMembers es ++ rest)

mutual

/-- No fuel and no room make a value's text another value, or a number one that is not taken. -/
theorem value_dump_sound (d : Dialect) :
    ∀ (v : Json) {fuel room : Nat} {rest : Str} {r : Json × Str},
    Ends rest → value d fuel room (dump v ++ rest) = some r → r = (reread v, rest) ∧ Readable d v
  | _, 0, _, _, _, _, h => by cases h
  | .null, fuel + 1, room, rest, r, _, h => by
    cases h
    exact ⟨rfl, trivial⟩
  | .bool b, fuel + 1, room, rest, r, _, h => by
    cases b with
    | true =>
      cases h
      exact ⟨rfl, trivial⟩
    | false =>
      cases h
      exact ⟨rfl, trivial⟩
  | .int n, fuel + 1, room, rest, r, hends, h => by
    rw [dump, value_number _ _ _ (startsNumber_decimalInt n rest), number_decimalInt d n hends] at h
    split at h
    · rename_i hdigits
      cases h
      exact ⟨rfl, hdigits⟩
    · cases h
  | .float (.finite negative mantissa shift hcanonical), fuel + 1, room, rest, r, hends, h => by
    rw [dump, dumpFloat, value_number _ _ _ (startsNumber_repr negative hcanonical rest),
      number_repr d negative hcanonical hends] at h
    cases h
    exact ⟨rfl, trivial⟩
  | .float .nan, fuel + 1, room, rest, r, _, h
  | .float (.infinity _), fuel + 1, room, rest, r, _, h => by
    rw [dump, value_constant d _ _ _ _ (by simp)] at h
    split at h
    · rename_i hconstants
      cases h
      exact ⟨rfl, hconstants⟩
    · cases h
  | .str s, fuel + 1, room, rest, r, _, h => by
    rw [dump, value_str] at h
    cases h
    exact ⟨rfl, trivial⟩
  | .arr [], fuel + 1, room, rest, r, _, h => by
    rw [value_arr_nil] at h
    split at h
    · cases h
    · cases h
      exact ⟨rfl, trivial⟩
  | .arr (v :: vs), fuel + 1, room, rest, r, hends, h => by
    rw [value_arr_cons] at h
    split at h
    · cases h
    · obtain ⟨r', hr', rfl⟩ := Option.map_eq_some_iff.1 h
      obtain ⟨rfl, hreadable⟩ := items_dump_sound d (v :: vs) hends hr'
      exact ⟨rfl, hreadable⟩
  | .obj [], fuel + 1, room, rest, r, _, h => by
    rw [value_obj_nil] at h
    split at h
    · cases h
    · cases h
      exact ⟨rfl, trivial⟩
  | .obj (e :: es), fuel + 1, room, rest, r, hends, h => by
    rw [value_obj_cons] at h
    split at h
    · cases h
    · obtain ⟨r', hr', rfl⟩ := Option.map_eq_some_iff.1 h
      obtain ⟨rfl, hreadable⟩ := members_dump_sound d (e :: es) hends hr'
      exact ⟨rfl, hreadable⟩

theorem items_dump_sound (d : Dialect) : ∀ (vs : List Json) {fuel room : Nat} {rest : Str}
    {r : List Json × Str}, Ends rest → items d fuel room (itemsText vs rest) = some r →
    r = (rereadItems vs, rest) ∧ ReadableItems d vs
  | _, 0, _, _, _, _, h => by cases h
  | [], fuel + 1, room, rest, r, _, h => by
    rw [itemsText, items, value_nil] at h
    cases h
  | v :: vs, fuel + 1, room, rest, r, hends, h => by
    rw [itemsText] at h
    cases hv : value d fuel room (dump v ++ (dumpMoreItems vs ++ rest)) with
    | none =>
      rw [items, hv] at h
      cases h
    | some w =>
      obtain ⟨rfl, hreadable⟩ := value_dump_sound d v (ends_moreItems vs rest) hv
      rw [items_dump d hv] at h
      cases vs with
      | nil =>
        cases h
        exact ⟨rfl, hreadable, trivial⟩
      | cons v' vs =>
        obtain ⟨r', hr', rfl⟩ := Option.map_eq_some_iff.1 h
        obtain ⟨rfl, hrest⟩ := items_dump_sound d (v' :: vs) hends hr'
        exact ⟨rfl, hreadable, hrest⟩

theorem members_dump_sound (d : Dialect) : ∀ (es : List (Str × Json))
    {fuel room : Nat} {rest : Str} {r : List (Str × Json) × Str}, Ends rest →
    members d fuel room (membersText es rest) = some r →
    r = (rereadEntries es, rest) ∧ ReadableEntries d es
  | _, 0, _, _, _, _, h => by cases h
  | [], fuel + 1, room, rest, r, _, h => by cases h
  | (k, v) :: es, fuel + 1, room, rest, r, hends, h => by
    rw [membersText] at h
    cases hv : value d fuel room (dump v ++ (dumpMoreMembers es ++ rest)) with
    | none =>
      rw [members_none d hv] at h
      cases h
    | some w =>
      obtain ⟨rfl, hreadable⟩ := value_dump_sound d v (ends_moreMembers es rest) hv
      rw [members_dump d hv] at h
      cases es with
      | nil =>
        cases h
        exact ⟨rfl, hreadable, trivial⟩
      | cons e es =>
        obtain ⟨r', hr', rfl⟩ := Option.map_eq_some_iff.1 h
        obtain ⟨rfl, hrest⟩ := members_dump_sound d (e :: es) hends hr'
        exact ⟨rfl, hreadable, hrest⟩

end

/-! ## Every value is read -/

mutual

/-- With room for its nesting, and fuel enough. -/
theorem value_dump_complete (d : Dialect) : ∀ (v : Json), Readable d v → ∃ n, ∀ fuel, n ≤ fuel →
    ∀ room rest, Ends rest → v.depth ≤ room →
      value d fuel room (dump v ++ rest) = some (reread v, rest)
  | .null, _ => ⟨1, fun fuel hfuel room rest _ _ => by
      obtain ⟨fuel, rfl⟩ : ∃ k, fuel = k + 1 := ⟨fuel - 1, by omega⟩
      obtain ⟨constants, maxDigits⟩ := d
      cases constants with
      | true => rfl
      | false => rfl⟩
  | .bool b, _ => ⟨1, fun fuel hfuel room rest _ _ => by
      obtain ⟨fuel, rfl⟩ : ∃ k, fuel = k + 1 := ⟨fuel - 1, by omega⟩
      obtain ⟨constants, maxDigits⟩ := d
      cases b with
      | true => cases constants with
        | true => rfl
        | false => rfl
      | false => cases constants with
        | true => rfl
        | false => rfl⟩
  | .int n, h => ⟨1, fun fuel hfuel room rest hends _ => by
      obtain ⟨fuel, rfl⟩ : ∃ k, fuel = k + 1 := ⟨fuel - 1, by omega⟩
      rw [dump, value_number _ _ _ (startsNumber_decimalInt n rest), number_decimalInt d n hends]
      exact if_pos h⟩
  | .float (.finite negative mantissa shift hcanonical), _ =>
    ⟨1, fun fuel hfuel room rest hends _ => by
      obtain ⟨fuel, rfl⟩ : ∃ k, fuel = k + 1 := ⟨fuel - 1, by omega⟩
      rw [dump, dumpFloat, value_number _ _ _ (startsNumber_repr negative hcanonical rest),
        number_repr d negative hcanonical hends]
      rfl⟩
  | .float .nan, h | .float (.infinity _), h => ⟨1, fun fuel hfuel room rest _ _ => by
      obtain ⟨fuel, rfl⟩ : ∃ k, fuel = k + 1 := ⟨fuel - 1, by omega⟩
      rw [dump, value_constant d _ _ _ _ (by simp)]
      exact if_pos h⟩
  | .str s, _ => ⟨1, fun fuel hfuel room rest _ _ => by
      obtain ⟨fuel, rfl⟩ : ∃ k, fuel = k + 1 := ⟨fuel - 1, by omega⟩
      rw [dump, value_str]
      rfl⟩
  | .arr [], _ => ⟨1, fun fuel hfuel room rest _ hdepth => by
      obtain ⟨fuel, rfl⟩ : ∃ k, fuel = k + 1 := ⟨fuel - 1, by omega⟩
      have hroom : room ≠ 0 := Nat.ne_of_gt hdepth
      rw [value_arr_nil, if_neg hroom]
      rfl⟩
  | .arr (v :: vs), h => by
    obtain ⟨n, hn⟩ := items_dump_complete d (v :: vs) (by simp) h
    refine ⟨n + 1, fun fuel hfuel room rest hends hdepth => ?_⟩
    obtain ⟨fuel, rfl⟩ : ∃ k, fuel = k + 1 := ⟨fuel - 1, by omega⟩
    have hroom : Json.depthItems (v :: vs) + 1 ≤ room := hdepth
    have hitems := hn fuel (Nat.le_of_succ_le_succ hfuel) (room - 1) rest hends (by omega)
    rw [itemsText] at hitems
    rw [value_arr_cons, if_neg (by omega), hitems]
    rfl
  | .obj [], _ => ⟨1, fun fuel hfuel room rest _ hdepth => by
      obtain ⟨fuel, rfl⟩ : ∃ k, fuel = k + 1 := ⟨fuel - 1, by omega⟩
      have hroom : room ≠ 0 := Nat.ne_of_gt hdepth
      rw [value_obj_nil, if_neg hroom]
      rfl⟩
  | .obj (e :: es), h => by
    obtain ⟨n, hn⟩ := members_dump_complete d (e :: es) (by simp) h
    refine ⟨n + 1, fun fuel hfuel room rest hends hdepth => ?_⟩
    obtain ⟨fuel, rfl⟩ : ∃ k, fuel = k + 1 := ⟨fuel - 1, by omega⟩
    have hroom : Json.depthEntries (e :: es) + 1 ≤ room := hdepth
    have hmembers := hn fuel (Nat.le_of_succ_le_succ hfuel) (room - 1) rest hends (by omega)
    rw [membersText] at hmembers
    rw [value_obj_cons, if_neg (by omega), hmembers]
    rfl

theorem items_dump_complete (d : Dialect) : ∀ (vs : List Json), vs ≠ [] → ReadableItems d vs →
    ∃ n, ∀ fuel, n ≤ fuel → ∀ room rest, Ends rest → Json.depthItems vs ≤ room →
      items d fuel room (itemsText vs rest) = some (rereadItems vs, rest)
  | [], hne, _ => absurd rfl hne
  | v :: vs, _, h => by
    obtain ⟨n, hn⟩ := value_dump_complete d v h.1
    have hrest : ∃ m, ∀ fuel, m ≤ fuel → ∀ room rest, Ends rest →
        Json.depthItems vs ≤ room → vs ≠ [] →
        items d fuel room (itemsText vs rest) = some (rereadItems vs, rest) := by
      by_cases hne : vs = []
      · exact ⟨0, fun _ _ _ _ _ _ h => absurd hne h⟩
      · obtain ⟨m, hm⟩ := items_dump_complete d vs hne h.2
        exact ⟨m, fun fuel hfuel room rest hends hdepth _ => hm fuel hfuel room rest hends hdepth⟩
    obtain ⟨m, hm⟩ := hrest
    refine ⟨max n m + 1, fun fuel hfuel room rest hends hdepth => ?_⟩
    obtain ⟨fuel, rfl⟩ : ∃ k, fuel = k + 1 := ⟨fuel - 1, by omega⟩
    have hle := Nat.le_of_succ_le_succ hfuel
    have hdepths : v.depth ≤ room ∧ Json.depthItems vs ≤ room := Nat.max_le.1 hdepth
    have hv := hn fuel (Nat.le_trans (Nat.le_max_left n m) hle) room _
      (ends_moreItems vs rest) hdepths.1
    have hvs := hm fuel (Nat.le_trans (Nat.le_max_right n m) hle) room rest hends hdepths.2
    rw [itemsText, items_dump d hv]
    cases vs with
    | nil => rfl
    | cons v' vs =>
      have hvs := hvs (by simp)
      rw [itemsText] at hvs
      dsimp only
      rw [hvs]
      rfl

theorem members_dump_complete (d : Dialect) : ∀ (es : List (Str × Json)), es ≠ [] →
    ReadableEntries d es → ∃ n, ∀ fuel, n ≤ fuel → ∀ room rest, Ends rest →
      Json.depthEntries es ≤ room →
      members d fuel room (membersText es rest) = some (rereadEntries es, rest)
  | [], hne, _ => absurd rfl hne
  | (k, v) :: es, _, h => by
    obtain ⟨n, hn⟩ := value_dump_complete d v h.1
    have hrest : ∃ m, ∀ fuel, m ≤ fuel → ∀ room rest, Ends rest →
        Json.depthEntries es ≤ room → es ≠ [] →
        members d fuel room (membersText es rest) = some (rereadEntries es, rest) := by
      by_cases hne : es = []
      · exact ⟨0, fun _ _ _ _ _ _ h => absurd hne h⟩
      · obtain ⟨m, hm⟩ := members_dump_complete d es hne h.2
        exact ⟨m, fun fuel hfuel room rest hends hdepth _ => hm fuel hfuel room rest hends hdepth⟩
    obtain ⟨m, hm⟩ := hrest
    refine ⟨max n m + 1, fun fuel hfuel room rest hends hdepth => ?_⟩
    obtain ⟨fuel, rfl⟩ : ∃ k, fuel = k + 1 := ⟨fuel - 1, by omega⟩
    have hle := Nat.le_of_succ_le_succ hfuel
    have hdepths : v.depth ≤ room ∧ Json.depthEntries es ≤ room := Nat.max_le.1 hdepth
    have hv := hn fuel (Nat.le_trans (Nat.le_max_left n m) hle) room _
      (ends_moreMembers es rest) hdepths.1
    have hes := hm fuel (Nat.le_trans (Nat.le_max_right n m) hle) room rest hends hdepths.2
    rw [membersText, members_dump d hv]
    cases es with
    | nil => rfl
    | cons e es =>
      have hes := hes (by simp)
      rw [membersText] at hes
      dsimp only
      rw [hes]
      rfl

end

/-! ## Whole texts -/

/-- A readable value is read back where there is room for its depth. -/
theorem loads_dump {d : Dialect} {room : Nat} {v : Json} (h : Readable d v)
    (hroom : v.depth ≤ room) :
    loads d room (dump v) = some (reread v) := by
  have hends : Ends [] := fun c hc => (by cases hc)
  obtain ⟨n, hn⟩ := value_dump_complete d v h
  have hread := hn (max n (2 * (dump v).length + 1)) (Nat.le_max_left _ _) room [] hends hroom
  have hbegins := begins_dump v []
  rw [List.append_nil] at hread hbegins
  rw [value_of_le (Nat.lt_succ_self _) (Nat.le_max_right _ _)] at hread
  rw [loads, skip_of_begins hbegins, hread]
  rfl

/-- And only a readable one is. -/
theorem readable_of_loads {d : Dialect} {room : Nat} {v w : Json}
    (h : loads d room (dump v) = some w) :
    Readable d v := by
  have hends : Ends [] := fun c hc => (by cases hc)
  have hbegins := begins_dump v []
  rw [List.append_nil] at hbegins
  rw [loads, skip_of_begins hbegins] at h
  obtain ⟨r, hr, -⟩ := Option.bind_eq_some_iff.1 h
  rw [← List.append_nil (dump v)] at hr
  exact (value_dump_sound d v hends hr).2

end JsonText

end Lib
