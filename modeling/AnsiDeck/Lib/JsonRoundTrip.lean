import AnsiDeck.Lib.JsonWriter

/-!
# What comes back as it was

`json.dumps` writes printable ASCII, so that it makes no difference in which of the encodings of
`json.loads` the text is stored as bytes. A value comes back unchanged just as its strings and keys
do, and these do unless a high surrogate stands before a low one (`Joined`): no string that was
itself read from ASCII has such a pair.
-/

namespace Lib

namespace JsonText

/-! ## The bytes -/

def Printable (s : Str) : Prop := ∀ c ∈ s, 32 ≤ c ∧ c ≤ 126

instance : DecidablePred Printable := fun s => inferInstanceAs (Decidable (∀ c ∈ s, _))

theorem printable_append {s t : Str} (hs : Printable s) (ht : Printable t) :
    Printable (s ++ t) := by
  intro c hc
  obtain hc | hc := List.mem_append.1 hc
  · exact hs c hc
  · exact ht c hc

theorem printable_cons {c : Nat} {s : Str} (hc : 32 ≤ c ∧ c ≤ 126) (hs : Printable s) :
    Printable (c :: s) := List.forall_mem_cons.2 ⟨hc, hs⟩

theorem printable_nil : Printable [] := fun _ hc => (by cases hc)

theorem printable_decimal (n : Nat) : Printable (decimal n) := fun _ hc => by
  have hdigit := digit_of_mem_decimal hc
  omega

theorem printable_decimalInt (n : Int) : Printable (decimalInt n) := by
  cases n with
  | ofNat n => exact printable_decimal n
  | negSucc n => exact printable_cons (by decide) (printable_decimal _)

theorem printable_replicate (n : Nat) : Printable (List.replicate n 48) := fun c hc => by
  rw [List.eq_of_mem_replicate hc]
  decide

theorem printable_take {s : Str} (h : Printable s) (n : Nat) : Printable (s.take n) :=
  fun c hc => h c (List.mem_of_mem_take hc)

theorem printable_drop {s : Str} (h : Printable s) (n : Nat) : Printable (s.drop n) :=
  fun c hc => h c (List.mem_of_mem_drop hc)

theorem printable_exponentText (e : Int) : Printable (Double.exponentText e) := by
  rw [Double.exponentText]
  refine printable_append (printable_append ?_ ?_) ?_
  · decide
  · split
    · decide
    · decide
  · split
    · exact printable_cons (by decide) (printable_decimal _)
    · exact printable_decimal _

theorem printable_layOut (form : DecimalForm) : Printable (Double.layOut form) := by
  have hdigits := printable_decimal form.coefficient
  rw [Double.layOut]
  split
  · split
    · exact printable_append (printable_append (by decide) (printable_replicate _)) hdigits
    · split
      · exact printable_append (printable_append hdigits (printable_replicate _)) (by decide)
      · exact printable_append (printable_append (printable_take hdigits _) (by decide))
          (printable_drop hdigits _)
  · refine printable_append (printable_append (printable_take hdigits _) ?_)
      (printable_exponentText _)
    split
    · exact printable_nil
    · exact printable_cons (by decide) (printable_drop hdigits _)

theorem printable_dumpFloat (x : Double) : Printable (dumpFloat x) := by
  cases x with
  | nan => decide
  | infinity negative =>
    cases negative with
    | false => decide
    | true => decide
  | finite negative mantissa shift h =>
    refine printable_append ?_ (printable_layOut _)
    split
    · decide
    · exact printable_nil

theorem printable_hexChar {n : Nat} (h : n < 16) : 32 ≤ hexChar n ∧ hexChar n ≤ 126 := by
  rw [hexChar]
  split <;> omega

theorem printable_escapeUnit (n : Nat) : Printable (escapeUnit n) := by
  have hdigit (k : Nat) := printable_hexChar (Nat.mod_lt k (y := 16) (by decide))
  exact printable_cons (by decide) (printable_cons (by decide) (printable_cons (hdigit _)
    (printable_cons (hdigit _)
      (printable_cons (hdigit _) (printable_cons (hdigit _) printable_nil)))))

theorem printable_escapes : ∀ e ∈ escapes, Printable [92, e.2] := by decide

theorem printable_escapeChar (c : Nat) : Printable (escapeChar c) := by
  rw [escapeChar]
  split
  · rename_i hplain
    exact printable_cons ⟨hplain.1, hplain.2.1⟩ printable_nil
  · split
    · rename_i e hfind
      exact printable_escapes e (List.mem_of_find?_eq_some hfind)
    · split
      · exact printable_escapeUnit c
      · exact printable_append (printable_escapeUnit _) (printable_escapeUnit _)

theorem printable_dumpStr (s : Str) : Printable (dumpStr s) := by
  refine printable_append (printable_cons (by decide) fun c hc => ?_) (by decide)
  obtain ⟨x, -, hx⟩ := List.mem_flatMap.1 hc
  exact printable_escapeChar x c hx

mutual

theorem printable_dump : ∀ v : Json, Printable (dump v)
  | .null => by decide
  | .bool false => by decide
  | .bool true => by decide
  | .int n => printable_decimalInt n
  | .float x => printable_dumpFloat x
  | .str s => printable_dumpStr s
  | .arr [] => by decide
  | .arr (v :: vs) =>
    printable_cons (by decide) (printable_append (printable_dump v) (printable_dumpMoreItems vs))
  | .obj [] => by decide
  | .obj ((k, v) :: es) =>
    printable_cons (by decide) (printable_append (printable_append
      (printable_append (printable_dumpStr k) (by decide)) (printable_dump v))
      (printable_dumpMoreMembers es))

theorem printable_dumpMoreItems : ∀ vs : List Json, Printable (dumpMoreItems vs)
  | [] => by decide
  | v :: vs =>
    printable_append (printable_append (by decide) (printable_dump v)) (printable_dumpMoreItems vs)

theorem printable_dumpMoreMembers : ∀ es : List (Str × Json), Printable (dumpMoreMembers es)
  | [] => by decide
  | (k, v) :: es =>
    printable_append (printable_append (printable_append
      (printable_append (by decide) (printable_dumpStr k)) (by decide)) (printable_dump v))
      (printable_dumpMoreMembers es)

end

/-- No mark of an encoding, and no zero byte. -/
theorem detectEncoding_printable {s : Str} (h : Printable s) : detectEncoding s = .utf8 := by
  have hbyte {b : Nat} (hb : b ∈ s) : 0 < b ∧ b < 0x80 := by
    have := h b hb
    omega
  have hmark {b : Nat} {mark : List Nat} (hb : b = 0 ∨ 0x80 ≤ b) :
      (b :: mark).isPrefixOf s = false := by
    rw [Bool.eq_false_iff]
    intro hmark
    obtain ⟨rest, hrest⟩ := List.isPrefixOf_iff_prefix.1 hmark
    have hmem : b ∈ s := by
      rw [← hrest]
      exact List.mem_cons_self
    have := hbyte hmem
    omega
  unfold detectEncoding
  rw [hmark (.inl rfl), hmark (.inr (by decide)), hmark (.inr (by decide)),
    hmark (.inr (by decide)), hmark (.inr (by decide))]
  rcases s with _ | ⟨b0, _ | ⟨b1, _ | ⟨b2, _ | ⟨b3, rest⟩⟩⟩⟩
  · rfl
  · rfl
  · have h0 := (hbyte (b := b0) (by simp)).1
    have h1 := (hbyte (b := b1) (by simp)).1
    show (if b0 = 0 then _ else if b1 = 0 then _ else _) = Encoding.utf8
    rw [if_neg (by omega), if_neg (by omega)]
  · rfl
  · have h0 := (hbyte (b := b0) (by simp)).1
    have h1 := (hbyte (b := b1) (by simp)).1
    show (if b0 = 0 then _ else if b1 = 0 then _ else _) = Encoding.utf8
    rw [if_neg (by omega), if_neg (by omega)]

theorem text_printable {s : Str} (h : Printable s) : text s = some s := by
  rw [text, detectEncoding_printable h]
  refine Utf.utf8_ascii (fun c hc => ?_) rfl
  have := h c hc
  omega

/-! ## The strings -/

/-- A string of characters, of surrogates at most some that are no pair. -/
structure Joined (s : Str) : Prop where
  chars : ∀ c ∈ s, c < 0x110000
  apart : s.IsChain fun a b => ¬ (Utf.isHigh a = true ∧ Utf.isLow b = true)

theorem written_small {c : Nat} (h : c < 0x10000) : ∃ escaped, written c = [(c, escaped)] := by
  by_cases hplain : 32 ≤ c ∧ c ≤ 126 ∨ (escapes.find? fun e => e.1 = c).isSome = true
  · exact ⟨false, if_pos hplain⟩
  · exact ⟨true, (if_neg hplain).trans (if_pos h)⟩

theorem written_large {c : Nat} (h : 0x10000 ≤ c) (h' : c < 0x110000) :
    written c = [(0xd800 + (c - 0x10000) / 0x400, true),
    (0xdc00 + (c - 0x10000) % 0x400, true)] := by
  have hescapes : (escapes.find? fun e => e.1 = c).isSome = false := by
    rw [Option.isSome_eq_false_iff, Option.isNone_iff_eq_none, List.find?_eq_none]
    have hsmall : ∀ e ∈ escapes, e.1 < 0x10000 := by decide
    intro e he heq
    have hkey : e.1 = c := by simpa using heq
    have := hsmall e he
    omega
  have hmod : (0xd800 + (c - 0x10000) / 0x400) % 0x10000 = 0xd800 + (c - 0x10000) / 0x400 := by
    omega
  rw [written, if_neg, if_neg (by omega), hmod]
  rintro (hplain | hescape)
  · omega
  · rw [hescapes] at hescape
    cases hescape

/-- What stands first is a low surrogate only where the string begins with one. -/
theorem head_written {s : Str} (hchars : ∀ c ∈ s, c < 0x110000) {u : Nat × Bool}
    (h : (s.flatMap written).head? = some u)
    (hlow : Utf.isLow u.1 = true) : s.head? = some u.1 := by
  cases s with
  | nil => cases h
  | cons c s =>
    by_cases hc : c < 0x10000
    · obtain ⟨escaped, hwritten⟩ := written_small hc
      rw [List.flatMap_cons, hwritten] at h
      cases h
      rfl
    · have hc' := hchars c List.mem_cons_self
      rw [List.flatMap_cons, written_large (Nat.le_of_not_lt hc) hc'] at h
      cases h
      rw [Utf.isLow] at hlow
      simp only [Bool.and_eq_true, decide_eq_true_eq] at hlow
      omega

theorem join_cons {u : Nat × Bool} {us : List (Nat × Bool)}
    (h : ∀ v, us.head? = some v → ¬ (Utf.isHigh u.1 = true ∧ Utf.isLow v.1 = true)) :
    Utf.join (u :: us) = u.1 :: Utf.join us := by
  cases us with
  | nil => rfl
  | cons v us =>
    rw [Utf.join, if_neg]
    intro hpair
    simp only [Bool.and_eq_true] at hpair
    exact h v rfl ⟨hpair.1.2, hpair.2⟩

theorem join_pair {high low : Nat} (hhigh : Utf.isHigh high = true) (hlow : Utf.isLow low = true)
    (us : List (Nat × Bool)) :
    Utf.join ((high, true) :: (low, true) :: us) = Utf.pair high low :: Utf.join us := by
  rw [Utf.join, hhigh, hlow]
  exact if_pos rfl

/-- A character that takes two escapes comes back from them. -/
theorem join_large {c : Nat} (h : 0x10000 ≤ c) (h' : c < 0x110000) (us : List (Nat × Bool)) :
    Utf.join (written c ++ us) = c :: Utf.join us := by
  have hhigh : Utf.isHigh (0xd800 + (c - 0x10000) / 0x400) = true := by
    rw [Utf.isHigh]
    simp only [Bool.and_eq_true, decide_eq_true_eq]
    omega
  have hlow : Utf.isLow (0xdc00 + (c - 0x10000) % 0x400) = true := by
    rw [Utf.isLow]
    simp only [Bool.and_eq_true, decide_eq_true_eq]
    omega
  have hchar : Utf.pair (0xd800 + (c - 0x10000) / 0x400) (0xdc00 + (c - 0x10000) % 0x400) = c := by
    unfold Utf.pair
    omega
  rw [written_large h h', List.cons_append, List.singleton_append, join_pair hhigh hlow, hchar]

theorem rereadStr_eq {s : Str} (h : Joined s) : rereadStr s = s := by
  obtain ⟨hchars, hapart⟩ := h
  rw [rereadStr]
  induction s with
  | nil => rfl
  | cons c s ih =>
    rw [List.forall_mem_cons] at hchars
    have hrest := ih hchars.2 hapart.of_cons
    rw [List.flatMap_cons]
    by_cases hc : c < 0x10000
    · obtain ⟨escaped, hwritten⟩ := written_small hc
      rw [hwritten, List.singleton_append, join_cons, hrest]
      rintro v hv ⟨hhigh, hlow⟩
      have hhead := head_written hchars.2 hv hlow
      cases s with
      | nil => cases hhead
      | cons d s =>
        cases hhead
        exact (List.isChain_cons_cons.1 hapart).1 ⟨hhigh, hlow⟩
    · rw [join_large (Nat.le_of_not_lt hc) hchars.1, hrest]

/-! ## The values -/

/-- A value of Python's whose strings and keys come back. -/
structure Plain (v : Json) : Prop where
  keyed : Keyed v
  strings : ∀ k s, Json.At k v (.str s) → Joined s
  keys : ∀ k entries, Json.At k v (.obj entries) → ∀ e ∈ entries, Joined e.1

theorem Plain.item {items : List Json} (h : Plain (.arr items)) {v : Json}
    (hv : v ∈ items) : Plain v :=
  ⟨fun k _ hat => h.keyed (k + 1) _ (.item hv hat),
    fun k _ hat => h.strings (k + 1) _ (.item hv hat), fun k _ hat =>
      h.keys (k + 1) _ (.item hv hat)⟩

theorem Plain.member {entries : List (Str × Json)} (h : Plain (.obj entries)) {e : Str × Json}
    (he : e ∈ entries) : Plain e.2 :=
  ⟨fun k _ hat => h.keyed (k + 1) _ (.member he hat),
    fun k _ hat => h.strings (k + 1) _ (.member he hat),
    fun k _ hat => h.keys (k + 1) _ (.member he hat)⟩

theorem plain_str {s : Str} (h : Joined s) : Plain (.str s) where
  keyed := keyed_scalar (by simp) (by simp)
  strings k t hat := by
    cases hat
    exact h
  keys k entries hat := by cases hat

theorem plain_arr {items : List Json} (h : ∀ v ∈ items, Plain v) : Plain (.arr items) where
  keyed := keyed_arr fun v hv => (h v hv).keyed
  strings k s hat := by
    cases hat with
    | item hv hat => exact (h _ hv).strings _ _ hat
  keys k entries hat := by
    cases hat with
    | item hv hat => exact (h _ hv).keys _ _ hat

theorem plain_obj {entries : List (Str × Json)} (hnodup : (entries.map Prod.fst).Nodup)
    (hkeys : ∀ e ∈ entries, Joined e.1) (h : ∀ e ∈ entries, Plain e.2) : Plain (.obj entries) where
  keyed := keyed_obj hnodup fun e he => (h e he).keyed
  strings k s hat := by
    cases hat with
    | member he hat => exact (h _ he).strings _ _ hat
  keys k es hat := by
    cases hat with
    | here => exact hkeys
    | member he hat => exact (h _ he).keys _ _ hat

mutual

theorem reread_eq : ∀ {v : Json}, Plain v → reread v = v
  | .null, _ | .bool _, _ | .int _, _ | .float _, _ => rfl
  | .str s, h => congrArg Json.str (rereadStr_eq (h.strings 0 s .here))
  | .arr items, h => congrArg Json.arr (rereadItems_eq fun v hv => h.item hv)
  | .obj entries, h => by
    have hentries := rereadEntries_eq (h.keys 0 entries .here) fun e he => h.member he
    show object (rereadEntries entries) = .obj entries
    rw [hentries, object, Dict.entries_ofList (h.keyed 0 entries .here)]

theorem rereadItems_eq : ∀ {items : List Json}, (∀ v ∈ items, Plain v) → rereadItems items = items
  | [], _ => rfl
  | v :: vs, h => by
    rw [List.forall_mem_cons] at h
    rw [rereadItems, reread_eq h.1, rereadItems_eq h.2]

theorem rereadEntries_eq : ∀ {entries : List (Str × Json)}, (∀ e ∈ entries, Joined e.1) →
    (∀ e ∈ entries, Plain e.2) → rereadEntries entries = entries
  | [], _, _ => rfl
  | (k, v) :: es, hkeys, h => by
    rw [List.forall_mem_cons] at hkeys h
    rw [rereadEntries, rereadStr_eq hkeys.1, reread_eq h.1, rereadEntries_eq hkeys.2 h.2]

end

/-- What was written as bytes is read from them. -/
theorem loadsBytes_dump {d : Dialect} {room : Nat} {v : Json} (hplain : Plain v) (h : Readable d v)
    (hroom : v.depth ≤ room) : loadsBytes d room (dump v) = some v := by
  rw [loadsBytes, text_printable (printable_dump v), Option.bind_some, loads_dump h hroom,
    reread_eq hplain]

end JsonText

end Lib
