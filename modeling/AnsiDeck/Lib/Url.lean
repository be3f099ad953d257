import Mathlib.Data.List.Basic

/-!
# Percent-encoding, and the path a server sees

Python's `urllib.parse.quote` with `safe=""`, and what an HTTP server does with a request's raw
path: it decodes it, splits it at the slashes and removes the dot segments (`served`). Some servers
drop empty segments as well, which is the flag `collapse`.

Decoding and removing dot segments both go from left to right, so that a path's end can be read on
its own: `decode_slash` and `served_append`.
-/

namespace Lib

namespace Url

abbrev Text := List Char

abbrev Octets := List UInt8

/-- `text.encode()`. -/
def utf8 (text : Text) : Octets := text.flatMap String.utf8EncodeChar

/-! ## Encoding -/

/-- The characters that `quote` leaves alone. -/
def unreserved (c : Char) : Bool :=
  c.isAlphanum || c = '_' || c = '.' || c = '-' || c = '~'

def hexDigit (n : Nat) : Char := Char.ofNat (if n < 10 then 48 + n else 55 + n)

def percent (b : UInt8) : Text := ['%', hexDigit (b.toNat / 16), hexDigit (b.toNat % 16)]

def quoteChar (c : Char) : Text :=
  if unreserved c then [c] else (String.utf8EncodeChar c).flatMap percent

/-- `quote(text, safe="")`. -/
def quote (text : Text) : Text := text.flatMap quoteChar

/-! ## Decoding -/

def hexValue (b : UInt8) : Option Nat :=
  let n := b.toNat
  if 48 ≤ n ∧ n ≤ 57 then some (n - 48)
  else if 65 ≤ n ∧ n ≤ 70 then some (n - 55)
  else if 97 ≤ n ∧ n ≤ 102 then some (n - 87)
  else none

/-- The byte that `%` and two hexadecimal digits stand for. -/
def escape (a b c : UInt8) : Option UInt8 :=
  if a = 37 then do
    let x ← hexValue b
    let y ← hexValue c
    some (UInt8.ofNat (16 * x + y))
  else none

/-- Replaces each escape by its byte, and leaves a `%` that begins none. -/
def decode : Octets → Octets
  | [] => []
  | [a] => [a]
  | [a, b] => [a, b]
  | a :: b :: c :: rest =>
    match escape a b c with
    | some byte => byte :: decode rest
    | none => a :: decode (b :: c :: rest)

/-! ## Serving -/

def slash : UInt8 := 47

def dot : Octets := [46]

def dotdot : Octets := [46, 46]

/-- Removes the dot segments, over what is kept so far, the last first. -/
def clean (collapse : Bool) : List Octets → List Octets → List Octets
  | kept, [] => kept.reverse
  | kept, segment :: segments =>
    if segment = dot ∨ (segment = [] ∧ collapse = true) then clean collapse kept segments
    else if segment = dotdot then clean collapse kept.tail segments
    else clean collapse (segment :: kept) segments

/-- The segments of the path that a server looks up for a raw path, which begins with a slash. -/
def served (collapse : Bool) (raw : Octets) : List Octets :=
  clean collapse [] ((decode raw).splitOn slash).tail

/-- A segment that a server leaves alone. -/
structure Kept (segment : Octets) : Prop where
  ne_nil : segment ≠ []
  ne_dot : segment ≠ dot
  ne_dotdot : segment ≠ dotdot

/-- One that is not split either. -/
structure Plain (segment : Octets) : Prop extends Kept segment where
  noSlash : slash ∉ segment

/-! ## Lemmas -/

@[simp] theorem utf8_nil : utf8 [] = [] := rfl

@[simp] theorem utf8_append (a b : Text) : utf8 (a ++ b) = utf8 a ++ utf8 b := List.flatMap_append

@[simp] theorem utf8_cons (c : Char) (text : Text) :
    utf8 (c :: text) = String.utf8EncodeChar c ++ utf8 text := rfl

theorem utf8EncodeChar_ascii {c : Char} (h : c.toNat < 128) :
    String.utf8EncodeChar c = [UInt8.ofNat c.toNat] := by
  have hle : c.val.toNat ≤ 127 := Nat.le_of_lt_succ h
  simp only [String.utf8EncodeChar, if_pos hle]
  rfl

theorem decode_of_escape {a b c byte : UInt8} (h : escape a b c = some byte) (rest : Octets) :
    decode (a :: b :: c :: rest) = byte :: decode rest := by
  rw [decode, h]

/-- A byte that begins no escape. -/
theorem decode_cons {a : UInt8} {rest : Octets}
    (h : ∀ b c tail, rest = b :: c :: tail → escape a b c = none) :
    decode (a :: rest) = a :: decode rest := by
  match rest with
  | [] => rfl
  | [_] => rfl
  | b :: c :: tail => rw [decode, h b c tail rfl]

theorem decode_cons_ne {a : UInt8} (h : a ≠ 37) (rest : Octets) :
    decode (a :: rest) = a :: decode rest :=
  decode_cons fun _ _ _ _ => if_neg h

theorem escape_slash (a b : UInt8) : escape a b slash = none := by
  have hnone : hexValue slash = none := rfl
  unfold escape
  split
  · cases hexValue b with
    | none => rfl
    | some x => rw [hnone]; rfl
  · rfl

theorem escape_slash_mid (a c : UInt8) : escape a slash c = none := by
  unfold escape
  split
  · rfl
  · rfl

/-- No escape reaches over a slash. -/
theorem decode_slash : ∀ a b : Octets,
    decode (a ++ slash :: b) = decode a ++ slash :: decode b
  | [], b => decode_cons_ne (by decide) b
  | [x], b => by
    have hx : decode (x :: slash :: b) = x :: decode (slash :: b) := by
      refine decode_cons ?_
      rintro c d tail heq
      obtain ⟨rfl, -⟩ := List.cons.inj heq
      exact escape_slash_mid x d
    show decode (x :: slash :: b) = x :: slash :: decode b
    rw [hx, decode_cons_ne (by decide)]
  | [x, y], b => by
    have hx : decode (x :: y :: slash :: b) = x :: decode (y :: slash :: b) := by
      refine decode_cons ?_
      rintro c d tail heq
      obtain ⟨-, heq⟩ := List.cons.inj heq
      obtain ⟨rfl, -⟩ := List.cons.inj heq
      exact escape_slash x c
    have hy := decode_slash [y] b
    show decode (x :: y :: slash :: b) = x :: y :: slash :: decode b
    rw [hx, show y :: slash :: b = [y] ++ slash :: b from rfl, hy]
    rfl
  | x :: y :: z :: rest, b => by
    show decode (x :: y :: z :: (rest ++ slash :: b)) = _
    rw [decode, decode]
    cases escape x y z with
    | some byte =>
      show byte :: decode (rest ++ slash :: b) = byte :: (decode rest ++ slash :: decode b)
      rw [decode_slash rest b]
    | none =>
      show x :: decode ((y :: z :: rest) ++ slash :: b) = x :: (decode (y :: z :: rest) ++ _)
      rw [decode_slash (y :: z :: rest) b]
termination_by a => a.length

/-! ## What is quoted decodes to itself -/

theorem hexDigit_ascii {n : Nat} (h : n < 16) : (hexDigit n).toNat < 128 := by
  have hall : ∀ n < 16, (hexDigit n).toNat < 128 := by decide
  exact hall n h

theorem hexValue_hexDigit {n : Nat} (h : n < 16) :
    hexValue (UInt8.ofNat (hexDigit n).toNat) = some n := by
  have hall : ∀ n < 16, hexValue (UInt8.ofNat (hexDigit n).toNat) = some n := by decide
  exact hall n h

theorem decode_percent (b : UInt8) (rest : Octets) :
    decode (utf8 (percent b) ++ rest) = b :: decode rest := by
  have hhi : b.toNat / 16 < 16 := Nat.div_lt_of_lt_mul b.toNat_lt
  have hlo : b.toNat % 16 < 16 := Nat.mod_lt _ (by decide)
  have hbytes : utf8 (percent b) = [37, UInt8.ofNat (hexDigit (b.toNat / 16)).toNat,
      UInt8.ofNat (hexDigit (b.toNat % 16)).toNat] := by
    rw [percent, utf8_cons, utf8_cons, utf8_cons, utf8_nil, utf8EncodeChar_ascii (by decide),
      utf8EncodeChar_ascii (hexDigit_ascii hhi), utf8EncodeChar_ascii (hexDigit_ascii hlo)]
    rfl
  rw [hbytes]
  refine decode_of_escape ?_ rest
  rw [escape, if_pos rfl, hexValue_hexDigit hhi, hexValue_hexDigit hlo]
  show some (UInt8.ofNat (16 * (b.toNat / 16) + b.toNat % 16)) = some b
  rw [Nat.div_add_mod, UInt8.ofNat_toNat]

theorem decode_percents (bytes rest : Octets) :
    decode (utf8 (bytes.flatMap percent) ++ rest) = bytes ++ decode rest := by
  induction bytes with
  | nil => rfl
  | cons b bytes ih =>
    rw [List.flatMap_cons, utf8_append, List.append_assoc, decode_percent, ih]
    rfl

theorem unreserved_ascii {c : Char} (h : unreserved c = true) : c.toNat < 128 := by
  simp only [unreserved, Bool.or_eq_true, decide_eq_true_eq] at h
  rcases h with (((halnum | rfl) | rfl) | rfl) | rfl
  · replace halnum : (decide (c.val ≥ 'A'.val ∧ c.val ≤ 'Z'.val) ||
        (decide (c.val ≥ 'a'.val) && decide (c.val ≤ 'z'.val)) ||
        (decide (c.val ≥ '0'.val) && decide (c.val ≤ '9'.val))) = true := halnum
    simp only [Bool.or_eq_true, Bool.and_eq_true, decide_eq_true_eq, ge_iff_le,
      UInt32.le_iff_toNat_le] at halnum
    have hval : c.toNat = c.val.toNat := rfl
    have hZ : 'Z'.val.toNat = 90 := rfl
    have hz : 'z'.val.toNat = 122 := rfl
    have h9 : '9'.val.toNat = 57 := rfl
    omega
  · decide
  · decide
  · decide
  · decide

/-- An unreserved character is one byte, which neither begins an escape nor separates. -/
theorem unreserved_byte {c : Char} (h : unreserved c = true) :
    UInt8.ofNat c.toNat ≠ 37 ∧ UInt8.ofNat c.toNat ≠ slash := by
  have hall : ∀ n < 128, unreserved (Char.ofNat n) = true →
      UInt8.ofNat n ≠ 37 ∧ UInt8.ofNat n ≠ slash := by decide
  refine hall c.toNat (unreserved_ascii h) ?_
  rw [Char.ofNat_toNat]
  exact h

theorem decode_quote (text : Text) (rest : Octets) :
    decode (utf8 (quote text) ++ rest) = utf8 text ++ decode rest := by
  induction text with
  | nil => rfl
  | cons c text ih =>
    show decode (utf8 (quoteChar c ++ quote text) ++ rest) = _
    rw [utf8_append, List.append_assoc, utf8_cons, List.append_assoc]
    unfold quoteChar
    split
    · rename_i hfree
      rw [utf8_cons, utf8_nil, List.append_nil, utf8EncodeChar_ascii (unreserved_ascii hfree),
        List.singleton_append, List.singleton_append, decode_cons_ne (unreserved_byte hfree).1, ih]
    · rw [decode_percents, ih]

theorem decode_quote_self (text : Text) : decode (utf8 (quote text)) = utf8 text := by
  have h := decode_quote text []
  rw [List.append_nil] at h
  exact h.trans (List.append_nil _)

theorem quote_of_unreserved {text : Text} (h : ∀ c ∈ text, unreserved c = true) :
    quote text = text := by
  induction text with
  | nil => rfl
  | cons c text ih =>
    show quoteChar c ++ quote text = c :: text
    rw [quoteChar, if_pos (h c List.mem_cons_self), ih fun c hc => h c (List.mem_cons_of_mem _ hc)]
    rfl

theorem utf8_of_unreserved {text : Text} (h : ∀ c ∈ text, unreserved c = true) :
    utf8 text = text.map fun c => UInt8.ofNat c.toNat := by
  induction text with
  | nil => rfl
  | cons c text ih =>
    rw [utf8_cons, utf8EncodeChar_ascii (unreserved_ascii (h c List.mem_cons_self)),
      ih fun c hc => h c (List.mem_cons_of_mem _ hc)]
    rfl

theorem slash_notMem_of_unreserved {text : Text} (h : ∀ c ∈ text, unreserved c = true) :
    slash ∉ utf8 text := by
  rw [utf8_of_unreserved h, List.mem_map]
  rintro ⟨c, hc, heq⟩
  exact (unreserved_byte (h c hc)).2 heq

/-- A name that does not begin with a dot. -/
theorem plain_of_unreserved {c : Char} {text : Text} (h : ∀ d ∈ c :: text, unreserved d = true)
    (hc : c ≠ '.') : Plain (utf8 (c :: text)) := by
  have hfirst : UInt8.ofNat c.toNat ≠ 46 := by
    have hall : ∀ n < 128, Char.ofNat n ≠ '.' → UInt8.ofNat n ≠ 46 := by decide
    refine hall c.toNat (unreserved_ascii (h c List.mem_cons_self)) ?_
    rw [Char.ofNat_toNat]
    exact hc
  have hbytes := utf8_of_unreserved h
  refine ⟨⟨?_, ?_, ?_⟩, slash_notMem_of_unreserved h⟩
  · rw [hbytes]
    exact List.cons_ne_nil _ _
  · rw [hbytes]
    exact fun heq => hfirst (List.cons.inj heq).1
  · rw [hbytes]
    exact fun heq => hfirst (List.cons.inj heq).1

theorem utf8_inj_of_unreserved {a b : Text} (ha : ∀ c ∈ a, unreserved c = true)
    (hb : ∀ c ∈ b, unreserved c = true) (h : utf8 a = utf8 b) : a = b := by
  have hbyte : ∀ c d, unreserved c = true → unreserved d = true →
      UInt8.ofNat c.toNat = UInt8.ofNat d.toNat → c = d := by
    intro c d hc hd heq
    have hc' := unreserved_ascii hc
    have hd' := unreserved_ascii hd
    have hnat := congrArg UInt8.toNat heq
    rw [UInt8.toNat_ofNat', UInt8.toNat_ofNat', Nat.mod_eq_of_lt (by omega),
      Nat.mod_eq_of_lt (by omega)] at hnat
    exact Char.toNat_inj.mp hnat
  rw [utf8_of_unreserved ha, utf8_of_unreserved hb] at h
  induction a generalizing b with
  | nil =>
    cases b with
    | nil => rfl
    | cons d b => exact absurd h (by simp)
  | cons c a ih =>
    cases b with
    | nil => exact absurd h (by simp)
    | cons d b =>
      obtain ⟨hcd, htail⟩ := List.cons.inj h
      rw [hbyte c d (ha c List.mem_cons_self) (hb d List.mem_cons_self) hcd,
        ih (fun c hc => ha c (List.mem_cons_of_mem _ hc))
          (fun d hd => hb d (List.mem_cons_of_mem _ hd)) htail]

/-! ## A path's parts, as they are served -/

/-- Quoted names, joined with slashes, are split where the names have slashes of their own. -/
theorem splitOn_decode_quoted {names : List Text} (h : names ≠ []) :
    (decode (utf8 (['/'].intercalate (names.map quote)))).splitOn slash
      = names.flatMap fun name => (utf8 name).splitOn slash := by
  induction names with
  | nil => exact absurd rfl h
  | cons name names ih =>
    cases names with
    | nil =>
      show (decode (utf8 (quote name ++ []))).splitOn slash = _
      rw [List.append_nil, decode_quote_self]
      exact (List.append_nil _).symm
    | cons next names =>
      have hjoined : ['/'].intercalate ((name :: next :: names).map quote)
          = quote name ++ '/' :: ['/'].intercalate ((next :: names).map quote) := rfl
      have hbytes : utf8 (quote name ++ '/' :: ['/'].intercalate ((next :: names).map quote))
          = utf8 (quote name) ++ slash :: utf8 (['/'].intercalate ((next :: names).map quote)) :=
        utf8_append _ _
      rw [hjoined, hbytes, decode_slash, decode_quote_self, List.splitOn_append_cons_self,
        ih (List.cons_ne_nil _ _)]
      rfl

/-- Plain names are not split. -/
theorem splitOn_plain {names : List Text} (h : ∀ name ∈ names, Plain (utf8 name)) :
    (names.flatMap fun name => (utf8 name).splitOn slash) = names.map utf8 := by
  induction names with
  | nil => rfl
  | cons name names ih =>
    rw [List.flatMap_cons, List.splitOn_eq_singleton (h name List.mem_cons_self).noSlash,
      ih fun name hname => h name (List.mem_cons_of_mem _ hname)]
    rfl

/-- What has no slash goes to the last part. -/
theorem splitOn_append {a b : Octets} (hb : slash ∉ b) :
    ∃ front last, a.splitOn slash = front ++ [last] ∧
      (a ++ b).splitOn slash = front ++ [last ++ b] := by
  induction a with
  | nil => exact ⟨[], [], rfl, List.splitOn_eq_singleton hb⟩
  | cons x a ih =>
    obtain ⟨front, last, ha, hab⟩ := ih
    by_cases hx : x = slash
    · subst hx
      refine ⟨[] :: front, last, ?_, ?_⟩
      · rw [List.splitOn_cons_eq_if_modifyHead, if_pos (by simp), ha]
        rfl
      · rw [List.cons_append, List.splitOn_cons_eq_if_modifyHead, if_pos (by simp), hab]
        rfl
    · cases front with
      | nil =>
        refine ⟨[], x :: last, ?_, ?_⟩
        · rw [List.splitOn_cons_eq_if_modifyHead, if_neg (by simpa using hx), ha]
          rfl
        · rw [List.cons_append, List.splitOn_cons_eq_if_modifyHead, if_neg (by simpa using hx),
            hab]
          rfl
      | cons first front =>
        refine ⟨(x :: first) :: front, last, ?_, ?_⟩
        · rw [List.splitOn_cons_eq_if_modifyHead, if_neg (by simpa using hx), ha]
          rfl
        · rw [List.cons_append, List.splitOn_cons_eq_if_modifyHead, if_neg (by simpa using hx),
            hab]
          rfl

theorem clean_append (collapse : Bool) (kept xs ys : List Octets) :
    clean collapse kept (xs ++ ys) = clean collapse (clean collapse kept xs).reverse ys := by
  induction xs generalizing kept with
  | nil => rw [List.nil_append, clean, List.reverse_reverse]
  | cons x xs ih =>
    rw [List.cons_append, clean, clean]
    split
    · exact ih kept
    · split
      · exact ih kept.tail
      · exact ih (x :: kept)

theorem clean_kept (collapse : Bool) {segments : List Octets} (h : ∀ s ∈ segments, Kept s)
    (kept : List Octets) : clean collapse kept segments = kept.reverse ++ segments := by
  induction segments generalizing kept with
  | nil => rw [clean, List.append_nil]
  | cons s segments ih =>
    have hs := h s List.mem_cons_self
    rw [clean, if_neg, if_neg hs.ne_dotdot, ih fun s hs => h s (List.mem_cons_of_mem _ hs)]
    · simp
    · rintro (hdot | ⟨hnil, -⟩)
      · exact hs.ne_dot hdot
      · exact hs.ne_nil hnil

/-- What follows a slash is served below what comes before it, or where its dot segments lead. -/
theorem served_slash (collapse : Bool) (a b : Octets) :
    served collapse (a ++ slash :: b)
      = clean collapse (served collapse a).reverse ((decode b).splitOn slash) := by
  have hne : (decode a).splitOn slash ≠ [] := List.splitOn_ne_nil _ _
  unfold served
  rw [decode_slash, List.splitOn_append_cons_self, List.tail_append_of_ne_nil hne, clean_append]

end Url

end Lib
