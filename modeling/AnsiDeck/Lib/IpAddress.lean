import AnsiDeck.Lib.Cidr
import AnsiDeck.Lib.Decimal

/-!
# IP addresses as text

What Python 3.12's `ipaddress.ip_address` reads and how `str` writes it again: an IPv4 address in
four decimal parts, an IPv6 address in eight hexadecimal ones, of which the longest run of zeros is
left out, perhaps with a scope after a `%`.
-/

namespace Lib

structure IpAddress where
  family : Family
  value : Nat
  scope : Option Str := none
  deriving DecidableEq

namespace IpAddress

def hexValue (c : Nat) : Option Nat :=
  if 48 ≤ c ∧ c ≤ 57 then some (c - 48)
  else if 65 ≤ c ∧ c ≤ 70 then some (c - 55)
  else if 97 ≤ c ∧ c ≤ 102 then some (c - 87)
  else none

/-- `'%x' % n`. -/
def hex (n : Nat) : Str := (Nat.toDigits 16 n).map Char.toNat

/-! ## Reading -/

/-- `_parse_octet`: no leading zeros, which some read as octal. -/
def octet (s : Str) : Option Nat :=
  let value := ofDigits (s.map (· - 48))
  if s ≠ [] && s.all (fun c => 48 ≤ c && c ≤ 57) && s.length ≤ 3
      && (s = [48] || s.head? ≠ some 48) && value ≤ 255
  then some value else none

def v4 (s : Str) : Option Nat := do
  let octets ← (s.splitOn 46).mapM octet
  if octets.length = 4 then some (octets.foldl (fun n o => 256 * n + o) 0) else none

/-- `_parse_hextet`. -/
def hextet (s : Str) : Option Nat := do
  let digits ← s.mapM hexValue
  if 1 ≤ s.length && s.length ≤ 4 then some (digits.foldl (fun n d => 16 * n + d) 0) else none

def hextets (parts : List Str) : Option Nat := do
  let words ← parts.mapM hextet
  some (words.foldl (fun n w => 65536 * n + w) 0)

/-- The places of a `::`, at neither end. -/
def skips (parts : List Str) : List Nat :=
  (List.range parts.length).filter fun i =>
    1 ≤ i && i + 1 < parts.length && parts.getD i [] = []

/-- The parts of an IPv6 address, with an IPv4 address at its end as two of them. -/
def withoutV4 (parts : List Str) : Option (List Str) :=
  let last := parts.getLastD []
  if last.contains 46 then do
    let a ← v4 last
    some (parts.dropLast ++ [hex (a / 65536), hex (a % 65536)])
  else some parts

def v6 (s : Str) : Option Nat := do
  let parts := s.splitOn 58
  if parts.length < 3 then none
  let parts ← withoutV4 parts
  if 9 < parts.length then none
  match skips parts with
  | [] => if parts.length = 8 then hextets parts else none
  | [skip] =>
    -- at an end, `::` leaves an empty part of its own
    let hi ← if parts.head? ≠ some [] then some skip else if skip = 1 then some 0 else none
    let after := parts.length - skip - 1
    let lo ← if parts.getLast? ≠ some [] then some after else if after = 1 then some 0 else none
    if 8 ≤ hi + lo then none
    let high ← hextets (parts.take hi)
    let low ← hextets (parts.drop (parts.length - lo))
    some (high * 65536 ^ (8 - hi) + low)
  | _ => none

/-- `ipaddress.ip_address(s)`, `none` where it raises `ValueError`. -/
def parse (s : Str) : Option IpAddress :=
  match v4 s with
  | some a => some { family := .v4, value := a }
  | none =>
    if s.contains 47 then none
    else match Str.partition (str "%") s with
    | none => (v6 s).map fun a => { family := .v6, value := a }
    | some (s, scope) =>
      if scope = [] || scope.contains 37 then none
      else (v6 s).map fun a => { family := .v6, value := a, scope := some scope }

/-! ## Writing -/

/-- The longest run of zeros, the first of several: where it starts and how long it is. `current` is
the run that the next word goes on with. -/
def longestZeros : List Nat → Nat → Nat × Nat → Nat × Nat → Nat × Nat
  | [], _, _, best => best
  | word :: words, i, current, best =>
    if word = 0 then
      let current := (if current.2 = 0 then i else current.1, current.2 + 1)
      longestZeros words (i + 1) current (if best.2 < current.2 then current else best)
    else longestZeros words (i + 1) (0, 0) best

/-- `_compress_hextets`. -/
def compress (words : List Nat) : List Str :=
  let (start, length) := longestZeros words 0 (0, 0) (0, 0)
  if 1 < length then
    (if start = 0 then [[]] else []) ++ (words.take start).map hex ++ [[]]
      ++ (words.drop (start + length)).map hex
      ++ (if start + length = words.length then [[]] else [])
  else words.map hex

/-- The parts of `2 ^ bits` each of a number, `count` of them, the highest first. -/
def parts (bits : Nat) (count : Nat) (value : Nat) : List Nat :=
  (List.range count).reverse.map fun i => value / 2 ^ (bits * i) % 2 ^ bits

/-- `str(address)`. -/
def text (address : IpAddress) : Str :=
  match address.family with
  | .v4 => (str ".").intercalate ((parts 8 4 address.value).map decimal)
  | .v6 =>
    let s := (str ":").intercalate (compress (parts 16 8 address.value))
    match address.scope with
    | none => s
    | some scope => s ++ str "%" ++ scope

example : (parse (str "2001:DB8:0:0:1::10.0.0.1")).map text = some (str "2001:db8::1:0:a00:1") := by
  decide

end IpAddress

end Lib
