import AnsiDeck.Lib.Dict
import AnsiDeck.Lib.FloatRepr
import AnsiDeck.Lib.Json
import AnsiDeck.Lib.Unicode
import AnsiDeck.Lib.Utf

/-!
# JSON as text

`json.loads` of a text and `json.dumps`. The reader takes more than RFC 8259's grammar (the
constants `NaN`, `Infinity` and `-Infinity`) and less (integers of at most so many digits, arrays
and objects that nest only so deep before the interpreter gives up); a `Dialect` says how much of
either, so that `rfc8259` is the same reader without them.

A string is read in two passes. The first gives its characters, each with whether it was written as
`\uXXXX`; `Utf.join` then makes one of two surrogates that were both written so.
-/

namespace Lib

/-- Whether the reader takes the constants, and the most digits an integer may have. -/
structure Dialect where
  constants : Bool
  maxDigits : Option Nat
  deriving DecidableEq

namespace Dialect

/-- Python's `json`. -/
def python : Dialect := ⟨true, some Unicode.maxStrDigits⟩

def rfc8259 : Dialect := ⟨false, none⟩

end Dialect

namespace JsonText

def isSpace (c : Nat) : Bool := c = 32 || c = 9 || c = 10 || c = 13

def isDigit (c : Nat) : Bool := 48 ≤ c && c ≤ 57

def skip (s : Str) : Str := s.dropWhile isSpace

/-- The text after its first character, which has to be `c`. -/
def expect (c : Nat) (s : Str) : Option Str := if s.head? = some c then some s.tail else none

/-! ## Strings -/

def hexDigit (c : Nat) : Option Nat :=
  if isDigit c then some (c - 48)
  else if 65 ≤ c && c ≤ 70 then some (c - 55)
  else if 97 ≤ c && c ≤ 102 then some (c - 87)
  else none

/-- The characters that are escaped by one letter, with the letters. -/
def escapes : List (Nat × Nat) :=
  [(34, 34), (92, 92), (47, 47), (8, 98), (12, 102), (10, 110), (13, 114), (9, 116)]

/-- What the letter after a backslash stands for. -/
def unescape (letter : Nat) : Option Nat := (escapes.find? fun e => e.2 = letter).map Prod.fst

/-- Where in a string the reader is: after a backslash, or with so many hexadecimal digits left. -/
inductive Within
  | plain
  | escape
  | hex (left value : Nat)

/-- The characters up to the closing quote, each with whether it was written as `\uXXXX`. -/
def units : Within → Str → Option (List (Nat × Bool) × Str)
  | _, [] => none
  | .plain, c :: s =>
    if c = 34 then some ([], s)
    else if c = 92 then units .escape s
    else if c < 32 then none
    else (units .plain s).map fun r => ((c, false) :: r.1, r.2)
  | .escape, c :: s =>
    if c = 117 then units (.hex 4 0) s
    else (unescape c).bind fun u => (units .plain s).map fun r => ((u, false) :: r.1, r.2)
  | .hex left value, c :: s =>
    (hexDigit c).bind fun d =>
      if left ≤ 1 then (units .plain s).map fun r => ((16 * value + d, true) :: r.1, r.2)
      else units (.hex (left - 1) (16 * value + d)) s

/-- The string after its opening quote. -/
def string (s : Str) : Option (Str × Str) := (units .plain s).map fun r => (Utf.join r.1, r.2)

/-! ## Numbers -/

/-- The digits of an integer's absolute value: no zero stands before another digit. -/
def whole (s : Str) : Option (Str × Str) :=
  if s.head? = some 48 then some ([48], s.tail)
  else
    let digits := s.takeWhile isDigit
    if digits = [] then none else some (digits, s.dropWhile isDigit)

/-- The digits after a point. A point with none after it is not the number's. -/
def fraction (s : Str) : Str × Str :=
  let digits := s.tail.takeWhile isDigit
  if s.head? = some 46 ∧ digits ≠ [] then (digits, s.tail.dropWhile isDigit) else ([], s)

def ofDigitChars (digits : Str) : Nat := ofDigits (digits.map (· - 48))

/-- The text without a sign at its front. -/
def unsigned (s : Str) : Str := if s.head? = some 45 ∨ s.head? = some 43 then s.tail else s

/-- What stands after an `e`, likewise only with a digit in it. -/
def exponent (s : Str) : Option Int × Str :=
  let digits := (unsigned s.tail).takeWhile isDigit
  if (s.head? = some 101 ∨ s.head? = some 69) ∧ digits ≠ [] then
    (some (if s.tail.head? = some 45 then -(ofDigitChars digits : Int) else ofDigitChars digits),
      (unsigned s.tail).dropWhile isDigit)
  else (none, s)

/-- A number with neither a fraction nor an exponent is an integer. -/
def number (d : Dialect) (s : Str) : Option (Json × Str) :=
  let negative := s.head? = some 45
  (whole (if negative then s.tail else s)).bind fun w =>
    let f := fraction w.2
    let e := exponent f.2
    if f.1 = [] ∧ e.1 = none then
      if d.maxDigits.all fun most => decide (w.1.length ≤ most) then
        some (.int (if negative then -(ofDigitChars w.1 : Int) else ofDigitChars w.1), w.2)
      else none
    else some (.float (.ofDecimal negative (ofDigitChars (w.1 ++ f.1))
      (e.1.getD 0 - f.1.length)), e.2)

/-! ## Values -/

def literals (constants : Bool) : List (Str × Json) :=
  [(str "null", .null), (str "true", .bool true), (str "false", .bool false)]
    ++ if constants then
        [(str "NaN", .float .nan), (str "Infinity", .float (.infinity false)),
          (str "-Infinity", .float (.infinity true))]
      else []

def literal (constants : Bool) (s : Str) : Option (Json × Str) :=
  ((literals constants).find? fun l => l.1.isPrefixOf s).map fun l => (l.2, s.drop l.1.length)

/-- An object's members in the order of their keys' first places, each with its last value. -/
def object (members : List (Str × Json)) : Json := .obj (Dict.ofList members).entries

mutual

/-- `scan_once`: the value at the front and what is after it. `room` is how deep arrays and objects
may still nest; the first argument is fuel (`value_of_le`). -/
def value (d : Dialect) : Nat → Nat → Str → Option (Json × Str)
  | 0, _, _ => none
  | fuel + 1, room, s =>
    if s.head? = some 34 then (string s.tail).map fun r => (.str r.1, r.2)
    else if s.head? = some 91 then
      if room = 0 then none
      else if (skip s.tail).head? = some 93 then some (.arr [], (skip s.tail).tail)
      else (items d fuel (room - 1) (skip s.tail)).map fun r => (.arr r.1, r.2)
    else if s.head? = some 123 then
      if room = 0 then none
      else if (skip s.tail).head? = some 125 then some (object [], (skip s.tail).tail)
      else (members d fuel (room - 1) (skip s.tail)).map fun r => (object r.1, r.2)
    else (literal d.constants s).or (number d s)

/-- An array's values from one of them on, with its closing bracket. -/
def items (d : Dialect) : Nat → Nat → Str → Option (List Json × Str)
  | 0, _, _ => none
  | fuel + 1, room, s =>
    (value d fuel room s).bind fun v =>
      if (skip v.2).head? = some 93 then some ([v.1], (skip v.2).tail)
      else (expect 44 (skip v.2)).bind fun s =>
        (items d fuel room (skip s)).map fun r => (v.1 :: r.1, r.2)

/-- An object's members likewise. -/
def members (d : Dialect) : Nat → Nat → Str → Option (List (Str × Json) × Str)
  | 0, _, _ => none
  | fuel + 1, room, s =>
    (expect 34 s).bind fun s => (string s).bind fun key =>
      (expect 58 (skip key.2)).bind fun s => (value d fuel room (skip s)).bind fun v =>
        if (skip v.2).head? = some 125 then some ([(key.1, v.1)], (skip v.2).tail)
        else (expect 44 (skip v.2)).bind fun s =>
          (members d fuel room (skip s)).map fun r => ((key.1, v.1) :: r.1, r.2)

end

/-- `json.loads` of a text, `none` where it raises. -/
def loads (d : Dialect) (room : Nat) (s : Str) : Option Json :=
  (value d (2 * s.length + 1) room (skip s)).bind fun r =>
    if skip r.2 = [] then some r.1 else none

/-! ## Bytes -/

inductive Encoding
  | utf8
  | utf8Sig
  | utf16
  | utf16Be
  | utf16Le
  | utf32
  | utf32Be
  | utf32Le
  deriving DecidableEq

/-- `json.detect_encoding`: by a byte order mark, else by where the first bytes are zero. -/
def detectEncoding (b : List Nat) : Encoding :=
  if [0, 0, 0xfe, 0xff].isPrefixOf b || [0xff, 0xfe, 0, 0].isPrefixOf b then .utf32
  else if [0xfe, 0xff].isPrefixOf b || [0xff, 0xfe].isPrefixOf b then .utf16
  else if [0xef, 0xbb, 0xbf].isPrefixOf b then .utf8Sig
  else match b with
    | b0 :: b1 :: b2 :: b3 :: _ =>
      if b0 = 0 then if b1 ≠ 0 then .utf16Be else .utf32Be
      else if b1 = 0 then if b2 ≠ 0 ∨ b3 ≠ 0 then .utf16Le else .utf32Le
      else .utf8
    | [b0, b1] => if b0 = 0 then .utf16Be else if b1 = 0 then .utf16Le else .utf8
    | _ => .utf8

/-- `b.decode(encoding, "surrogatepass")`, `none` where it raises. A mark is no part of the text. -/
def decode (b : List Nat) : Encoding → Option Str
  | .utf8 => Utf.utf8 .nothing b
  | .utf8Sig => Utf.utf8 .nothing (if [0xef, 0xbb, 0xbf].isPrefixOf b then b.drop 3 else b)
  | .utf16 =>
    if [0xfe, 0xff].isPrefixOf b then Utf.utf16 true (b.drop 2)
    else Utf.utf16 false (if [0xff, 0xfe].isPrefixOf b then b.drop 2 else b)
  | .utf16Be => Utf.utf16 true b
  | .utf16Le => Utf.utf16 false b
  | .utf32 =>
    if [0, 0, 0xfe, 0xff].isPrefixOf b then Utf.utf32 true (b.drop 4)
    else Utf.utf32 false (if [0xff, 0xfe, 0, 0].isPrefixOf b then b.drop 4 else b)
  | .utf32Be => Utf.utf32 true b
  | .utf32Le => Utf.utf32 false b

/-- The text that `json.loads` reads bytes as. -/
def text (b : List Nat) : Option Str := decode b (detectEncoding b)

/-- `json.loads` of bytes. -/
def loadsBytes (d : Dialect) (room : Nat) (b : List Nat) : Option Json :=
  (text b).bind (loads d room)

/-! ## Writing -/

def hexChar (n : Nat) : Nat := if n < 10 then 48 + n else 87 + n

/-- `\uXXXX`. -/
def escapeUnit (n : Nat) : Str :=
  [92, 117, hexChar (n / 4096 % 16), hexChar (n / 256 % 16), hexChar (n / 16 % 16),
    hexChar (n % 16)]

/-- A character inside quotes, in ASCII. A slash needs no backslash before it. -/
def escapeChar (c : Nat) : Str :=
  if 32 ≤ c ∧ c ≤ 126 ∧ c ≠ 34 ∧ c ≠ 92 then [c]
  else match escapes.find? fun e => e.1 = c with
    | some e => [92, e.2]
    | none =>
      if c < 0x10000 then escapeUnit c
      else escapeUnit (0xd800 + (c - 0x10000) / 0x400) ++
        escapeUnit (0xdc00 + (c - 0x10000) % 0x400)

def dumpStr (s : Str) : Str := 34 :: s.flatMap escapeChar ++ [34]

def dumpFloat : Double → Str
  | .nan => str "NaN"
  | .infinity negative => if negative then str "-Infinity" else str "Infinity"
  | .finite negative mantissa shift h => Double.repr negative mantissa shift h

mutual

/-- `json.dumps`. -/
def dump : Json → Str
  | .null => str "null"
  | .bool b => if b then str "true" else str "false"
  | .int n => decimalInt n
  | .float x => dumpFloat x
  | .str s => dumpStr s
  | .arr items => 91 :: dumpItems items
  | .obj entries => 123 :: dumpMembers entries

/-- An array after its opening bracket. -/
def dumpItems : List Json → Str
  | [] => [93]
  | v :: vs => dump v ++ dumpMoreItems vs

def dumpMoreItems : List Json → Str
  | [] => [93]
  | v :: vs => str ", " ++ dump v ++ dumpMoreItems vs

def dumpMembers : List (Str × Json) → Str
  | [] => [125]
  | (k, v) :: es => dumpStr k ++ str ": " ++ dump v ++ dumpMoreMembers es

def dumpMoreMembers : List (Str × Json) → Str
  | [] => [125]
  | (k, v) :: es => str ", " ++ dumpStr k ++ str ": " ++ dump v ++ dumpMoreMembers es

end

end JsonText

end Lib
