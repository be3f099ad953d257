import AnsiDeck.Lib.Str

/-!
# Base64

`base64.b64decode(s, validate=True)`, which takes whole groups of four characters of the alphabet
only, the last one perhaps padded, and `base64.b64encode`. A byte is a number below 256.
-/

namespace Lib

namespace Base64

def alphabet : Str := str "ABCDEFGHIJKLMNOPQRSTUVWXYZabcdefghijklmnopqrstuvwxyz0123456789+/"

/-- The six bits that a character stands for. -/
def bits (c : Nat) : Option Nat :=
  if c ∈ alphabet then some (alphabet.idxOf c) else none

def char (n : Nat) : Nat := alphabet.getD n 0

/-- The bytes of a group, or of a padded last one. -/
def group (a b c d : Nat) (last : Bool) : Option (List Nat) := do
  let x := 4 * (← bits a) + (← bits b) / 16
  if last && c = 61 && d = 61 then some [x]
  else do
    let y := (← bits b) % 16 * 16 + (← bits c) / 4
    if last && d = 61 then some [x, y] else some [x, y, (← bits c) % 4 * 64 + (← bits d)]

/-- `none` where it raises `binascii.Error`. -/
def decode : Str → Option (List Nat)
  | [] => some []
  | a :: b :: c :: d :: rest => do
    let bytes ← group a b c d rest.isEmpty
    some (bytes ++ (← decode rest))
  | _ => none

def encode : List Nat → Str
  | [] => []
  | [a] => [char (a / 4), char (a % 4 * 16), 61, 61]
  | [a, b] => [char (a / 4), char (a % 4 * 16 + b / 16), char (b % 16 * 4), 61]
  | a :: b :: c :: rest =>
    char (a / 4) :: char (a % 4 * 16 + b / 16) :: char (b % 16 * 4 + c / 64) :: char (c % 64)
      :: encode rest

example : decode (str "AAAAC3NzaA==") = some [0, 0, 0, 11, 115, 115, 104] := by decide

example : encode [0, 0, 0, 11, 115, 115, 104] = str "AAAAC3NzaA==" := by decide

end Base64

end Lib
