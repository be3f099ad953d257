import AnsiDeck.Lib.Dict
import AnsiDeck.Lib.Str
import AnsiDeck.Scrub.Patterns
import Mathlib.Data.Nat.Digits.Lemmas

/-!
# `Scrubber.scrub_event`

An event is JSON; a number counts by its `str`. Keys are scrubbed too; two that scrub to one text
are told apart by a `#n` suffix, so a secret that is a number can come back in the suffix of an
object with enough members, and nowhere else.
-/

namespace AnsiDeck.Scrub

open Lib

inductive Value
  | null
  | bool (b : Bool)
  | int (n : Int)
  | float (shown : Text)
  | str (s : Text)
  | arr (items : List Value)
  | obj (entries : List (Text × Value))

def Value.str? : Value → Option Text
  | .str s => some s
  | _ => none

mutual

/-- Every string value satisfies `P`, the members of every object `E`. -/
def Value.All (P : Text → Prop) (E : List (Text × Value) → Prop) : Value → Prop
  | .str s => P s
  | .arr items => Value.AllItems P E items
  | .obj entries => E entries ∧ Value.AllEntries P E entries
  | .null => True
  | .bool _ => True
  | .int _ => True
  | .float _ => True

def Value.AllItems (P : Text → Prop) (E : List (Text × Value) → Prop) : List Value → Prop
  | [] => True
  | v :: vs => Value.All P E v ∧ Value.AllItems P E vs

def Value.AllEntries (P : Text → Prop) (E : List (Text × Value) → Prop) :
    List (Text × Value) → Prop
  | [] => True
  | (_, v) :: es => Value.All P E v ∧ Value.AllEntries P E es

end

/-- Every key and every string value. -/
def Value.Strings (P : Text → Prop) (v : Value) : Prop :=
  v.All P fun entries => ∀ e ∈ entries, P e.1

/-! ## Keys -/

def decimal (n : Nat) : Text := ((Nat.digits 10 n).reverse).map (48 + ·)

/-- `str(n)` -/
def showInt (n : Int) : Text :=
  if n = 0 then txt "0" else if n < 0 then txt "-" ++ decimal n.natAbs else decimal n.natAbs

/-- `base`, then `base#n`, `base#n+1` and so on while the name is taken. One try more than there
are names to avoid is enough. -/
def freshKey (taken : List Text) (base : Text) : Nat → Text → Nat → Text
  | 0, newKey, _ => newKey
  | fuel + 1, newKey, n =>
    if newKey ∈ taken then freshKey taken base fuel (base ++ txt "#" ++ decimal n) (n + 1)
    else newKey

/-- The name a member gets, where `keys` are those of the object and `out` those already used. -/
def scrubKey (u : Unicode) (secrets keys out : List Text) (key : Text) : Text :=
  let base := scrubText u secrets key
  if base = key then key
  else freshKey (out ++ keys) base (out.length + keys.length) base 2

/-! ## Values -/

/-- `Scrubber._numbers` -/
def numbers (u : Unicode) (secrets : List Text) : List Text :=
  (secrets.map (strip u.isSpace)).filter (minSecretLen ≤ ·.length)

/-- `"\n".join(lines)` scrubbed as one text, then split again. -/
def scrubLines (u : Unicode) (secrets lines : List Text) : List Text :=
  let joined := [10].intercalate lines
  let scrubbed := scrubText u secrets joined
  if scrubbed = joined then lines else scrubbed.splitOn 10

/-- The texts of a list under a key that ends in `_lines`, where all of it are strings. -/
def lineList (key : Option Text) (items : List Value) : Option (List Text) :=
  if key.any (txt "_lines" <:+ ·) then items.mapM Value.str? else none

mutual

def scrubValue (u : Unicode) (secrets : List Text) (key : Option Text) : Value → Value
  | .str s => .str (scrubText u secrets s)
  | .obj entries => .obj (scrubDict u secrets (entries.map Prod.fst) ∅ entries).entries
  | .arr items =>
    match lineList key items with
    | some lines => .arr ((scrubLines u secrets lines).map .str)
    | none => .arr (scrubItems u secrets items)
  | .int n => if showInt n ∈ numbers u secrets then .str redacted else .int n
  | .float shown => if shown ∈ numbers u secrets then .str redacted else .float shown
  | .null => .null
  | .bool b => .bool b

def scrubItems (u : Unicode) (secrets : List Text) : List Value → List Value
  | [] => []
  | v :: vs => scrubValue u secrets none v :: scrubItems u secrets vs

/-- The members still to come, put into `out` under their new names. -/
def scrubDict (u : Unicode) (secrets keys : List Text) (out : Dict Text Value) :
    List (Text × Value) → Dict Text Value
  | [] => out
  | (key, v) :: rest =>
    scrubDict u secrets keys
      (out.set (scrubKey u secrets keys out.keys key) (scrubValue u secrets (some key) v)) rest

end

/-- `event.get(key)` -/
def Value.get (event : Value) (key : String) : Value :=
  match event with
  | .obj entries => (entries.lookup (txt key)).getD .null
  | _ => .null

def withheld (event : Value) : Value :=
  .obj [(txt "event", .str (txt "redaction_error")),
    (txt "stdout", .str (txt "[event withheld: output scrubber failed]")),
    (txt "uuid", event.get "uuid"),
    (txt "counter", event.get "counter")]

/-- `scrub_event`, where `raises` says which values are nested too deep for the interpreter. -/
def scrubEvent (u : Unicode) (raises : Value → Bool) (secrets : List Text) (event : Value) :
    Value :=
  if raises event then withheld event else scrubValue u secrets none event

end AnsiDeck.Scrub
