import AnsiDeck.Lib.JsonReader
import AnsiDeck.Lib.Regex
import AnsiDeck.RunLog

/-!
# JSON from untrusted places

`app.json_limits`: how deep arrays and objects nest is found by a scan of the bytes, and what nests
too deep is refused before `json.loads` would recurse into it. The scan looks for ASCII's quotes,
backslashes and brackets whatever the encoding is; `json.loads` first finds out the encoding.
-/

namespace AnsiDeck

namespace JsonLimits

open Lib (Json Str)

/-- `[^"\\]|\\.?`: a byte that stands for itself, or a backslash and the byte after it. -/
def stringPart : Lib.Regex Nat Empty :=
  .alt (.one fun c => c ≠ 34 && c ≠ 92) (.seq (.one (· = 92)) (.opt (.one fun _ => true)))

/-- `_STRINGS`: `"(?:[^"\\]|\\.?)*+(?:"|\Z)`. -/
def strings : Lib.Pattern Nat Empty where
  regex := .seq (.one (· = 34)) (.seq (.possessive stringPart) (.alt (.one (· = 34)) .atEnd))
  solid := by decide

/-- What `_NOT_BRACKETS` leaves. -/
def isBracket (c : Nat) : Bool := c = 91 || c = 93 || c = 123 || c = 125

/-- `_DELTA`. -/
def delta (c : Nat) : Int := if c = 91 ∨ c = 123 then 1 else -1

/-- `max(accumulate((_DELTA[b] for b in brackets), initial=n))`. -/
def highest (n : Int) : List Nat → Int
  | [] => n
  | c :: s => max n (highest (n + delta c) s)

/-- How deep arrays and objects nest. -/
def nestingDepth (raw : List Nat) : Int :=
  highest 0 ((strings.sub (fun _ => []) raw).filter isBracket)

/-- `bytes | str`. -/
inductive Raw
  | bytes (b : Bytes)
  | text (s : Str)

/-- `raw.encode()` of a text, `none` where it raises. -/
def Raw.data : Raw → Option (List Nat)
  | .bytes b => some (b.map UInt8.toNat)
  | .text s => Lib.Utf.encode s

/-- `TooDeep`, or the `ValueError` or `RecursionError` of reading the text. -/
inductive Refusal
  | tooDeep
  | invalid
  deriving DecidableEq, Repr

/-- The bytes that `json.loads` is called with. -/
def passedOn (raw : Raw) (maxDepth : Int) : Except Refusal (List Nat) :=
  match raw.data with
  | none => .error .invalid
  | some data => if nestingDepth data > maxDepth then .error .tooDeep else .ok data

/-- `json.loads` where the interpreter lets it recurse so deep. -/
def loads (recursion : Nat) (data : List Nat) : Except Refusal Json :=
  match Lib.JsonText.loadsBytes .python recursion data with
  | none => .error .invalid
  | some v => .ok v

def loadsBounded (recursion : Nat) (raw : Raw) (maxDepth : Int) : Except Refusal Json := do
  loads recursion (← passedOn raw maxDepth)

end JsonLimits

end AnsiDeck
