import AnsiDeck.Lib.Str

/-!
# Splitting a command line

`shlex.split`: words between white space, with quotes and backslashes as a POSIX shell has them.
Nothing is expanded. `shlex.quote` makes one word of a text.
-/

namespace Lib

namespace Shlex

/-- Where the reader stands. -/
inductive Mode
  | blank
  | word
  | quote (q : Nat)
  /-- After a backslash, in a word or within these quotes. -/
  | escape (within : Option Nat)
  deriving DecidableEq

def isBlank (c : Nat) : Bool := c = 32 || c = 9 || c = 13 || c = 10

def isQuote (c : Nat) : Bool := c = 39 || c = 34

/-- The words of what is left, after what has been read of one. Within double quotes a backslash
stands for itself unless a quote or another one follows. -/
def words : Mode → Str → Str → Option (List Str)
  | .blank, _, [] => some []
  | .word, token, [] => some [token]
  | .quote _, _, [] => none
  | .escape _, _, [] => none
  | .blank, _, c :: s =>
    if isBlank c then words .blank [] s
    else if c = 92 then words (.escape none) [] s
    else if isQuote c then words (.quote c) [] s
    else words .word [c] s
  | .word, token, c :: s =>
    if isBlank c then (words .blank [] s).map (token :: ·)
    else if isQuote c then words (.quote c) token s
    else if c = 92 then words (.escape none) token s
    else words .word (token ++ [c]) s
  | .quote q, token, c :: s =>
    if c = q then words .word token s
    else if c = 92 ∧ q = 34 then words (.escape (some q)) token s
    else words (.quote q) (token ++ [c]) s
  | .escape none, token, c :: s => words .word (token ++ [c]) s
  | .escape (some q), token, c :: s =>
    words (.quote q) (token ++ if c = 92 ∨ c = q then [c] else [92, c]) s

/-- `shlex.split(s)`, `none` where it raises `ValueError`. -/
def split (s : Str) : Option (List Str) := words .blank [] s

/-- What needs no quotes: ASCII's letters and digits, slashes, hyphens and `_@%+=:,.`. -/
def isSafe (c : Nat) : Bool :=
  97 ≤ c && c ≤ 122 || 65 ≤ c && c ≤ 90 || 45 ≤ c && c ≤ 58 || (str "_@%+=,").contains c

/-- `shlex.quote(s)`. -/
def quote (s : Str) : Str :=
  if s ≠ [] ∧ s.all isSafe then s
  else str "'" ++ s.flatMap (fun c => if c = 39 then str "'\"'\"'" else [c]) ++ str "'"

end Shlex

end Lib
