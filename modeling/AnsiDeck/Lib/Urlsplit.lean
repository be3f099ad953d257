import AnsiDeck.Lib.IpAddress
import AnsiDeck.Lib.Unicode

/-!
# `urllib.parse.urlsplit`

Which scheme and which network location Python 3.12 sees in a text, and which user, password and
host in the location. It raises `ValueError` (`none`) for brackets that hold no IPv6 address, and
for a location that means another one once it is normalised (`nfkc`, of the Unicode database).
What comes after the location is left out.
-/

namespace Lib

namespace Urlsplit

structure Parts where
  scheme : Str
  netloc : Str

variable (t : Unicode) (nfkc : Str → Str)

def isLetter (c : Nat) : Bool := 65 ≤ c && c ≤ 90 || 97 ≤ c && c ≤ 122

/-- `scheme_chars`. -/
def schemeChar (c : Nat) : Bool := isLetter c || 48 ≤ c && c ≤ 57 || c ∈ str "+-."

/-- `_WHATWG_C0_CONTROL_OR_SPACE` at the start, and `_UNSAFE_URL_BYTES_TO_REMOVE` anywhere. -/
def trimmed (url : Str) : Str := (url.dropWhile (· ≤ 32)).filter fun c => c ∉ str "\t\r\n"

/-- The scheme, and what comes after its colon. -/
def splitScheme (url : Str) : Str × Str :=
  match Str.partition (str ":") url with
  | some (scheme, rest) =>
    if scheme.head?.any isLetter && scheme.all schemeChar then (t.lower scheme, rest) else ([], url)
  | none => ([], url)

/-- What comes after the last `@`, the whole where there is none. -/
def hostAndPort (netloc : Str) : Str :=
  match Str.rsplit (str "@") netloc with
  | some (_, rest) => rest
  | none => netloc

/-- What comes before the first `sep` and what after it. -/
def cutAt (sep s : Str) : Str × Str := (Str.partition sep s).getD (s, [])

/-- `\Av[a-fA-F0-9]+\..+\Z`. -/
def isFutureAddress (host : Str) : Bool :=
  let version := (host.drop 1).takeWhile fun c => (IpAddress.hexValue c).isSome
  let rest := (host.drop 1).dropWhile fun c => (IpAddress.hexValue c).isSome
  host.head? = some 118 && version ≠ [] && rest.head? = some 46 && rest.tail ≠ [] && 10 ∉ rest

/-- `_check_bracketed_host`: does not raise. -/
def bracketedHost (host : Str) : Bool :=
  if host.head? = some 118 then isFutureAddress host
  else (IpAddress.parse host).any fun address => address.family = .v6

/-- `_check_bracketed_netloc`. -/
def bracketedNetloc (netloc : Str) : Bool :=
  match Str.partition (str "[") (hostAndPort netloc) with
  | some (before, bracketed) =>
    let (host, port) := cutAt (str "]") bracketed
    before = [] && (port = [] || port.head? = some 58) && bracketedHost host
  | none => bracketedHost (cutAt (str ":") (hostAndPort netloc)).1

/-- `_checknetloc`. -/
def plainNetloc (netloc : Str) : Bool :=
  let n := netloc.filter fun c => c ∉ str "@:#?"
  netloc.all (· < 128) || nfkc n = n || (nfkc n).all fun c => c ∉ str "/?#@:"

/-- `none` where it raises `ValueError`. -/
def urlsplit (url : Str) : Option Parts :=
  let (scheme, rest) := splitScheme t (trimmed url)
  let netloc := if (str "//").isPrefixOf rest then (rest.drop 2).takeWhile (· ∉ str "/?#") else []
  if netloc.contains 91 != netloc.contains 93 then none
  else if netloc.contains 91 && !bracketedNetloc netloc then none
  else if plainNetloc nfkc netloc then some ⟨scheme, netloc⟩
  else none

/-- `parts.username` and `parts.password`. -/
def Parts.userinfo (parts : Parts) : Option Str × Option Str :=
  match Str.rsplit (str "@") parts.netloc with
  | none => (none, none)
  | some (userinfo, _) =>
    match Str.partition (str ":") userinfo with
    | some (user, password) => (some user, some password)
    | none => (some userinfo, none)

/-- `parts.hostname`; the zone of a scoped address is not in lower case. -/
def Parts.hostname (parts : Parts) : Option Str :=
  let host :=
    match Str.partition (str "[") (hostAndPort parts.netloc) with
    | some (_, bracketed) => (cutAt (str "]") bracketed).1
    | none => (cutAt (str ":") (hostAndPort parts.netloc)).1
  if host = [] then none
  else match Str.partition (str "%") host with
    | some (address, zone) => some (t.lower address ++ str "%" ++ zone)
    | none => some (t.lower host)

end Urlsplit

end Lib
