import AnsiDeck.Lib.Search
import AnsiDeck.Scrub.Headers
import AnsiDeck.Scrub.Urls

/-!
# What is hidden in a text

Seven kinds of things, each as it stands in the text, with the stretch of it that is hidden: the
registered forms, then private keys, the tokens of authorization headers, the passwords of URLs, two
kinds of keys that have a shape of their own, and the values that are assigned to secret-looking
names. They say nothing of how they are found; that the scrubber's expressions find just these, one
kind after the other, is `left_iff`.
-/

namespace AnsiDeck.Scrub

open Lib
open Lib.Edit (Cell cells)
open Lib.Search (Remains)
open Lib.Stretch (hide leave)

abbrev Kind := Search.Kind Nat

/-! ## Forms -/

/-- Whether a form is hidden between two texts: a long one always, a short one as a whole word. -/
def Hideable (u : Unicode) (v before after : Text) : Prop :=
  plainSubstringLen ≤ v.length ∨ Clear u before after

/-- A registered form, the longest of those that could be hidden there. -/
inductive FormAt (u : Unicode) (secrets : List Text) : Kind
  | form {before v after : Text} (hv : v ∈ forms u secrets) (hplace : Hideable u v before after)
    (hlongest : ∀ w rest, w ∈ forms u secrets → v ++ after = w ++ rest → Hideable u w before rest →
      w.length ≤ v.length) :
    FormAt u secrets before [hide v] after

/-! ## Things with a shape of their own -/

/-- The line that a private key ends with. -/
def keyFooter (label : Text) : Text := txt "-----END " ++ (label ++ txt "PRIVATE KEY-----")

/-- A key's last line begins there. -/
def EndsKey (text : Text) : Prop :=
  ∃ label rest, (∀ c ∈ label, isLabelChar c = true) ∧ text = keyFooter label ++ rest

/-- A private key, to its first last line, or to the end of the text where it has none. -/
inductive PrivateKey : Kind
  | whole {before label body last after : Text} (hlabel : ∀ c ∈ label, isLabelChar c = true)
    (hlast : ∀ c ∈ last, isLabelChar c = true)
    (hfirst : ∀ x y, body = x ++ y → y ≠ [] → ¬ EndsKey (y ++ (keyFooter last ++ after))) :
    PrivateKey before [hide (keyHeader label ++ (body ++ keyFooter last))] after
  | endless {before label body : Text} (hlabel : ∀ c ∈ label, isLabelChar c = true)
    (hnone : ∀ x y, body = x ++ y → ¬ EndsKey y) :
    PrivateKey before [hide (keyHeader label ++ body)] []

/-- The word in any case. -/
def Spelled (u : Unicode) (word : String) (w : Text) : Prop :=
  List.Forall₂ (fun c x => u.sameLetter c x = true) w (txt word)

/-- An authorization header up to its token. -/
structure Header (u : Unicode) (key space : Text) (sign : Nat) (space' scheme space'' : Text) :
    Prop where
  key : Spelled u "authorization" key
  space : ∀ c ∈ space, u.isSpace c = true
  sign : sign ∈ txt "=:"
  space' : ∀ c ∈ space', u.isSpace c = true
  scheme : Spelled u "bearer" scheme ∨ Spelled u "basic" scheme
  space_ne : space'' ≠ []
  space'' : ∀ c ∈ space'', u.isSpace c = true

/-- The token of an authorization header, as far as it goes. -/
inductive AuthToken (u : Unicode) : Kind
  | token {before key space space' scheme space'' token after : Text} {sign : Nat}
    (hedge : before.head?.any u.isWord = false)
    (hheader : Header u key space sign space' scheme space'')
    (hne : token ≠ []) (htoken : ∀ c ∈ token, isTokenChar c = true)
    (hend : ∀ c ∈ after.head?, isTokenChar c = false) :
    AuthToken u before [leave (authText key space sign space' scheme space''), hide token] after

/-- The password of a URL, which an `@` follows. -/
inductive UrlPassword (u : Unicode) : Kind
  | password {before user password after : Text} (h : Credentials u user password) :
    UrlPassword u before [leave (txt "://" ++ (user ++ [58])), hide password] (64 :: after)

inductive AwsKey (u : Unicode) : Kind
  | key {before w after : Text} (hlength : w.length = 16)
    (hchars : ∀ c ∈ w, (isDigit c || isUpper c) = true) (hclear : Clear u before after) :
    AwsKey u before [hide (txt "AKIA" ++ w)] after

inductive GithubToken (u : Unicode) : Kind
  | token {before w after : Text} {use : Nat} (huse : use ∈ txt "pousr") (hlength : 20 ≤ w.length)
    (hchars : ∀ c ∈ w, (isLetter c || isDigit c) = true) (hclear : Clear u before after) :
    GithubToken u before [hide (txt "gh" ++ use :: 95 :: w)] after

/-! ## Values of secrets' names -/

/-- A word that makes a name look like a secret's. -/
inductive SecretWord (u : Unicode) : Text → Prop
  | word {w : Text} (word : String) (hword : word ∈ ["password", "passwd", "secret", "token"])
    (hw : Spelled u word w) : SecretWord u w
  | apiKey {api sep key : Text} (hapi : Spelled u "api" api)
      (hsep : sep = [] ∨ ∃ c ∈ txt "_-", sep = [c])
    (hkey : Spelled u "key" key) : SecretWord u (api ++ (sep ++ key))

/-- A part of a name behind that word: it says no location. -/
inductive NamePart (u : Unicode) : Text → Prop
  | part {sep : Nat} {w : Text} (hsep : sep ∈ txt "_-") (hne : w ≠ [])
    (hw : ∀ c ∈ w, alnumAnyCase u c = true)
    (hlocation : ∀ word ∈ ["file", "path", "dir", "id", "name"], ¬ Spelled u word w) :
    NamePart u (sep :: w)

/-- A name that looks like a secret's. -/
inductive SecretLooking (u : Unicode) : Text → Prop
  | name {front word : Text} {parts : List Text} (hfront : ∀ c ∈ front, nameChar u c = true)
    (hword : SecretWord u word) (hparts : ∀ part ∈ parts, NamePart u part) :
    SecretLooking u (front ++ (word ++ parts.flatten))

/-- A value assigned to such a name, without its quotes; one that has the marker in it stays. -/
inductive AssignedValue (u : Unicode) : Kind
  | marked {before name quote space space' value after : Text} {sign : Nat}
    (hedge : before.head?.any (nameChar u) = false) (hname : SecretLooking u name)
    (hgap : Gap u quote space sign space') (hvalue : IsValue u value after)
    (hmark : redacted <:+: value) :
    AssignedValue u before [leave (name ++ gapText quote space sign space' ++ value)] after
  | quoted {before name quote space space' body after : Text} {sign q : Nat}
    (hedge : before.head?.any (nameChar u) = false) (hname : SecretLooking u name)
    (hgap : Gap u quote space sign space') (hq : q ∈ txt "\"'") (hbody : q ∉ body)
    (hslash : 92 ∉ body)
    (hmark : ¬ redacted <:+: body) :
    AssignedValue u before
      [leave (name ++ gapText quote space sign space' ++ [q]), hide body, leave [q]] after
  | bare {before name quote space space' value after : Text} {sign : Nat}
    (hedge : before.head?.any (nameChar u) = false) (hname : SecretLooking u name)
    (hgap : Gap u quote space sign space') (hne : value ≠ [])
    (hvalue : ∀ c ∈ value, bareChar u c = true) (hend : ∀ c ∈ after.head?, bareChar u c = false)
    (hmark : ¬ redacted <:+: value) :
    AssignedValue u before [leave (name ++ gapText quote space sign space'), hide value] after

/-! ## One after the other -/

/-- The kinds that come before the assigned values. -/
def plainKinds (u : Unicode) (secrets : List Text) : List Kind :=
  [FormAt u secrets, PrivateKey, AuthToken u, UrlPassword u, AwsKey u, GithubToken u]

/-- In the order in which they are hidden. -/
def kinds (u : Unicode) (secrets : List Text) : List Kind :=
  plainKinds u secrets ++ [AssignedValue u]

/-- What is left of a text when all kinds are hidden in it: its characters with their places, and
the marker's without. -/
def Left (u : Unicode) (secrets : List Text) (text : Text) (cs : List (Cell Nat)) : Prop :=
  Remains redacted (kinds u secrets) (cells text) cs

end AnsiDeck.Scrub
