import AnsiDeck.Models

/-!
# Reading a host's variables

What `app.host_keys` and `app.egress_allowlist` both do with the variables a run will see for a
host, as JSON has them: which connection plugin it is, and the last of some variables that is set.
-/

namespace AnsiDeck

namespace HostVars

open Lib (Dict Json Str str)

/-- `bool(value)`. -/
def truthy : Json → Bool
  | .null => false
  | .bool b => b
  | .int n => n ≠ 0
  | .float (.finite _ mantissa _ _) => mantissa ≠ 0
  | .float _ => true
  | .str s => s ≠ []
  | .arr items => !items.isEmpty
  | .obj entries => !entries.isEmpty

/-- `host_vars.get(name) not in (None, "")`, with the value. -/
def getSet (vars : Vars) (name : Str) : Option Json :=
  match vars.get? name with
  | none | some .null | some (.str []) => none
  | some value => some value

/-- `host_vars.get("ansible_connection") or "ssh"`. -/
def connection (vars : Vars) : Json :=
  match vars.get? (str "ansible_connection") with
  | some value => if truthy value then value else .str (str "ssh")
  | none => .str (str "ssh")

/-- The last of these variables that is set, or `value`. -/
def lastSet (vars : Vars) (names : List Str) (value : Option Json) : Option Json :=
  names.foldl (fun value name => (getSet vars name).or value) value

/-- Whether a value is a string with one of these marks of a template in it. -/
def templated (marks : List Str) : Json → Bool
  | .str s => marks.any fun mark => Str.has mark s
  | _ => false

end HostVars

end AnsiDeck
