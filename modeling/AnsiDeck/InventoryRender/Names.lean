import AnsiDeck.InventoryRender

/-!
# Names of hosts and groups

The checks of `app.inventory_render` on what an inventory calls its hosts and groups.
`parse_address` and `detect_range` are Ansible's.
-/

namespace AnsiDeck

namespace InventoryRender

open Lib (Str str)

/-- `parse_address(name, allow_ranges=True)`, `none` where it raises, and `detect_range`. -/
structure Ansible where
  parseAddress : Str → Option (Str × Option Nat)
  detectRange : Str → Bool

def maxName : Nat := 255

def reservedGroups : List Str := ["all", "ungrouped"].map str

def isWordChar (c : Nat) : Bool :=
  65 ≤ c && c ≤ 90 || 97 ≤ c && c ≤ 122 || 48 ≤ c && c ≤ 57 || c = 95

/-- A word character, and then those and the `others`. -/
def isWord (others : List Nat) : Str → Bool
  | [] => false
  | c :: s => isWordChar c && s.all fun c => isWordChar c || others.contains c

/-- `GROUP_NAME`. -/
def isGroupName : Str → Bool := isWord (str ".-")

/-- `HOSTNAME`. -/
def isHostname : Str → Bool := isWord (str ".:%-")

/-- Why Ansible wouldn't see exactly this one host, or `none`. -/
def hostnameProblem (ansible : Ansible) (name : Str) : Option Str :=
  if name = [] ∨ maxName < name.length then some (str "must be 1-255 characters")
  else if !isHostname name then some (str "may hold only letters, digits and . _ - : %")
  else
    -- not an address: Ansible takes it as the name itself
    let (pattern, port) := (ansible.parseAddress name).getD (name, none)
    if port ≠ none then some (str "must not include a port (set ansible_port instead)")
    else if pattern ≠ name ∨ ansible.detectRange pattern = true then
      some (str "would not be read as a single host name")
    else none

def groupProblem (name : Str) : Option Str :=
  if name = [] ∨ maxName < name.length then some (str "must be 1-255 characters")
  else if name ∈ reservedGroups then some (str "'" ++ name ++ str "' is reserved by ansible")
  else if !isGroupName name then
    some (str "may hold only letters, digits and . _ - (not starting with . or -)")
  else none

end InventoryRender

end AnsiDeck
