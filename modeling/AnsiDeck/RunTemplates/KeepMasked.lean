import AnsiDeck.Lib.JsonReader
import AnsiDeck.Scrub.Masking

/-!
# Editing a template without its secrets

`routers.run_templates.keep_masked`: a template's extra vars are shown with their secret-looking
values masked, or hidden altogether, and what comes back as it was shown keeps the value stored
there. Equality is Python's: numbers and truth values by what they are worth, objects in any order.
-/

namespace AnsiDeck

namespace RunTemplates

open Lib (Json Str Unicode str)

/-! ## Python's `==` -/

/-- What a number or a truth value is worth: in units of the least double, or an infinity. -/
def worth : Json → Option (Int ⊕ Bool)
  | .bool b => some (.inl (if b then Lib.Double.unit else 0))
  | .int n => some (.inl (n * Lib.Double.unit))
  | .float (.finite negative mantissa shift _) =>
    some (.inl ((if negative then -1 else 1) * (mantissa * 2 ^ shift : Nat)))
  | .float (.infinity negative) => some (.inr negative)
  | _ => none

mutual

/-- `a == b`. -/
@[grind =] def pyEq : Json → Json → Bool
  | .null, .null => true
  | .str a, .str b => a == b
  | .arr xs, .arr ys => pyEqItems xs ys
  | .obj es, .obj fs => es.length == fs.length && pyEqEntries es fs
  | .bool b, w => (worth (.bool b)).any fun x => worth w == some x
  | .int n, w => (worth (.int n)).any fun x => worth w == some x
  | .float d, w => (worth (.float d)).any fun x => worth w == some x
  | _, _ => false

@[grind =] def pyEqItems : List Json → List Json → Bool
  | [], [] => true
  | v :: vs, w :: ws => pyEq v w && pyEqItems vs ws
  | _, _ => false

@[grind =] def pyEqEntries : List (Str × Json) → List (Str × Json) → Bool
  | [], _ => true
  | (k, v) :: es, fs =>
    (match fs.lookup k with
    | some w => pyEq v w
    | none => false) && pyEqEntries es fs

end

/-! ## What is shown -/

section

variable (t : Unicode)

mutual

/-- `scrub.mask_secret_keys`. -/
@[grind =] def mask (underSecret : Bool) : Json → Json
  | .obj entries => .obj (maskEntries underSecret entries)
  | .arr items => .arr (maskItems underSecret items)
  | .null => .null
  | .bool b => .bool b
  | .int n => if underSecret then .str Scrub.redacted else .int n
  | .float x => if underSecret then .str Scrub.redacted else .float x
  | .str s => if underSecret then .str Scrub.redacted else .str s

@[grind =] def maskItems (underSecret : Bool) : List Json → List Json
  | [] => []
  | v :: items => mask underSecret v :: maskItems underSecret items

@[grind =] def maskEntries (underSecret : Bool) : List (Str × Json) → List (Str × Json)
  | [] => []
  | (k, v) :: entries =>
    (k, mask (underSecret || Scrub.isSecretKey t k) v) :: maskEntries underSecret entries

end

/-- `HIDDEN`. -/
def hiddenText : Str := str "[HIDDEN]"

/-- Extra vars: a column that may be null. -/
abbrev ExtraVars := Option (List (Str × Json))

/-- What `_out` shows: to somebody who may not see extra vars only their names. -/
def shownVars (canSee : Bool) (vars : ExtraVars) : ExtraVars :=
  vars.map fun entries =>
    if canSee then maskEntries t false entries else entries.map fun e => (e.1, .str hiddenText)

end

/-! ## What is kept -/

/-- A value that came back as it was shown. -/
def restore (sent stored shown : Json) : Json :=
  if pyEq sent shown && !pyEq sent stored then stored else sent

mutual

/-- `keep_masked`. -/
@[grind =] def keepMasked : Json → Json → Json → Json
  | .obj sent, .obj stored, .obj shown => .obj (keepEntries sent stored shown)
  | .arr sent, .arr stored, .arr shown =>
    if sent.length = stored.length ∧ stored.length = shown.length then
      .arr (keepItems sent stored shown)
    else restore (.arr sent) (.arr stored) (.arr shown)
  | sent, stored, shown => restore sent stored shown
termination_by structural sent => sent

@[grind =] def keepItems : List Json → List Json → List Json → List Json
  | v :: sent, w :: stored, x :: shown => keepMasked v w x :: keepItems sent stored shown
  | _, _, _ => []
termination_by structural sent => sent

@[grind =] def keepEntries : List (Str × Json) → List (Str × Json) → List (Str × Json) → List (Str × Json)
  | [], _, _ => []
  | (k, v) :: sent, stored, shown =>
    (k, match stored.lookup k, shown.lookup k with
      | some w, some x => keepMasked v w x
      | _, _ => v) :: keepEntries sent stored shown
termination_by structural sent => sent

end

/-- What `update_template` stores of the extra vars that were sent. -/
def savedVars (t : Unicode) (canSee : Bool) (sent stored : ExtraVars) : ExtraVars :=
  match sent, stored, shownVars t canSee stored with
  | some sent, some stored, some shown => some (keepEntries sent stored shown)
  | sent, _, _ => sent

end RunTemplates

end AnsiDeck
