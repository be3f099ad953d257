import AnsiDeck.Lib.Unicode
import AnsiDeck.Scrub.Forms

/-!
# `mask_secret_keys` and `_collect_named_values`

A value as JSON or YAML gives it. YAML's aliases share containers, and the collector looks at each
only once in a secret place and once in a plain one, so a container has an identity here. What two
containers with one identity hold is the same (`Object`).
-/

namespace AnsiDeck.Scrub

open Lib (Str str)

/-- What is no container; `other` is a number, a date or the like. -/
inductive Leaf
  | null
  | bool (b : Bool)
  | str (s : Text)
  | other (shown : Text)

/-- `str(leaf)`. -/
def Leaf.text : Leaf → Text
  | .null => txt "None"
  | .bool b => if b then txt "True" else txt "False"
  | .str s => s
  | .other shown => shown

/-- Nothing, or a truth value, is no secret. -/
def Leaf.telling : Leaf → Bool
  | .null | .bool _ => false
  | .str _ | .other _ => true

/-- A key counts by its `str`. -/
inductive Tree (ι : Type)
  | leaf (x : Leaf)
  | arr (id : ι) (items : List (Tree ι))
  | obj (id : ι) (entries : List (Text × Tree ι))

/-! ## `is_secret_key` -/

def secretTokens : List Text :=
  ["password", "passwd", "pass", "passphrase", "secret", "secrets", "token", "tokens", "key",
    "credential", "credentials", "private", "pwd", "apikey", "authtoken", "privatekey", "secretkey",
    "passcode", "community"].map txt

def nonSecretSuffixes : List Text := ["file", "path", "dir", "id", "name"].map txt

/-- `_CAMEL_BOUNDARY.sub("_", name)`: an underscore where a capital comes after a small letter or a
digit. -/
def splitCamel : Text → Text
  | [] => []
  | [c] => [c]
  | c :: d :: rest =>
    if (isLower c || isDigit c) && isUpper d then c :: 95 :: splitCamel (d :: rest)
    else c :: splitCamel (d :: rest)

/-- What `_KEY_SPLIT` splits at. -/
def isKeySplit (t : Lib.Unicode) (c : Nat) : Bool := c ∈ txt "_-." || t.isSpace c

def keyTokens (t : Lib.Unicode) (name : Text) : List Text :=
  (((splitCamel name).splitOnP (isKeySplit t)).filter (· ≠ [])).map t.lower

def isSecretKey (t : Lib.Unicode) (name : Text) : Bool :=
  match (keyTokens t name).getLast? with
  | none => false
  | some last => last ∉ nonSecretSuffixes && (keyTokens t name).any (· ∈ secretTokens)

example : ["db_password", "apiKey", "MYSQL_PWD", "aws_secretkey", "client-secret"].all
    fun name => isSecretKey .ascii (txt name) := by decide +kernel

example : ["bypass_cache", "ansible_ssh_private_key_file", "key_id", "monkey", ""].all
    fun name => !isSecretKey .ascii (txt name) := by decide +kernel

/-! ## The two recursions -/

variable {ι : Type}

section

variable (t : Lib.Unicode)

mutual

/-- The containers it makes are new ones; nothing looks at their identity. -/
def maskSecretKeys (underSecret : Bool) : Tree ι → Tree Unit
  | .leaf x => .leaf (if underSecret && x.telling then .str redacted else x)
  | .arr _ items => .arr () (maskItems underSecret items)
  | .obj _ entries => .obj () (maskEntries underSecret entries)

def maskItems (underSecret : Bool) : List (Tree ι) → List (Tree Unit)
  | [] => []
  | v :: items => maskSecretKeys underSecret v :: maskItems underSecret items

def maskEntries (underSecret : Bool) : List (Text × Tree ι) → List (Text × Tree Unit)
  | [] => []
  | (k, v) :: entries =>
    (k, maskSecretKeys (underSecret || isSecretKey t k) v) :: maskEntries underSecret entries

end

/-- What the collector has so far. -/
structure Collected (ι : Type) where
  out : List Text
  /-- The containers it was in, each with whether it was below a secret key. -/
  seen : List (ι × Bool)

variable [DecidableEq ι]

mutual

/-- `_collect_named_values`. -/
def collectNamedValues (underSecret : Bool) : Tree ι → Collected ι → Collected ι
  | .leaf x, s => if underSecret && x.telling then { s with out := x.text :: s.out } else s
  | .arr id items, s =>
    if (id, underSecret) ∈ s.seen then s
    else collectItems underSecret items { s with seen := (id, underSecret) :: s.seen }
  | .obj id entries, s =>
    if (id, underSecret) ∈ s.seen then s
    else collectEntries underSecret entries { s with seen := (id, underSecret) :: s.seen }

def collectItems (underSecret : Bool) : List (Tree ι) → Collected ι → Collected ι
  | [], s => s
  | v :: items, s => collectItems underSecret items (collectNamedValues underSecret v s)

def collectEntries (underSecret : Bool) : List (Text × Tree ι) → Collected ι → Collected ι
  | [], s => s
  | (k, v) :: entries, s =>
    collectEntries underSecret entries (collectNamedValues (underSecret || isSecretKey t k) v s)

end

end

/-! ## What is hidden -/

/-- The leaf at a place: the indices that lead to it, and the keys on the way. -/
inductive LeafAt : Tree ι → List Nat → List Text → Leaf → Prop
  | leaf (x : Leaf) : LeafAt (.leaf x) [] [] x
  | arr {id : ι} {items : List (Tree ι)} {i : Nat} {v : Tree ι} {path : List Nat}
      {keys : List Text} {x : Leaf} (hv : items[i]? = some v) (hx : LeafAt v path keys x) :
      LeafAt (.arr id items) (i :: path) keys x
  | obj {id : ι} {entries : List (Text × Tree ι)} {i : Nat} {k : Text} {v : Tree ι}
      {path : List Nat} {keys : List Text} {x : Leaf} (hv : entries[i]? = some (k, v))
      (hx : LeafAt v path keys x) : LeafAt (.obj id entries) (i :: path) (k :: keys) x

section

variable (t : Lib.Unicode)

/-- A leaf that tells something, with a secret key somewhere above it. -/
def hidden (underSecret : Bool) (keys : List Text) (x : Leaf) : Bool :=
  (underSecret || keys.any (isSecretKey t)) && x.telling

/-- What a leaf is when it is masked. -/
def shown (underSecret : Bool) (keys : List Text) (x : Leaf) : Leaf :=
  if hidden t underSecret keys x then .str redacted else x

/-- A hidden leaf of `v` has this text. -/
def Hides (underSecret : Bool) (v : Tree ι) (text : Text) : Prop :=
  ∃ path keys x, LeafAt v path keys x ∧ hidden t underSecret keys x = true ∧ text = x.text

end

variable {t : Lib.Unicode}

theorem maskItems_eq (underSecret : Bool) (items : List (Tree ι)) :
    maskItems t underSecret items = items.map (maskSecretKeys t underSecret) := by
  induction items with
  | nil => rfl
  | cons v items ih => rw [maskItems, ih, List.map_cons]

theorem maskEntries_eq (underSecret : Bool) (entries : List (Text × Tree ι)) :
    maskEntries t underSecret entries
      = entries.map fun e => (e.1, maskSecretKeys t (underSecret || isSecretKey t e.1) e.2) := by
  induction entries with
  | nil => rfl
  | cons e entries ih =>
    obtain ⟨k, v⟩ := e
    rw [maskEntries, ih, List.map_cons]

theorem hidden_cons (underSecret : Bool) (k : Text) (keys : List Text) (x : Leaf) :
    hidden t underSecret (k :: keys) x = hidden t (underSecret || isSecretKey t k) keys x := by
  rw [hidden, hidden, List.any_cons, Bool.or_assoc]

theorem shown_cons (underSecret : Bool) (k : Text) (keys : List Text) (x : Leaf) :
    shown t underSecret (k :: keys) x = shown t (underSecret || isSecretKey t k) keys x := by
  rw [shown, shown, hidden_cons]

/-! ## Masking -/

theorem LeafAt.mask {v : Tree ι} {path : List Nat} {keys : List Text} {x : Leaf}
    (h : LeafAt v path keys x) (underSecret : Bool) :
    LeafAt (maskSecretKeys t underSecret v) path keys (shown t underSecret keys x) := by
  induction h generalizing underSecret with
  | leaf x =>
    have hshown : shown t underSecret [] x = if underSecret &&
        x.telling then .str redacted else x := by
      rw [shown, hidden, List.any_nil, Bool.or_false]
    rw [maskSecretKeys, hshown]
    exact .leaf _
  | arr hv _ ih =>
    rw [maskSecretKeys, maskItems_eq]
    refine .arr ?_ (ih underSecret)
    rw [List.getElem?_map, hv]
    rfl
  | obj hv _ ih =>
    rw [maskSecretKeys, maskEntries_eq, shown_cons]
    refine .obj ?_ (ih _)
    rw [List.getElem?_map, hv]
    rfl

/-- There is no other leaf in a masked value. -/
theorem leafAt_mask {v : Tree ι} {underSecret : Bool} {path : List Nat}
    {keys : List Text} {y : Leaf}
    (h : LeafAt (maskSecretKeys t underSecret v) path keys y) :
    ∃ x, LeafAt v path keys x ∧ y = shown t underSecret keys x := by
  induction path generalizing v underSecret keys with
  | nil =>
    cases v with
    | leaf x =>
      rw [maskSecretKeys] at h
      cases h
      refine ⟨x, .leaf x, ?_⟩
      rw [shown, hidden, List.any_nil, Bool.or_false]
    | arr id items =>
      rw [maskSecretKeys] at h
      cases h
    | obj id entries =>
      rw [maskSecretKeys] at h
      cases h
  | cons i path ih =>
    cases v with
    | leaf x =>
      rw [maskSecretKeys] at h
      cases h
    | arr id items =>
      rw [maskSecretKeys, maskItems_eq] at h
      cases h with
      | arr hv hx =>
        rw [List.getElem?_map, Option.map_eq_some_iff] at hv
        obtain ⟨v, hv, rfl⟩ := hv
        obtain ⟨x, hx, hy⟩ := ih hx
        exact ⟨x, .arr hv hx, hy⟩
    | obj id entries =>
      rw [maskSecretKeys, maskEntries_eq] at h
      cases h with
      | obj hv hx =>
        rw [List.getElem?_map, Option.map_eq_some_iff] at hv
        obtain ⟨⟨k, v⟩, hv, heq⟩ := hv
        cases heq
        obtain ⟨x, hx, hy⟩ := ih hx
        exact ⟨x, .obj hv hx, shown_cons (t := t) .. ▸ hy⟩

mutual

theorem mask_mask (underSecret : Bool) : ∀ v : Tree ι,
    maskSecretKeys t underSecret (maskSecretKeys t underSecret v) = maskSecretKeys t underSecret v
  | .leaf x => by
    simp only [maskSecretKeys, Tree.leaf.injEq]
    by_cases h : (underSecret && x.telling) = true
    · rw [if_pos h]
      split
      · rfl
      · rfl
    · rw [if_neg h, if_neg h]
  | .arr _ items => by rw [maskSecretKeys, maskSecretKeys, maskItems_maskItems underSecret items]
  | .obj _ entries => by
    rw [maskSecretKeys, maskSecretKeys, maskEntries_maskEntries underSecret entries]

theorem maskItems_maskItems (underSecret : Bool) : ∀ items : List (Tree ι),
    maskItems t underSecret (maskItems t underSecret items) = maskItems t underSecret items
  | [] => rfl
  | v :: items => by
    rw [maskItems, maskItems, mask_mask underSecret v, maskItems_maskItems underSecret items]

theorem maskEntries_maskEntries (underSecret : Bool) : ∀ entries : List (Text × Tree ι),
    maskEntries t underSecret (maskEntries t underSecret entries)
      = maskEntries t underSecret entries
  | [] => rfl
  | (k, v) :: entries => by
    rw [maskEntries, maskEntries, mask_mask _ v, maskEntries_maskEntries underSecret entries]

end

/-! ## Shared containers -/

/-- The identity of a container. -/
def Tree.id? : Tree ι → Option ι
  | .leaf _ => none
  | .arr id _ => some id
  | .obj id _ => some id

/-- `c` is `v`, or somewhere in it. -/
inductive Part (c : Tree ι) : Tree ι → Prop
  | self : Part c c
  | arr {id : ι} {items : List (Tree ι)} {v : Tree ι} (hv : v ∈ items) (h : Part c v) :
      Part c (.arr id items)
  | obj {id : ι} {entries : List (Text × Tree ι)} {e : Text × Tree ι} (he : e ∈ entries)
      (h : Part c e.2) : Part c (.obj id entries)

/-- A value as it is in memory: one container holds one thing. -/
structure Object (ι : Type) where
  value : Tree ι
  coherent : ∀ c c', Part c value → Part c' value → ∀ id, c.id? = some id →
    c'.id? = some id → c = c'

theorem Part.trans {c v w : Tree ι} (hc : Part c v) (hv : Part v w) : Part c w := by
  induction hv with
  | self => exact hc
  | arr hmem _ ih => exact .arr hmem ih
  | obj hmem _ ih => exact .obj hmem ih

theorem sizeOf_item {id : ι} {items : List (Tree ι)} {v : Tree ι} (hv : v ∈ items) :
    sizeOf v < sizeOf (Tree.arr id items) := by
  have hlt := List.sizeOf_lt_of_mem hv
  simp only [Tree.arr.sizeOf_spec]
  omega

theorem sizeOf_entry {id : ι} {entries : List (Text × Tree ι)} {e : Text × Tree ι}
    (he : e ∈ entries) : sizeOf e.2 < sizeOf (Tree.obj id entries) := by
  have hlt := List.sizeOf_lt_of_mem he
  obtain ⟨k, v⟩ := e
  simp only [Tree.obj.sizeOf_spec, Prod.mk.sizeOf_spec] at hlt ⊢
  omega

/-! ## What a value hides -/

theorem hides_leaf {underSecret : Bool} {x : Leaf} {text : Text} :
    Hides t underSecret (.leaf x : Tree ι) text ↔
      (underSecret && x.telling) = true ∧ text = x.text := by
  constructor
  · rintro ⟨path, keys, y, hy, hhidden, rfl⟩
    cases hy
    rw [hidden, List.any_nil, Bool.or_false] at hhidden
    exact ⟨hhidden, rfl⟩
  · rintro ⟨hhidden, rfl⟩
    refine ⟨[], [], x, .leaf x, ?_, rfl⟩
    rwa [hidden, List.any_nil, Bool.or_false]

theorem hides_arr {underSecret : Bool} {id : ι} {items : List (Tree ι)} {text : Text} :
    Hides t underSecret (.arr id items) text ↔ ∃ v ∈ items, Hides t underSecret v text := by
  constructor
  · rintro ⟨path, keys, x, hx, hhidden, htext⟩
    cases hx with
    | arr hv hx => exact ⟨_, List.mem_of_getElem? hv, _, _, x, hx, hhidden, htext⟩
  · rintro ⟨v, hv, path, keys, x, hx, hhidden, htext⟩
    obtain ⟨i, hi⟩ := List.getElem?_of_mem hv
    exact ⟨i :: path, keys, x, .arr hi hx, hhidden, htext⟩

theorem hides_obj {underSecret : Bool} {id : ι} {entries : List (Text × Tree ι)} {text : Text} :
    Hides t underSecret (.obj id entries) text ↔
      ∃ e ∈ entries, Hides t (underSecret || isSecretKey t e.1) e.2 text := by
  constructor
  · rintro ⟨path, keys, x, hx, hhidden, htext⟩
    cases hx with
    | obj hv hx =>
      rw [hidden_cons] at hhidden
      exact ⟨_, List.mem_of_getElem? hv, _, _, x, hx, hhidden, htext⟩
  · rintro ⟨e, he, path, keys, x, hx, hhidden, htext⟩
    obtain ⟨i, hi⟩ := List.getElem?_of_mem he
    refine ⟨i :: path, e.1 :: keys, x, .obj hi hx, ?_, htext⟩
    rwa [hidden_cons]

/-! ## Collecting -/

/-- All that the container `id` hides, in or outside a secret place, was collected. -/
def Done (t : Lib.Unicode) (root : Tree ι) (out : List Text) (e : ι × Bool) : Prop :=
  ∀ c, Part c root → c.id? = some e.1 → ∀ text, Hides t e.2 c text → text ∈ out

/-- A container that was seen is done with, or the collector is in it (`inside`). -/
def Kept (t : Lib.Unicode) (root : Tree ι) (inside : List (ι × Bool)) (s : Collected ι) : Prop :=
  ∀ e ∈ s.seen, e ∈ inside ∨ Done t root s.out e

/-- Each container the collector is in is larger than what it looks at. -/
def Above (root : Tree ι) (inside : List (ι × Bool)) (size : Nat) : Prop :=
  ∀ e ∈ inside, ∃ c, Part c root ∧ c.id? = some e.1 ∧ size < sizeOf c

/-- What looking at a part of `root` leaves: `hides` says what it was to collect. -/
structure Leaves (t : Lib.Unicode) (root : Tree ι) (inside : List (ι × Bool)) (hides : Text → Prop)
    (s s' : Collected ι) : Prop where
  kept : Kept t root inside s'
  collected : ∀ text, hides text → text ∈ s'.out
  mono : ∀ text ∈ s.out, text ∈ s'.out

theorem Done.mono {root : Tree ι} {out out' : List Text} {e : ι × Bool} (h : Done t root out e)
    (hsub : ∀ text ∈ out, text ∈ out') : Done t root out' e :=
  fun c hc hid text htext => hsub text (h c hc hid text htext)

theorem Above.mono {root : Tree ι} {inside : List (ι × Bool)} {size size' : Nat}
    (h : Above root inside size) (hle : size' ≤ size) : Above root inside size' := by
  intro e he
  obtain ⟨c, hc, hid, hsize⟩ := h e he
  exact ⟨c, hc, hid, by omega⟩

variable {root : Tree ι} {inside : List (ι × Bool)} {s s' : Collected ι}

/-- The collector goes into a container. -/
theorem Kept.enter (h : Kept t root inside s) (e : ι × Bool) :
    Kept t root (e :: inside) ⟨s.out, e :: s.seen⟩ := by
  intro e' he'
  rcases List.mem_cons.1 he' with rfl | he'
  · exact .inl (List.mem_cons_self ..)
  · rcases h e' he' with h | h
    · exact .inl (List.mem_cons_of_mem _ h)
    · exact .inr h

theorem Above.enter {size : Nat} {c : Tree ι} {id : ι} (h : Above root inside (sizeOf c))
    (hc : Part c root) (hid : c.id? = some id) (hsize : size < sizeOf c) (underSecret : Bool) :
    Above root ((id, underSecret) :: inside) size := by
  intro e he
  rcases List.mem_cons.1 he with rfl | he
  · exact ⟨c, hc, hid, hsize⟩
  · exact h.mono (Nat.le_of_lt hsize) e he

/-- The collector is not in the container it comes to: that one would be larger than itself. -/
theorem Above.not_mem {o : Object ι} {c : Tree ι} {id : ι} {underSecret : Bool}
    (h : Above o.value inside (sizeOf c)) (hc : Part c o.value) (hid : c.id? = some id) :
    (id, underSecret) ∉ inside := by
  intro hmem
  obtain ⟨c', hc', hid', hsize⟩ := h _ hmem
  obtain rfl := o.coherent c c' hc hc' id hid hid'
  exact absurd hsize (Nat.lt_irrefl _)

/-- A container that was seen is passed over. -/
theorem leaves_seen {o : Object ι} {c : Tree ι} {id : ι} {underSecret : Bool}
    (h : Kept t o.value inside s) (habove : Above o.value inside (sizeOf c)) (hc : Part c o.value)
    (hid : c.id? = some id) (hseen : (id, underSecret) ∈ s.seen) :
    Leaves t o.value inside (Hides t underSecret c) s s := by
  refine ⟨h, ?_, fun _ h => h⟩
  rcases h _ hseen with hin | hdone
  · exact absurd hin (habove.not_mem hc hid)
  · exact hdone c hc hid

/-- The collector leaves a container, which is done with now. -/
theorem Leaves.leave {o : Object ι} {c : Tree ι} {id : ι} {underSecret : Bool}
    (hc : Part c o.value) (hid : c.id? = some id)
    (h : Leaves t o.value ((id, underSecret) :: inside) (Hides t underSecret c)
      ⟨s.out, (id, underSecret) :: s.seen⟩ s') :
    Leaves t o.value inside (Hides t underSecret c) s s' := by
  refine ⟨fun e he => ?_, h.collected, h.mono⟩
  rcases h.kept e he with hin | hdone
  · rcases List.mem_cons.1 hin with rfl | hin
    · refine .inr fun c' hc' hid' text htext => ?_
      obtain rfl := o.coherent c c' hc hc' id hid hid'
      exact h.collected text htext
    · exact .inl hin
  · exact .inr hdone

/-- One thing after the other. -/
theorem Leaves.then {hides hides' hides'' : Text → Prop} {s'' : Collected ι}
    (h : Leaves t root inside hides s s') (h' : Leaves t root inside hides' s' s'')
    (hor : ∀ text, hides'' text → hides text ∨ hides' text) :
    Leaves t root inside hides'' s s'' := by
  refine ⟨h'.kept, fun text htext => ?_, fun text htext => h'.mono text (h.mono text htext)⟩
  rcases hor text htext with htext | htext
  · exact h'.mono text (h.collected text htext)
  · exact h'.collected text htext

variable [DecidableEq ι]

mutual

/-- Nothing is collected that is not hidden. -/
theorem hides_of_collected (underSecret : Bool) : ∀ (v : Tree ι) (s : Collected ι) (text : Text),
    text ∈ (collectNamedValues t underSecret v s).out → text ∈ s.out ∨ Hides t underSecret v text
  | .leaf x, s, text, h => by
    rw [collectNamedValues] at h
    split at h
    · next hhidden =>
      rcases List.mem_cons.1 h with htext | h
      · exact .inr (hides_leaf.2 ⟨hhidden, htext⟩)
      · exact .inl h
    · exact .inl h
  | .arr id items, s, text, h => by
    rw [collectNamedValues] at h
    split at h
    · exact .inl h
    · rw [hides_arr]
      exact hides_of_items underSecret items ⟨s.out, (id, underSecret) :: s.seen⟩ text h
  | .obj id entries, s, text, h => by
    rw [collectNamedValues] at h
    split at h
    · exact .inl h
    · rw [hides_obj]
      exact hides_of_entries underSecret entries ⟨s.out, (id, underSecret) :: s.seen⟩ text h

theorem hides_of_items (underSecret : Bool) : ∀ (items : List (Tree ι)) (s : Collected ι)
    (text : Text), text ∈ (collectItems t underSecret items s).out →
      text ∈ s.out ∨ ∃ v ∈ items, Hides t underSecret v text
  | [], s, text, h => .inl h
  | v :: items, s, text, h => by
    rw [collectItems] at h
    rcases hides_of_items underSecret items _ text h with h | ⟨w, hw, h⟩
    · rcases hides_of_collected underSecret v s text h with h | h
      · exact .inl h
      · exact .inr ⟨v, List.mem_cons_self .., h⟩
    · exact .inr ⟨w, List.mem_cons_of_mem _ hw, h⟩

theorem hides_of_entries (underSecret : Bool) : ∀ (entries : List (Text × Tree ι))
    (s : Collected ι) (text : Text), text ∈ (collectEntries t underSecret entries s).out →
      text ∈ s.out ∨ ∃ e ∈ entries, Hides t (underSecret || isSecretKey t e.1) e.2 text
  | [], s, text, h => .inl h
  | (k, v) :: entries, s, text, h => by
    rw [collectEntries] at h
    rcases hides_of_entries underSecret entries _ text h with h | ⟨e, he, h⟩
    · rcases hides_of_collected _ v s text h with h | h
      · exact .inl h
      · exact .inr ⟨(k, v), List.mem_cons_self .., h⟩
    · exact .inr ⟨e, List.mem_cons_of_mem _ he, h⟩

end

mutual

/-- All that is hidden is collected, whatever was seen before. -/
theorem leaves_collect (o : Object ι) (underSecret : Bool) : ∀ (v : Tree ι)
    (inside : List (ι × Bool)) (s : Collected ι), Part v o.value →
    Above o.value inside (sizeOf v) → Kept t o.value inside s →
      Leaves t o.value inside (Hides t underSecret v) s (collectNamedValues t underSecret v s)
  | .leaf x, inside, s, _, _, h => by
    rw [collectNamedValues]
    split
    · have hmono : ∀ text ∈ s.out, text ∈ x.text :: s.out := fun _ h => List.mem_cons_of_mem _ h
      refine ⟨fun e he => (h e he).imp_right fun hdone => hdone.mono hmono, fun text htext => ?_,
        hmono⟩
      rw [(hides_leaf.1 htext).2]
      exact List.mem_cons_self ..
    · next hhidden =>
      exact ⟨h, fun text htext => absurd (hides_leaf.1 htext).1 hhidden, fun _ h => h⟩
  | .arr id items, inside, s, hpart, habove, h => by
    rw [collectNamedValues]
    split
    · next hseen => exact leaves_seen h habove hpart rfl hseen
    · refine Leaves.leave hpart rfl ?_
      have hitems := leaves_items o underSecret items _ ⟨s.out, (id, underSecret) :: s.seen⟩
        (fun v hv => (Part.arr hv .self).trans hpart)
        (fun v hv => habove.enter hpart rfl (sizeOf_item hv) underSecret)
        (h.enter (id, underSecret))
      exact ⟨hitems.kept, fun text htext => hitems.collected text (hides_arr.1 htext), hitems.mono⟩
  | .obj id entries, inside, s, hpart, habove, h => by
    rw [collectNamedValues]
    split
    · next hseen => exact leaves_seen h habove hpart rfl hseen
    · refine Leaves.leave hpart rfl ?_
      have hentries := leaves_entries o underSecret entries _ ⟨s.out, (id, underSecret) :: s.seen⟩
        (fun e he => (Part.obj he .self).trans hpart)
        (fun e he => habove.enter hpart rfl (sizeOf_entry he) underSecret)
        (h.enter (id, underSecret))
      exact ⟨hentries.kept, fun text htext => hentries.collected text (hides_obj.1 htext),
        hentries.mono⟩

theorem leaves_items (o : Object ι) (underSecret : Bool) : ∀ (items : List (Tree ι))
    (inside : List (ι × Bool)) (s : Collected ι), (∀ v ∈ items, Part v o.value) →
    (∀ v ∈ items, Above o.value inside (sizeOf v)) → Kept t o.value inside s →
      Leaves t o.value inside (fun text => ∃ v ∈ items, Hides t underSecret v text) s
        (collectItems t underSecret items s)
  | [], inside, s, _, _, h => ⟨h, fun text htext => by simp at htext, fun _ h => h⟩
  | v :: items, inside, s, hpart, habove, h => by
    rw [collectItems]
    have hv := leaves_collect o underSecret v inside s (hpart v (List.mem_cons_self ..))
      (habove v (List.mem_cons_self ..)) h
    have hitems := leaves_items o underSecret items inside _
      (fun w hw => hpart w (List.mem_cons_of_mem _ hw))
      (fun w hw => habove w (List.mem_cons_of_mem _ hw)) hv.kept
    refine hv.then hitems ?_
    rintro text ⟨w, hw, htext⟩
    rcases List.mem_cons.1 hw with rfl | hw
    · exact .inl htext
    · exact .inr ⟨w, hw, htext⟩

theorem leaves_entries (o : Object ι) (underSecret : Bool) : ∀ (entries : List (Text × Tree ι))
    (inside : List (ι × Bool)) (s : Collected ι), (∀ e ∈ entries, Part e.2 o.value) →
    (∀ e ∈ entries, Above o.value inside (sizeOf e.2)) → Kept t o.value inside s →
      Leaves t o.value inside
        (fun text => ∃ e ∈ entries, Hides t (underSecret || isSecretKey t e.1) e.2 text) s
        (collectEntries t underSecret entries s)
  | [], inside, s, _, _, h => ⟨h, fun text htext => by simp at htext, fun _ h => h⟩
  | (k, v) :: entries, inside, s, hpart, habove, h => by
    rw [collectEntries]
    have hv := leaves_collect o (underSecret || isSecretKey t k) v inside s
      (hpart (k, v) (List.mem_cons_self ..)) (habove (k, v) (List.mem_cons_self ..)) h
    have hentries := leaves_entries o underSecret entries inside _
      (fun e he => hpart e (List.mem_cons_of_mem _ he))
      (fun e he => habove e (List.mem_cons_of_mem _ he)) hv.kept
    refine hv.then hentries ?_
    rintro text ⟨e, he, htext⟩
    rcases List.mem_cons.1 he with rfl | he
    · exact .inl htext
    · exact .inr ⟨e, he, htext⟩

end

/-- What the collector, told nothing yet, collects from a value. -/
def collected (t : Lib.Unicode) (underSecret : Bool) (v : Tree ι) : List Text :=
  (collectNamedValues t underSecret v ⟨[], []⟩).out

theorem mem_collected (o : Object ι) (underSecret : Bool) (text : Text) :
    text ∈ collected t underSecret o.value ↔ Hides t underSecret o.value text := by
  constructor
  · intro h
    rcases hides_of_collected underSecret o.value ⟨[], []⟩ text h with h | h
    · cases h
    · exact h
  · refine (leaves_collect o underSecret o.value [] ⟨[], []⟩ .self ?_ ?_).collected text
    · exact fun e he => absurd he List.not_mem_nil
    · exact fun e he => absurd he List.not_mem_nil

/-- Masking replaces just the leaves whose texts are collected, and nothing else; a masked value is
masked already. -/
theorem mask_collect (t : Lib.Unicode) (underSecret : Bool) (o : Object ι) :
    (∀ path keys y, LeafAt (maskSecretKeys t underSecret o.value) path keys y ↔
      ∃ x, LeafAt o.value path keys x ∧
        y = if hidden t underSecret keys x then .str redacted else x) ∧
    (∀ text, text ∈ collected t underSecret o.value ↔
      ∃ path keys x, LeafAt o.value path keys x ∧ hidden t underSecret keys x = true ∧
        text = x.text) ∧
    maskSecretKeys t underSecret (maskSecretKeys t underSecret o.value)
      = maskSecretKeys t underSecret o.value := by
  refine ⟨fun path keys y => ⟨leafAt_mask, ?_⟩, mem_collected o underSecret, mask_mask _ _⟩
  rintro ⟨x, hx, rfl⟩
  exact hx.mask underSecret

/-! A list under a plain key and, through an alias, under a secret one. -/

def sharedList : Tree Nat := .arr 1 [.leaf (.str (txt "hunter2"))]

def sharingHosts : Tree Nat := .obj 0 [(txt "hosts", sharedList), (txt "password", sharedList)]

theorem part_sharedList {c : Tree Nat} (h : Part c sharedList) : c = sharedList ∨ c.id? = none := by
  cases h with
  | self => exact .inl rfl
  | arr hv h =>
    obtain rfl := List.mem_singleton.1 hv
    cases h
    exact .inr rfl

theorem part_sharingHosts {c : Tree Nat} (h : Part c sharingHosts) :
    c = sharingHosts ∨ c = sharedList ∨ c.id? = none := by
  cases h with
  | self => exact .inl rfl
  | obj he h =>
    rcases List.mem_pair.1 he with rfl | rfl
    · exact .inr (part_sharedList h)
    · exact .inr (part_sharedList h)

def sharing : Object Nat where
  value := sharingHosts
  coherent := by
    intro c c' hc hc' id hid hid'
    rcases part_sharingHosts hc with rfl | rfl | hnone
    · rcases part_sharingHosts hc' with rfl | rfl | hnone
      · rfl
      · exact absurd (hid.trans hid'.symm) (by decide)
      · exact absurd (hnone.symm.trans hid') (by simp)
    · rcases part_sharingHosts hc' with rfl | rfl | hnone
      · exact absurd (hid.trans hid'.symm) (by decide)
      · rfl
      · exact absurd (hnone.symm.trans hid') (by simp)
    · exact absurd (hnone.symm.trans hid) (by simp)

/-- Its text is collected, though the plain place comes first, and stays in that place. -/
theorem mask_collect_sharing :
    txt "hunter2" ∈ collected .ascii false sharing.value ∧
      LeafAt (maskSecretKeys .ascii false sharing.value) [0, 0] [txt "hosts"]
        (.str (txt "hunter2")) ∧
      LeafAt (maskSecretKeys .ascii false sharing.value) [1, 0] [txt "password"]
        (.str redacted) := by
  obtain ⟨hmasked, hcollected, -⟩ := mask_collect .ascii false sharing
  have hplain : LeafAt sharing.value [0, 0] [txt "hosts"] (.str (txt "hunter2")) :=
    .obj rfl (.arr rfl (.leaf _))
  have hsecret : LeafAt sharing.value [1, 0] [txt "password"] (.str (txt "hunter2")) :=
    .obj rfl (.arr rfl (.leaf _))
  refine ⟨(hcollected _).2 ⟨_, _, _, hsecret, by decide +kernel, rfl⟩,
    (hmasked _ _ _).2 ⟨_, hplain, ?_⟩, (hmasked _ _ _).2 ⟨_, hsecret, ?_⟩⟩
  · rw [if_neg (by decide +kernel)]
  · rw [if_pos (by decide +kernel)]

end AnsiDeck.Scrub
