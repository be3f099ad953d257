import AnsiDeck.Scrub.NoLongForm

/-!
# Scrubbing drops nothing

What `scrub_event` and `scrub_exact` make of a value has its shape: each item and each member has
its image, in order, and the members of an object keep different names. The names tell apart what
scrubs to one text, whatever other names there are. A line list is scrubbed as one text, so its
lines may be fewer.

A number that `json.loads` read has no more digits than `str` writes.
-/

namespace AnsiDeck.Scrub

open Lib

/-! ## `scrub_exact` -/

section

variable (text : Text → Text)

mutual

/-- `walk`, with whether anything was changed before and after. -/
def exactValue : Value → Bool → Value × Bool
  | .null, changed => (.null, changed)
  | .bool b, changed => (.bool b, changed)
  | .int n, changed => (.int n, changed)
  | .float shown, changed => (.float shown, changed)
  | .str s, changed => (.str (text s), changed || text s != s)
  | .arr items, changed =>
    let r := exactItems items changed
    (.arr r.1, r.2)
  | .obj entries, changed =>
    let r := exactEntries ∅ entries changed
    (.obj r.1.entries, r.2)

def exactItems : List Value → Bool → List Value × Bool
  | [], changed => ([], changed)
  | v :: items, changed =>
    let r := exactValue v changed
    let rest := exactItems items r.2
    (r.1 :: rest.1, rest.2)

/-- The members still to come, put into `out`. -/
def exactEntries (out : Dict Text Value) : List (Text × Value) → Bool → Dict Text Value × Bool
  | [], changed => (out, changed)
  | (k, v) :: entries, changed =>
    let key := freshKey out.keys (text k) out.keys.length (text k) 2
    let r := exactValue v (changed || text k != k)
    exactEntries (out.set key r.1) entries r.2

end

end

def scrubExact (u : Unicode) (secrets : List Text) (data : Value) : Value × Bool :=
  match exactPass u secrets with
  | none => (data, false)
  | some pass => exactValue pass.run data false

/-! ## Images -/

/-- What a scrubber does with a text, a number and a list of lines. -/
structure Rules where
  text : Text → Text
  /-- A number that is replaced. -/
  marks : Text → Bool
  /-- A list that is scrubbed as one text. -/
  lines : Option Text → List Value → Option (List Value)

def eventRules (u : Unicode) (secrets : List Text) : Rules where
  text := scrubText u secrets
  marks n := n ∈ numbers u secrets
  lines key items := (lineList key items).map fun lines => (scrubLines u secrets lines).map .str

def exactRules (u : Unicode) (secrets : List Text) : Rules where
  text := match exactPass u secrets with
    | none => id
    | some pass => pass.run
  marks _ := false
  lines _ _ := none

/-- The scrubbed name, with a number after it where it was taken. -/
def Named (scrubbed key : Text) : Prop :=
  key = scrubbed ∨ ∃ n, key = scrubbed ++ txt "#" ++ decimal n

mutual

/-- The value a value under `key` is scrubbed to. -/
inductive Image (r : Rules) : Option Text → Value → Value → Prop
  | null (key : Option Text) : Image r key .null .null
  | bool (key : Option Text) (b : Bool) : Image r key (.bool b) (.bool b)
  | int (key : Option Text) (n : Int) :
      Image r key (.int n) (if r.marks (showInt n) then .str redacted else .int n)
  | float (key : Option Text) (shown : Text) :
      Image r key (.float shown) (if r.marks shown then .str redacted else .float shown)
  | str (key : Option Text) (s : Text) : Image r key (.str s) (.str (r.text s))
  | lines {key : Option Text} {items lines : List Value} (h : r.lines key items = some lines) :
      Image r key (.arr items) (.arr lines)
  | arr {key : Option Text} {items items' : List Value} (h : r.lines key items = none)
      (hitems : ImageItems r items items') : Image r key (.arr items) (.arr items')
  | obj {key : Option Text} {entries entries' : List (Text × Value)}
      (hnodup : (entries'.map Prod.fst).Nodup) (hentries : ImageEntries r entries entries') :
      Image r key (.obj entries) (.obj entries')

/-- One image for each item, in order. -/
inductive ImageItems (r : Rules) : List Value → List Value → Prop
  | nil : ImageItems r [] []
  | cons {v v' : Value} {items items' : List Value} (hv : Image r none v v')
      (h : ImageItems r items items') : ImageItems r (v :: items) (v' :: items')

inductive ImageEntries (r : Rules) : List (Text × Value) → List (Text × Value) → Prop
  | nil : ImageEntries r [] []
  | cons {k k' : Text} {v v' : Value} {entries entries' : List (Text × Value)}
      (hk : Named (r.text k) k') (hv : Image r (some k) v v')
      (h : ImageEntries r entries entries') :
      ImageEntries r ((k, v) :: entries) ((k', v') :: entries')

end

/-- The members of each object have different names. -/
def Value.Distinct (v : Value) : Prop := v.All (fun _ => True) fun es => (es.map Prod.fst).Nodup

def Value.DistinctItems (items : List Value) : Prop :=
  Value.AllItems (fun _ => True) (fun es => (es.map Prod.fst).Nodup) items

def Value.DistinctEntries (entries : List (Text × Value)) : Prop :=
  Value.AllEntries (fun _ => True) (fun es => (es.map Prod.fst).Nodup) entries

/-! ## Names -/

theorem freshKey_of_not_mem {taken : List Text} {base : Text} (h : base ∉ taken) (fuel n : Nat) :
    freshKey taken base fuel base n = base := by
  cases fuel with
  | zero => rfl
  | succ fuel => rw [freshKey, if_neg h]

theorem named_freshKey (taken : List Text) (base : Text) (fuel n : Nat) :
    Named base (freshKey taken base fuel base n) := by
  rcases freshKey_cases taken base fuel base n with h | ⟨j, -, -, h⟩
  · exact .inl h
  · exact .inr ⟨j, h⟩

theorem named_scrubKey (u : Unicode) (secrets keys out : List Text) (key : Text) :
    Named (scrubText u secrets key) (scrubKey u secrets keys out key) := by
  rw [scrubKey]
  split
  · next hsame => exact .inl hsame.symm
  · exact named_freshKey _ _ _ _

/-- The name a member gets is new, and none of the members to come has it. -/
theorem scrubKey_new {u : Unicode} {secrets keys out rest : List Text} {key : Text}
    (hkeys : ∀ k ∈ key :: rest, k ∈ keys) (hnodup : (key :: rest).Nodup)
    (hout : ∀ k ∈ key :: rest, k ∉ out) :
    scrubKey u secrets keys out key ∉ out ∧
      ∀ k ∈ rest, k ∉ out ++ [scrubKey u secrets keys out key] := by
  have hkey := hout key (List.mem_cons_self ..)
  have hrest : ∀ k ∈ rest, k ∉ out := fun k hk => hout k (List.mem_cons_of_mem _ hk)
  by_cases hsame : scrubText u secrets key = key
  · have heq : scrubKey u secrets keys out key = key := by
      rw [scrubKey]
      exact if_pos hsame
    rw [heq]
    refine ⟨hkey, fun k hk hmem => ?_⟩
    rcases List.mem_append.1 hmem with hmem | hmem
    · exact hrest k hk hmem
    · rw [List.mem_singleton.1 hmem] at hk
      exact (List.nodup_cons.1 hnodup).1 hk
  · have hrenamed : scrubKey u secrets keys out key ∉ out ∧
        scrubKey u secrets keys out key ∉ keys :=
      scrubKey_free hsame
    obtain ⟨hfree, hother⟩ := hrenamed
    refine ⟨hfree, fun k hk hmem => ?_⟩
    rcases List.mem_append.1 hmem with hmem | hmem
    · exact hrest k hk hmem
    · rw [← List.mem_singleton.1 hmem] at hother
      exact hother (hkeys k (List.mem_cons_of_mem _ hk))

/-! ## `scrub_event` -/

mutual

theorem image_scrubValue (u : Unicode) (secrets : List Text) (key : Option Text) :
    ∀ v : Value, v.Distinct → Image (eventRules u secrets) key v (scrubValue u secrets key v)
  | .null, _ => .null key
  | .bool b, _ => .bool key b
  | .int n, _ => by
    have h := Image.int (r := eventRules u secrets) key n
    simpa [scrubValue, eventRules] using h
  | .float shown, _ => by
    have h := Image.float (r := eventRules u secrets) key shown
    simpa [scrubValue, eventRules] using h
  | .str s, _ => .str key s
  | .arr items, h => by
    rw [scrubValue]
    split
    · next lines hlines =>
      refine .lines ?_
      show (lineList key items).map _ = _
      rw [hlines]
      rfl
    · next hlines =>
      refine .arr ?_ (image_scrubItems u secrets items h)
      show (lineList key items).map _ = _
      rw [hlines]
      rfl
  | .obj entries, h => by
    rw [scrubValue]
    obtain ⟨more, heq, hmore⟩ := image_scrubDict u secrets (entries.map Prod.fst) entries ∅
      (fun k hk => hk) h.1 (fun k _ => List.not_mem_nil) h.2
    rw [Dict.entries_empty, List.nil_append] at heq
    exact .obj (Dict.nodup _) (heq ▸ hmore)

theorem image_scrubItems (u : Unicode) (secrets : List Text) :
    ∀ items : List Value, Value.DistinctItems items →
      ImageItems (eventRules u secrets) items (scrubItems u secrets items)
  | [], _ => .nil
  | v :: items, h => .cons (image_scrubValue u secrets none v h.1)
      (image_scrubItems u secrets items h.2)

/-- The members still to come are put after those that are there. -/
theorem image_scrubDict (u : Unicode) (secrets keys : List Text) :
    ∀ (entries : List (Text × Value)) (out : Dict Text Value),
      (∀ k ∈ entries.map Prod.fst, k ∈ keys) → (entries.map Prod.fst).Nodup →
      (∀ k ∈ entries.map Prod.fst, k ∉ out.keys) → Value.DistinctEntries entries →
      ∃ more, (scrubDict u secrets keys out entries).entries = out.entries ++ more ∧
        ImageEntries (eventRules u secrets) entries more
  | [], out, _, _, _, _ => ⟨[], (List.append_nil _).symm, .nil⟩
  | (key, v) :: rest, out, hkeys, hnodup, hout, h => by
    obtain ⟨hfree, hrest⟩ := scrubKey_new hkeys hnodup hout
    rw [← Dict.keys_set_of_not_mem hfree] at hrest
    obtain ⟨more, heq, hmore⟩ := image_scrubDict u secrets keys rest _
      (fun k hk => hkeys k (List.mem_cons_of_mem _ hk)) (List.nodup_cons.1 hnodup).2 hrest h.2
    rw [Dict.entries_set_of_not_mem hfree, List.append_assoc] at heq
    exact ⟨_, heq, .cons (named_scrubKey u secrets keys out.keys key)
      (image_scrubValue u secrets (some key) v h.1) hmore⟩

end

/-! ## `scrub_exact` -/

/-- The rules of a walk that only replaces texts. -/
def plainRules (text : Text → Text) : Rules := ⟨text, fun _ => false, fun _ _ => none⟩

mutual

theorem image_exactValue (text : Text → Text) (key : Option Text) : ∀ (v : Value) (changed : Bool),
    Image (plainRules text) key v (exactValue text v changed).1
  | .null, _ => .null key
  | .bool b, _ => .bool key b
  | .int n, _ => .int key n
  | .float shown, _ => .float key shown
  | .str s, _ => .str key s
  | .arr items, changed => .arr rfl (image_exactItems text items changed)
  | .obj entries, changed => by
    obtain ⟨more, heq, hmore⟩ := image_exactEntries text entries ∅ changed
    rw [Dict.entries_empty, List.nil_append] at heq
    exact .obj (Dict.nodup _) (heq ▸ hmore)

theorem image_exactItems (text : Text → Text) : ∀ (items : List Value) (changed : Bool),
    ImageItems (plainRules text) items (exactItems text items changed).1
  | [], _ => .nil
  | v :: items, changed =>
    .cons (image_exactValue text none v changed) (image_exactItems text items _)

theorem image_exactEntries (text : Text → Text) :
    ∀ (entries : List (Text × Value)) (out : Dict Text Value) (changed : Bool),
      ∃ more, (exactEntries text out entries changed).1.entries = out.entries ++ more ∧
        ImageEntries (plainRules text) entries more
  | [], out, _ => ⟨[], (List.append_nil _).symm, .nil⟩
  | (k, v) :: entries, out, changed => by
    have hfree := freshKey_not_mem out.keys (text k) 2
    obtain ⟨more, heq, hmore⟩ := image_exactEntries text entries
      (out.set (freshKey out.keys (text k) out.keys.length (text k) 2)
        (exactValue text v (changed || text k != k)).1)
      (exactValue text v (changed || text k != k)).2
    rw [Dict.entries_set_of_not_mem hfree, List.append_assoc] at heq
    exact ⟨_, heq, .cons (named_freshKey _ _ _ _) (image_exactValue text (some k) v _) hmore⟩

end

mutual

theorem stays_changed (text : Text → Text) : ∀ v : Value, (exactValue text v true).2 = true
  | .null => rfl
  | .bool _ => rfl
  | .int _ => rfl
  | .float _ => rfl
  | .str _ => rfl
  | .arr items => items_stay_changed text items
  | .obj entries => entries_stay_changed text entries ∅

theorem items_stay_changed (text : Text → Text) :
    ∀ items : List Value, (exactItems text items true).2 = true
  | [] => rfl
  | v :: items => by
    rw [exactItems, stays_changed text v]
    exact items_stay_changed text items

theorem entries_stay_changed (text : Text → Text) :
    ∀ (entries : List (Text × Value)) (out : Dict Text Value),
      (exactEntries text out entries true).2 = true
  | [], _ => rfl
  | (k, v) :: entries, out => by
    rw [exactEntries, Bool.true_or, stays_changed text v]
    exact entries_stay_changed text entries _

end

/-- What was unchanged in the end was so before. -/
theorem eq_false_of_unchanged {f : Bool → Bool} (hf : f true = true) {changed : Bool}
    (h : f changed = false) : changed = false := by
  cases changed with
  | false => rfl
  | true => exact absurd (hf.symm.trans h) Bool.true_eq_false_eq_False

mutual

/-- A walk that changed nothing returns what it was given. -/
theorem eq_of_unchanged (text : Text → Text) : ∀ v : Value, v.Distinct →
    (exactValue text v false).2 = false → (exactValue text v false).1 = v
  | .null, _, _ => rfl
  | .bool _, _, _ => rfl
  | .int _, _, _ => rfl
  | .float _, _, _ => rfl
  | .str s, _, h => by
    rw [exactValue, Bool.false_or, bne_eq_false_iff_eq] at h
    exact congrArg Value.str h
  | .arr items, hdistinct, h => congrArg Value.arr (items_of_unchanged text items hdistinct h)
  | .obj entries, hdistinct, h =>
    congrArg Value.obj (entries_of_unchanged text entries ∅ hdistinct.1
      (fun _ _ => List.not_mem_nil) hdistinct.2 h)

theorem items_of_unchanged (text : Text → Text) : ∀ items : List Value,
    Value.DistinctItems items → (exactItems text items false).2 = false →
      (exactItems text items false).1 = items
  | [], _, _ => rfl
  | v :: items, hdistinct, h => by
    rw [exactItems] at h ⊢
    have hv : (exactValue text v false).2 = false :=
      eq_false_of_unchanged (f := fun c => (exactItems text items c).2)
        (items_stay_changed text items) h
    rw [hv] at h ⊢
    exact congrArg₂ List.cons (eq_of_unchanged text v hdistinct.1 hv)
      (items_of_unchanged text items hdistinct.2 h)

theorem entries_of_unchanged (text : Text → Text) :
    ∀ (entries : List (Text × Value)) (out : Dict Text Value), (entries.map Prod.fst).Nodup →
      (∀ k ∈ entries.map Prod.fst, k ∉ out.keys) → Value.DistinctEntries entries →
      (exactEntries text out entries false).2 = false →
      (exactEntries text out entries false).1.entries = out.entries ++ entries
  | [], out, _, _, _, _ => (List.append_nil _).symm
  | (k, v) :: entries, out, hnodup, hout, hdistinct, h => by
    have hk : k ∉ out.keys := hout k (List.mem_cons_self ..)
    rw [exactEntries] at h ⊢
    have hv := eq_false_of_unchanged (f := fun c => (exactEntries text
        (out.set (freshKey out.keys (text k) out.keys.length (text k) 2)
          (exactValue text v (false || text k != k)).1) entries c).2)
      (entries_stay_changed text entries _) h
    have hkey : (text k != k) = false :=
      eq_false_of_unchanged (f := fun c => (exactValue text v c).2) (stays_changed text v) hv
    have hsame : text k = k := bne_eq_false_iff_eq.1 hkey
    rw [Bool.false_or, hkey] at hv h ⊢
    rw [hv, hsame, freshKey_of_not_mem hk, eq_of_unchanged text v hdistinct.1 hv] at h ⊢
    have hset : ∀ k' ∈ entries.map Prod.fst, k' ∉ (out.set k v).keys := by
      intro k' hk' hmem
      rcases Dict.mem_keys_set.1 hmem with rfl | hmem
      · exact (List.nodup_cons.1 hnodup).1 hk'
      · exact hout k' (List.mem_cons_of_mem _ hk') hmem
    have hrest := entries_of_unchanged text entries (out.set k v) (List.nodup_cons.1 hnodup).2 hset
      hdistinct.2 h
    rw [hrest, Dict.entries_set_of_not_mem hk, List.append_assoc]
    rfl

end

mutual

/-- Without a secret every text is its own image. -/
theorem image_id (key : Option Text) : ∀ v : Value, v.Distinct → Image (plainRules id) key v v
  | .null, _ => .null key
  | .bool b, _ => .bool key b
  | .int n, _ => .int key n
  | .float shown, _ => .float key shown
  | .str s, _ => .str key s
  | .arr items, h => .arr rfl (imageItems_id items h)
  | .obj entries, h => .obj h.1 (imageEntries_id entries h.2)

theorem imageItems_id : ∀ items : List Value, Value.DistinctItems items →
    ImageItems (plainRules id) items items
  | [], _ => .nil
  | v :: items, h => .cons (image_id none v h.1) (imageItems_id items h.2)

theorem imageEntries_id : ∀ entries : List (Text × Value), Value.DistinctEntries entries →
    ImageEntries (plainRules id) entries entries
  | [], _ => .nil
  | (k, v) :: entries, h =>
    .cons (.inl rfl) (image_id (some k) v h.1) (imageEntries_id entries h.2)

end

theorem exactRules_none {u : Unicode} {secrets : List Text} (h : exactPass u secrets = none) :
    exactRules u secrets = plainRules id := by
  rw [exactRules, h]
  rfl

theorem exactRules_some {u : Unicode} {secrets : List Text} {pass : Pass}
    (h : exactPass u secrets = some pass) : exactRules u secrets = plainRules pass.run := by
  rw [exactRules, h]
  rfl

/-- Nothing is lost from an event, nor from a source's data, and what was not changed is the same.
-/
theorem scrub_shape (u : Unicode) (secrets : List Text) (event : Value)
    (hdistinct : event.Distinct) :
    (∀ raises, raises event = false →
      Image (eventRules u secrets) none event (scrubEvent u raises secrets event)) ∧
    Image (exactRules u secrets) none event (scrubExact u secrets event).1 ∧
    ((scrubExact u secrets event).2 = false → (scrubExact u secrets event).1 = event) := by
  refine ⟨fun raises hraises => ?_, ?_⟩
  · rw [scrubEvent, hraises]
    exact image_scrubValue u secrets none event hdistinct
  · rw [scrubExact]
    cases hpass : exactPass u secrets with
    | none =>
      rw [exactRules_none hpass]
      exact ⟨image_id none event hdistinct, fun _ => rfl⟩
    | some pass =>
      rw [exactRules_some hpass]
      exact ⟨image_exactValue pass.run none event false, eq_of_unchanged pass.run event hdistinct⟩

/-- A key that is scrubbed to the marker, where the marker and its first numbered name are keys too,
and one that has the secret in it. -/
def tokenEvent : Value :=
  .obj [(txt "tokentokentoken", .int 1), (txt "[REDACTED]", .int 2),
    (txt "xtokentokentoken", .int 3), (txt "[REDACTED]#2", .int 4)]

theorem distinct_tokenEvent : tokenEvent.Distinct :=
  ⟨by decide, trivial, trivial, trivial, trivial, trivial⟩

theorem scrub_shape_token :
    Image (eventRules ascii [txt "tokentokentoken"]) none tokenEvent
      (scrubEvent ascii (fun _ => false) [txt "tokentokentoken"] tokenEvent) ∧
    Image (exactRules ascii [txt "tokentokentoken"]) none tokenEvent
      (scrubExact ascii [txt "tokentokentoken"] tokenEvent).1 :=
  have h := scrub_shape ascii [txt "tokentokentoken"] tokenEvent distinct_tokenEvent
  ⟨h.1 _ rfl, h.2.1⟩

end AnsiDeck.Scrub
