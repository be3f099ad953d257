import AnsiDeck.InventorySources.Parse
import AnsiDeck.JsonLimits.Bounded

/-!
# The variables that `parse_output` keeps

What `_unwrap` returns nests no deeper than the limit and has neither a vault's value nor a marked
string in it, and `_parse_vars` keeps just what `_unwrap` returns. `varsRead` is where in the
document variables are read from.
-/

namespace AnsiDeck

namespace InventorySources

namespace Parse

open Lib (Dict Json Str str)
open Lib.JsonText (Keyed keyed_obj)
open InventoryRender (hostnameProblem groupProblem)

/-- No value of a vault and no marked string in it, at any depth. -/
def Clean (v : Json) : Prop :=
  ∀ k entries, Json.At k v (.obj entries) → hasVault entries = false ∧ unsafeValue entries = none

/-- What `_unwrap` returns at a depth. -/
structure Unwrapped (depth : Nat) (v : Json) : Prop where
  deep : v.depth + depth ≤ maxVarsDepth + 1
  clean : Clean v

/-- The exceptions that `parse_output` is meant to raise. -/
def Raised.IsSource (e : Raised) : Prop := ∃ message, e = .sourceError message

/-! ## One value -/

theorem hasVault_keys {entries entries' : List (Str × Json)}
    (h : entries'.map Prod.fst = entries.map Prod.fst) : hasVault entries' = hasVault entries := by
  have hany : ∀ l : List (Str × Json),
      hasVault l = (l.map Prod.fst).any fun key => key = str "__ansible_vault" := by
    intro l
    rw [List.any_map]
    rfl
  rw [hany, hany, h]

theorem unsafeValue_keys {entries entries' : List (Str × Json)}
    (h : entries'.map Prod.fst = entries.map Prod.fst) (hnone : unsafeValue entries = none) :
    unsafeValue entries' = none := by
  unfold unsafeValue at hnone ⊢
  split
  · rename_i key inner
    split
    · rename_i hkey
      subst hkey
      cases entries with
      | nil => cases h
      | cons e es =>
        cases es with
        | cons e' es => cases (List.cons.inj h).2
        | nil =>
          have hfst : e.1 = str "__ansible_unsafe" := (List.cons.inj h).1.symm
          dsimp only at hnone
          rw [if_pos hfst] at hnone
          cases hnone
    · rfl
  · rfl

theorem clean_scalar {v : Json} (hobj : ∀ entries, v ≠ .obj entries)
    (harr : ∀ items, v ≠ .arr items) :
    Clean v := by
  intro k entries hat
  cases hat with
  | here => exact absurd rfl (hobj entries)
  | item => exact absurd rfl (harr _)
  | member => exact absurd rfl (hobj _)

theorem clean_arr {items : List Json} (h : ∀ v ∈ items, Clean v) : Clean (.arr items) := by
  intro k entries hat
  cases hat with
  | item hv hat => exact h _ hv _ _ hat

theorem clean_obj {entries : List (Str × Json)} (hvault : hasVault entries = false)
    (hwrapped : unsafeValue entries = none)
    (h : ∀ e ∈ entries, Clean e.2) : Clean (.obj entries) := by
  intro k entries' hat
  cases hat with
  | here => exact ⟨hvault, hwrapped⟩
  | member he hat => exact h _ he _ _ hat

theorem unwrapped_scalar {depth : Nat} {v : Json} (hdepth : ¬ maxVarsDepth < depth)
    (hobj : ∀ entries, v ≠ .obj entries) (harr : ∀ items, v ≠ .arr items) : Unwrapped depth v := by
  refine ⟨?_, clean_scalar hobj harr⟩
  have hzero : v.depth = 0 := by
    cases v with
    | arr items => exact absurd rfl (harr items)
    | obj entries => exact absurd rfl (hobj entries)
    | _ => simp only [Json.depth]
  omega

mutual

theorem unwrap_ok : ∀ {depth : Nat} {v w : Json}, unwrap depth v = .ok w → Unwrapped depth w
  | depth, .obj entries, w, h => by
    rw [unwrap] at h
    split at h
    · cases h
    rename_i hdepth
    split at h
    · cases h
    rename_i hvault
    split at h
    · cases h
      exact unwrapped_scalar hdepth (by simp) (by simp)
    · cases h
    · rename_i hwrapped
      cases hes : unwrapEntries (depth + 1) entries with
      | error e =>
        rw [hes] at h
        cases h
      | ok es =>
        rw [hes] at h
        cases h
        obtain ⟨hkeys, hall⟩ := unwrapEntries_ok hes
        refine ⟨?_, clean_obj ?_ (unsafeValue_keys hkeys hwrapped) fun e he => (hall e he).clean⟩
        · have hle : Json.depthEntries es ≤ maxVarsDepth - depth :=
            Json.depthEntries_le.2 fun e he => by
              have := (hall e he).deep
              omega
          show Json.depthEntries es + 1 + depth ≤ maxVarsDepth + 1
          omega
        · rw [hasVault_keys hkeys]
          simpa using hvault
  | depth, .arr items, w, h => by
    rw [unwrap] at h
    split at h
    · cases h
    rename_i hdepth
    cases hws : unwrapItems (depth + 1) items with
    | error e =>
      rw [hws] at h
      cases h
    | ok ws =>
      rw [hws] at h
      cases h
      have hall := unwrapItems_ok hws
      refine ⟨?_, clean_arr fun w hw => (hall w hw).clean⟩
      have hle : Json.depthItems ws ≤ maxVarsDepth - depth :=
        Json.depthItems_le.2 fun w hw => by
          have := (hall w hw).deep
          omega
      show Json.depthItems ws + 1 + depth ≤ maxVarsDepth + 1
      omega
  | depth, .null, w, h | depth, .bool _, w, h | depth, .int _, w, h | depth, .float _, w, h
  | depth, .str _, w, h => by
    rw [unwrap] at h
    · split at h
      · cases h
      rename_i hdepth
      cases h
      exact unwrapped_scalar hdepth (by simp) (by simp)
    all_goals simp

theorem unwrapItems_ok : ∀ {depth : Nat} {vs ws : List Json}, unwrapItems depth vs = .ok ws →
    ∀ w ∈ ws, Unwrapped depth w
  | _, [], ws, h => by
    cases h
    simp
  | depth, v :: vs, ws, h => by
    rw [unwrapItems] at h
    obtain ⟨w, hw, h⟩ := Lib.Except.bind_eq_ok.1 h
    obtain ⟨rest, hrest, h⟩ := Lib.Except.bind_eq_ok.1 h
    cases h
    exact List.forall_mem_cons.2 ⟨unwrap_ok hw, unwrapItems_ok hrest⟩

theorem unwrapEntries_ok : ∀ {depth : Nat} {es es' : List (Str × Json)},
    unwrapEntries depth es = .ok es' →
    es'.map Prod.fst = es.map Prod.fst ∧ ∀ e ∈ es', Unwrapped depth e.2
  | _, [], es', h => by
    cases h
    simp
  | depth, (key, v) :: es, es', h => by
    rw [unwrapEntries] at h
    obtain ⟨w, hw, h⟩ := Lib.Except.bind_eq_ok.1 h
    obtain ⟨rest, hrest, h⟩ := Lib.Except.bind_eq_ok.1 h
    cases h
    obtain ⟨hkeys, hall⟩ := unwrapEntries_ok hrest
    exact ⟨by rw [List.map_cons, List.map_cons, hkeys],
      List.forall_mem_cons.2 ⟨unwrap_ok hw, hall⟩⟩

end

mutual

theorem unwrap_raises : ∀ {depth : Nat} {v : Json} {e : Raised}, unwrap depth v = .error e →
    e = .vaulted ∨ e.IsSource
  | depth, .obj entries, e, h => by
    rw [unwrap] at h
    split at h
    · cases h
      exact .inr ⟨_, rfl⟩
    split at h
    · cases h
      exact .inl rfl
    split at h
    · cases h
    · cases h
      exact .inr ⟨_, rfl⟩
    · cases hes : unwrapEntries (depth + 1) entries with
      | error e' =>
        rw [hes] at h
        cases h
        exact unwrapEntries_raises hes
      | ok es =>
        rw [hes] at h
        cases h
  | depth, .arr items, e, h => by
    rw [unwrap] at h
    split at h
    · cases h
      exact .inr ⟨_, rfl⟩
    cases hws : unwrapItems (depth + 1) items with
    | error e' =>
      rw [hws] at h
      cases h
      exact unwrapItems_raises hws
    | ok ws =>
      rw [hws] at h
      cases h
  | depth, .null, e, h | depth, .bool _, e, h | depth, .int _, e, h | depth, .float _, e, h
  | depth, .str _, e, h => by
    rw [unwrap] at h
    · split at h
      · cases h
        exact .inr ⟨_, rfl⟩
      · cases h
    all_goals simp

theorem unwrapItems_raises : ∀ {depth : Nat} {vs : List Json} {e : Raised},
    unwrapItems depth vs = .error e → e = .vaulted ∨ e.IsSource
  | _, [], e, h => by cases h
  | depth, v :: vs, e, h => by
    rw [unwrapItems] at h
    obtain h | ⟨w, -, h⟩ := Lib.Except.bind_eq_error.1 h
    · exact unwrap_raises h
    obtain h | ⟨ws, -, h⟩ := Lib.Except.bind_eq_error.1 h
    · exact unwrapItems_raises h
    · cases h

theorem unwrapEntries_raises : ∀ {depth : Nat} {es : List (Str × Json)} {e : Raised},
    unwrapEntries depth es = .error e → e = .vaulted ∨ e.IsSource
  | _, [], e, h => by cases h
  | depth, (key, v) :: es, e, h => by
    rw [unwrapEntries] at h
    obtain h | ⟨w, -, h⟩ := Lib.Except.bind_eq_error.1 h
    · exact unwrap_raises h
    obtain h | ⟨ws, -, h⟩ := Lib.Except.bind_eq_error.1 h
    · exact unwrapEntries_raises h
    · cases h

end

/-! ## One mapping of variables -/

/-- What `_parse_vars` makes of a value. -/
def Parsed (value : Json) (vars : Vars) : Prop :=
  ∃ place warnings warnings', parseVars value place warnings = .ok (vars, warnings')

theorem parseVars_raises {value : Json} {place : Str} {warnings : List Str} {e : Raised}
    (h : parseVars value place warnings = .error e) : e.IsSource := by
  unfold parseVars at h
  split at h
  · obtain ⟨entry, -, out, h⟩ := Lib.Except.foldlM_raises h
    unfold parseVar at h
    split at h
    · cases h
    · cases h
    · rename_i hnot hraise
      cases h
      obtain rfl | hsource := unwrap_raises hraise
      · exact absurd rfl hnot
      · exact hsource
  · cases h
    exact ⟨_, rfl⟩

theorem parsed_entries {value : Json} {vars : Vars} (h : Parsed value vars) :
    ∃ entries, value = .obj entries ∧
      (∀ e ∈ vars.entries, ∃ v, (e.1, v) ∈ entries ∧ unwrap 1 v = .ok e.2) ∧
      ((entries.map Prod.fst).Nodup →
        ∀ key v w, (key, v) ∈ entries → unwrap 1 v = .ok w → (key, w) ∈ vars.entries) := by
  obtain ⟨place, warnings, warnings', h⟩ := h
  unfold parseVars at h
  split at h
  · rename_i entries
    refine ⟨entries, rfl, ?_, fun hnodup => ?_⟩
    · refine Lib.Except.foldlM_rule (fun front out => ∀ e ∈ out.1.entries, ∃ v, (e.1, v) ∈ front ∧
        unwrap 1 v = .ok e.2) (by simp) ?_ h
      intro front entry back out out' _ hfront hstep e he
      unfold parseVar at hstep
      split at hstep
      · rename_i item hitem
        cases hstep
        obtain rfl | he := Dict.mem_entries_set he
        · exact ⟨entry.2, List.mem_append_right _ List.mem_cons_self, hitem⟩
        · obtain ⟨v, hv, hok⟩ := hfront e he
          exact ⟨v, List.mem_append_left _ hv, hok⟩
      · cases hstep
        obtain ⟨v, hv, hok⟩ := hfront e he
        exact ⟨v, List.mem_append_left _ hv, hok⟩
      · cases hstep
    · refine Lib.Except.foldlM_rule (fun front out => ∀ key v w, (key, v) ∈ front →
        unwrap 1 v = .ok w → (key, w) ∈ out.1.entries) (by simp) ?_ h
      intro front entry back out out' hl hfront hstep key v w hmem hok
      have hlast : (key, v) ∈ front → key ≠ entry.1 := by
        rintro hmem rfl
        rw [hl, List.map_append, List.nodup_append] at hnodup
        exact hnodup.2.2 _ (List.mem_map_of_mem hmem) _ (List.mem_map_of_mem List.mem_cons_self) rfl
      unfold parseVar at hstep
      rw [List.mem_append, List.mem_singleton] at hmem
      split at hstep
      · rename_i item hitem
        cases hstep
        rw [← Dict.get?_eq_some, Dict.get?_set]
        obtain hmem | rfl := hmem
        · rw [if_neg (hlast hmem), Dict.get?_eq_some]
          exact hfront key v w hmem hok
        · rw [if_pos rfl, ← Except.ok.inj (hitem.symm.trans hok)]
      · rename_i hraise
        cases hstep
        obtain hmem | rfl := hmem
        · exact hfront key v w hmem hok
        · rw [hraise] at hok
          cases hok
      · cases hstep
  · cases h

/-! ## Where they are in the document -/

/-- The raw groups: those of the sections whose name is one for a group. -/
def rawGroupsOf (rest : List (Str × Json)) : List (Str × List (Str × Json)) :=
  rest.filterMap fun e => match e.2 with
    | .obj group => if groupProblem e.1 = none then some (e.1, group) else none
    | _ => none

/-- The values that variables are read from: of the hosts of `hostvars`, of `all` and of the groups,
where the name is one that is kept. -/
def varsRead (env : Env) (data : Json) : List Json :=
  match sections data with
  | none => []
  | some (found, rest) =>
    (match orEmpty (get found "hostvars") with
      | .obj hostvars =>
        (hostvars.filter fun e => hostnameProblem env.ansible e.1 = none).map Prod.snd
      | _ => []) ++
    (rest.filterMap fun e => match e.2 with
      | .obj group =>
        if e.1 = str "all" ∨ groupProblem e.1 = none
          then some (orEmpty (get group "vars")) else none
      | _ => none)

/-- A variable is read, and this is what `_unwrap` makes of it. -/
def IsRead (env : Env) (data : Json) (key : Str) (value : Json) : Prop :=
  ∃ entries v, .obj entries ∈ varsRead env data ∧ (key, v) ∈ entries ∧ unwrap 1 v = .ok value

/-- All the variables of a graph. -/
def allVars (graph : SourceGraph) : List Vars :=
  graph.vars :: (graph.hosts.entries.map Prod.snd ++ graph.groups.entries.map fun e => e.2.vars)

/-! ## Different keys -/

theorem mem_of_get {entries : List (Str × Json)} {key : String} {v : Json}
    (h : get entries key = some v) : (str key, v) ∈ entries := by
  obtain ⟨l₁, l₂, rfl, -⟩ := List.lookup_eq_some_iff.1 h
  exact List.mem_append_right _ List.mem_cons_self

theorem keyed_member {entries : List (Str × Json)} (h : Keyed (.obj entries)) {e : Str × Json}
    (he : e ∈ entries) : Keyed e.2 :=
  fun k _ hat => h (k + 1) _ (.member he hat)

/-- `or {}` of a value, or of none. -/
theorem keyed_orEmpty {found : Option Json} (h : ∀ v, found = some v → Keyed v) :
    Keyed (orEmpty found) := by
  have hempty : Keyed (.obj []) := keyed_obj (by simp) (by simp)
  unfold orEmpty
  split
  all_goals first | exact hempty | skip
  · split
    · exact hempty
    · exact h _ rfl
  · exact h _ rfl

theorem keyed_sections {data : Json} {found rest : List (Str × Json)} (h : Keyed data)
    (hsections : sections data = some (found, rest)) : Keyed (.obj found) ∧ Keyed (.obj rest) := by
  unfold sections at hsections
  split at hsections
  · rename_i entries
    split at hsections
    · rename_i found' hfound
      cases hsections
      refine ⟨?_, keyed_obj ?_ fun e he => keyed_member h (List.mem_of_mem_filter he)⟩
      · cases hget : get entries "_meta" with
        | none =>
          rw [hget] at hfound
          cases hfound
          exact keyed_obj (by simp) (by simp)
        | some v =>
          rw [hget] at hfound
          cases hfound
          exact keyed_member h (mem_of_get hget)
      · exact (h 0 _ .here).sublist (List.filter_sublist.map _)
    · cases hsections
  · cases hsections

theorem keyed_varsRead {env : Env} {data : Json} (h : Keyed data) {value : Json}
    (hvalue : value ∈ varsRead env data) : Keyed value := by
  unfold varsRead at hvalue
  split at hvalue
  · cases hvalue
  rename_i found rest hsections
  obtain ⟨hfound, hrest⟩ := keyed_sections h hsections
  have hget {entries : List (Str × Json)} {key : String} (hentries : Keyed (.obj entries)) :
      Keyed (orEmpty (get entries key)) :=
    keyed_orEmpty fun v hv => keyed_member hentries (mem_of_get hv)
  obtain hvalue | hvalue := List.mem_append.1 hvalue
  · split at hvalue
    · rename_i hostvars hhostvars
      obtain ⟨e, he, rfl⟩ := List.mem_map.1 hvalue
      exact keyed_member (hhostvars ▸ hget hfound) (List.mem_of_mem_filter he)
    · cases hvalue
  · obtain ⟨⟨name, v⟩, he, hsome⟩ := List.mem_filterMap.1 hvalue
    dsimp only at hsome
    split at hsome
    · rename_i group
      split at hsome
      · cases hsome
        exact hget (keyed_member hrest he)
      · cases hsome
    · cases hsome

end Parse

end InventorySources

end AnsiDeck
