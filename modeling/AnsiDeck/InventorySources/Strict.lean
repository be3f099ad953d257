import AnsiDeck.InventorySources.Normalise
import AnsiDeck.Lib.JsonWriter

/-!
# Storing a source's graph

The graph of a source is stored as JSON. `json.loads` takes `NaN` and the infinities, and reads a
number that is too large as infinite; `_unwrap` lets them through, `json.dumps` writes them as
constants, and by RFC 8259 that is no JSON. `strict_iff` says for which outputs it is.
-/

namespace AnsiDeck

namespace InventorySources

namespace Parse

open Lib (Dialect Dict Double Json Str str)
open Lib.JsonText
  (Readable ReadableItems ReadableEntries readableItems_iff readableEntries_iff loads
  dump loads_dump readable_of_loads)

/-- Every number in the value is finite, at any depth. -/
def FiniteNumbers (v : Json) : Prop :=
  ∀ k x, Json.At k v (.float x) → ∃ negative mantissa shift h, x = .finite negative mantissa shift h

def groupJson (group : SourceGroup) : Json :=
  .obj [(str "hosts", .arr (group.hosts.map .str)),
    (str "children", .arr (group.children.map .str)), (str "vars", .obj group.vars.entries)]

/-- The graph as it is given to `json.dumps`. -/
def graphJson (graph : SourceGraph) : Json :=
  .obj [(str "vars", .obj graph.vars.entries),
    (str "hosts", .obj (graph.hosts.entries.map fun e => (e.1, .obj e.2.entries))),
    (str "groups", .obj (graph.groups.entries.map fun e => (e.1, groupJson e.2)))]

/-- Its numbers are finite, and its text is JSON by RFC 8259. -/
structure StrictJson (graph : SourceGraph) : Prop where
  finite : ∀ vars ∈ allVars graph, ∀ e ∈ vars.entries, FiniteNumbers e.2
  json : ∃ room data, loads .rfc8259 room (dump (graphJson graph)) = some data

/-! ## What RFC 8259 reads -/

mutual

theorem readable_iff_finite : ∀ (v : Json), Readable .rfc8259 v ↔ FiniteNumbers v
  | .null | .bool _ | .str _ => ⟨fun _ k x hat => (by cases hat), fun _ => trivial⟩
  | .int n => ⟨fun _ k x hat => (by cases hat), fun _ => rfl⟩
  | .float (.finite negative mantissa shift h) =>
    ⟨fun _ k x hat => (by cases hat; exact ⟨negative, mantissa, shift, h, rfl⟩), fun _ => trivial⟩
  | .float .nan | .float (.infinity _) =>
    ⟨fun h => (by cases h), fun h => (by obtain ⟨_, _, _, _, h⟩ := h 0 _ .here; cases h)⟩
  | .arr items => by
    rw [Readable, readableItems_iff_finite items]
    constructor
    · intro h k x hat
      cases hat with
      | item hv hat => exact h _ hv _ _ hat
    · exact fun h v hv k x hat => h (k + 1) x (.item hv hat)
  | .obj entries => by
    rw [Readable, readableEntries_iff_finite entries]
    constructor
    · intro h k x hat
      cases hat with
      | member he hat => exact h _ he _ _ hat
    · exact fun h e he k x hat => h (k + 1) x (.member he hat)

theorem readableItems_iff_finite : ∀ (vs : List Json),
    ReadableItems .rfc8259 vs ↔ ∀ v ∈ vs, FiniteNumbers v
  | [] => by simp [ReadableItems]
  | v :: vs => by
    rw [ReadableItems, readable_iff_finite v, readableItems_iff_finite vs, List.forall_mem_cons]

theorem readableEntries_iff_finite : ∀ (es : List (Str × Json)),
    ReadableEntries .rfc8259 es ↔ ∀ e ∈ es, FiniteNumbers e.2
  | [] => by simp [ReadableEntries]
  | (_, v) :: es => by
    rw [ReadableEntries, readable_iff_finite v, readableEntries_iff_finite es, List.forall_mem_cons]

end

theorem readable_graphJson (graph : SourceGraph) : Readable .rfc8259 (graphJson graph) ↔
    ∀ vars ∈ allVars graph, ∀ e ∈ vars.entries, FiniteNumbers e.2 := by
  have hvars (vars : Vars) : Readable .rfc8259 (.obj vars.entries) ↔
      ∀ e ∈ vars.entries, FiniteNumbers e.2 := by
    rw [Readable, readableEntries_iff_finite]
  have hnames (names : List Str) : Readable .rfc8259 (.arr (names.map .str)) := by
    rw [Readable, readableItems_iff]
    intro v hv
    obtain ⟨name, -, rfl⟩ := List.mem_map.1 hv
    trivial
  have hgroup (group : SourceGroup) : Readable .rfc8259 (groupJson group) ↔
      ∀ e ∈ group.vars.entries, FiniteNumbers e.2 := by
    rw [← hvars]
    exact ⟨fun h => h.2.2.1, fun h => ⟨hnames _, hnames _, h, trivial⟩⟩
  have hobj (entries : List (Str × Json)) : Readable .rfc8259 (.obj entries) ↔
      ∀ e ∈ entries, Readable .rfc8259 e.2 := readableEntries_iff
  rw [graphJson, hobj]
  simp only [List.forall_mem_cons, allVars, List.forall_mem_append, List.forall_mem_map,
    hvars]
  rw [hobj, hobj]
  simp only [List.forall_mem_map, hvars, hgroup, List.not_mem_nil, false_implies,
    implies_true, and_true]

theorem strictJson_iff (graph : SourceGraph) : StrictJson graph ↔
    ∀ vars ∈ allVars graph, ∀ e ∈ vars.entries, FiniteNumbers e.2 := by
  constructor
  · intro h
    obtain ⟨room, data, hloads⟩ := h.json
    exact (readable_graphJson graph).1 (readable_of_loads hloads)
  · intro h
    exact ⟨h, (graphJson graph).depth, _, loads_dump ((readable_graphJson graph).2 h) le_rfl⟩

/-! ## What `_unwrap` lets through -/

mutual

/-- `_unwrap` changes no number. -/
theorem unwrap_readable : ∀ {depth : Nat} {v w : Json}, unwrap depth v = .ok w →
    (Readable .rfc8259 w ↔ Readable .rfc8259 v)
  | depth, .obj entries, w, h => by
    rw [unwrap] at h
    split at h
    · cases h
    split at h
    · cases h
    split at h
    · rename_i s hunsafe
      cases h
      unfold unsafeValue at hunsafe
      split at hunsafe
      · split at hunsafe
        · cases hunsafe
          exact ⟨fun _ => ⟨trivial, trivial⟩, fun _ => trivial⟩
        · cases hunsafe
      · cases hunsafe
    · cases h
    · cases hes : unwrapEntries (depth + 1) entries with
      | error e =>
        rw [hes] at h
        cases h
      | ok es =>
        rw [hes] at h
        cases h
        exact unwrapEntries_readable hes
  | depth, .arr items, w, h => by
    rw [unwrap] at h
    split at h
    · cases h
    cases hws : unwrapItems (depth + 1) items with
    | error e =>
      rw [hws] at h
      cases h
    | ok ws =>
      rw [hws] at h
      cases h
      exact unwrapItems_readable hws
  | depth, .null, w, h | depth, .bool _, w, h | depth, .int _, w, h | depth, .float _, w, h
  | depth, .str _, w, h => by
    rw [unwrap] at h
    · split at h
      · cases h
      · cases h
        exact Iff.rfl
    all_goals simp

theorem unwrapItems_readable : ∀ {depth : Nat} {vs ws : List Json}, unwrapItems depth vs = .ok ws →
    (ReadableItems .rfc8259 ws ↔ ReadableItems .rfc8259 vs)
  | _, [], ws, h => by
    cases h
    exact Iff.rfl
  | depth, v :: vs, ws, h => by
    rw [unwrapItems] at h
    obtain ⟨w, hw, h⟩ := Lib.Except.bind_eq_ok.1 h
    obtain ⟨rest, hrest, h⟩ := Lib.Except.bind_eq_ok.1 h
    cases h
    exact and_congr (unwrap_readable hw) (unwrapItems_readable hrest)

theorem unwrapEntries_readable : ∀ {depth : Nat} {es es' : List (Str × Json)},
    unwrapEntries depth es = .ok es' →
    (ReadableEntries .rfc8259 es' ↔ ReadableEntries .rfc8259 es)
  | _, [], es', h => by
    cases h
    exact Iff.rfl
  | depth, (key, v) :: es, es', h => by
    rw [unwrapEntries] at h
    obtain ⟨w, hw, h⟩ := Lib.Except.bind_eq_ok.1 h
    obtain ⟨rest, hrest, h⟩ := Lib.Except.bind_eq_ok.1 h
    cases h
    exact and_congr (unwrap_readable hw) (unwrapEntries_readable hrest)

end

/-- A source's graph can be stored just when every variable that is read, and not dropped for a
vault's value in it, has finite numbers only. -/
theorem strict_iff (env : Env) (raw : Bytes) :
    (∀ graph warnings, parseOutput env raw = .ok (graph, warnings) → StrictJson graph) ↔
      ∀ data, Accepts env raw data → ∀ entries, .obj entries ∈ varsRead env data →
        ∀ e ∈ entries, (∃ w, unwrap 1 e.2 = .ok w) → FiniteNumbers e.2 := by
  have hgraph {data : Json} {graph : SourceGraph} {warnings : List Str}
      (hload : loadOutput env raw = .ok data)
      (hread : readOutput env data = .ok (graph, warnings)) :
      StrictJson graph ↔ ∀ entries, .obj entries ∈ varsRead env data →
        ∀ e ∈ entries, (∃ w, unwrap 1 e.2 = .ok w) → FiniteNumbers e.2 := by
    have hvars (key : Str) (value : Json) : _ ↔ IsRead env data key value :=
      isRead_iff (keyed_of_loadOutput hload) hread
    rw [strictJson_iff]
    constructor
    · rintro h entries hentries ⟨key, v⟩ he ⟨w, hw⟩
      obtain ⟨vars, hmem, hentry⟩ := (hvars key w).2 ⟨entries, v, hentries, he, hw⟩
      rw [← readable_iff_finite, ← unwrap_readable hw, readable_iff_finite]
      exact h vars hmem _ hentry
    · rintro h vars hmem ⟨key, w⟩ hentry
      obtain ⟨entries, v, hentries, he, hw⟩ := (hvars key w).1 ⟨vars, hmem, hentry⟩
      rw [← readable_iff_finite, unwrap_readable hw, readable_iff_finite]
      exact h entries hentries _ he ⟨w, hw⟩
  constructor
  · rintro h data ⟨hload, ⟨graph, warnings⟩, hread⟩
    exact (hgraph hload hread).1 (h graph warnings (Lib.Except.bind_eq_ok.2 ⟨data, hload, hread⟩))
  · intro h graph warnings hparse
    obtain ⟨data, hload, hread⟩ := Lib.Except.bind_eq_ok.1 hparse
    exact (hgraph hload hread).2 (h data ⟨hload, _, hread⟩)

/-- A host's `load` is `NaN`. -/
def nanLoad : Bytes :=
  (str ("\x7b\"_meta\": \x7b\"profile\": \"inventory_legacy\", \"hostvars\": \x7b\"web1\": " ++
    "\x7b\"load\": NaN\x7d\x7d\x7d\x7d")).map UInt8.ofNat

theorem nanLoad_accepted : ¬ ∀ (env : Env) (raw : Bytes) (graph : SourceGraph)
    (warnings : List Str),
    parseOutput env raw = .ok (graph, warnings) → StrictJson graph := by
  intro h
  have hnan : (match parseOutput plain nanLoad with
      | .ok (graph, _) => graph.hosts.entries.any fun e => e.2.entries.any fun v =>
        match v.2 with
        | .float .nan => true
        | _ => false
      | .error _ => false) = true := by decide +kernel
  cases hparse : parseOutput plain nanLoad with
  | error e =>
    rw [hparse] at hnan
    cases hnan
  | ok result =>
    rw [hparse] at hnan
    obtain ⟨⟨name, vars⟩, hhost, hnan⟩ := List.any_eq_true.1 hnan
    obtain ⟨⟨key, v⟩, hentry, hnan⟩ := List.any_eq_true.1 hnan
    have hfinite := (h plain nanLoad result.1 result.2 hparse).finite vars
      (List.mem_cons_of_mem _ (List.mem_append_left _ (List.mem_map_of_mem hhost))) _ hentry
    dsimp only at hnan hfinite
    split at hnan
    · obtain ⟨_, _, _, _, hx⟩ := hfinite 0 _ .here
      cases hx
    · cases hnan

end Parse

end InventorySources

end AnsiDeck
