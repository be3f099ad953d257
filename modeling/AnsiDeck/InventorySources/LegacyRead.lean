import AnsiDeck.InventorySources.Legacy
import AnsiDeck.InventorySources.Normalise
import Mathlib.Algebra.BigOperators.Group.List.Basic

/-!
# A graph that is combined here is read back

`parse_output` of what `_legacy_json` writes. The hosts are met in another order (those with
variables first, then those in no group, then the members), which is why only what each name has is
the same; members, children and variables keep their order. It is read back just when no group is
named `_meta`, the one section whose name a group may have (`roundTrips_iff`).
-/

namespace AnsiDeck

namespace InventorySources

namespace Parse

open Lib (Dict Json Str str)
open InventoryRender (hostnameProblem groupProblem fromKeys)

/-! ## Variables and names -/

mutual

/-- `_unwrap` looks for `__ansible_vault` and `__ansible_unsafe` in every object, and at the
depth of every value; a clean and shallow one is left as it is. -/
theorem unwrap_eq : ∀ {depth : Nat} {v : Json}, Clean v →
    (∀ k w, Json.At k v w → k + depth ≤ maxVarsDepth) → unwrap depth v = .ok v
  | depth, .obj entries, hclean, hshallow => by
    have hroom : ¬ maxVarsDepth < depth := by
      have := hshallow 0 _ .here
      omega
    obtain ⟨hvault, hunsafe⟩ := hclean 0 entries .here
    have hentries : unwrapEntries (depth + 1) entries = .ok entries := by
      refine unwrapEntries_eq (fun e he k es hat => hclean (k + 1) es (.member he hat))
        fun e he k w hat => ?_
      have := hshallow (k + 1) w (.member he hat)
      omega
    rw [unwrap, if_neg hroom, hvault, if_neg Bool.false_ne_true, hunsafe, hentries]
    rfl
  | depth, .arr items, hclean, hshallow => by
    have hroom : ¬ maxVarsDepth < depth := by
      have := hshallow 0 _ .here
      omega
    have hitems : unwrapItems (depth + 1) items = .ok items := by
      refine unwrapItems_eq (fun v hv k es hat => hclean (k + 1) es (.item hv hat))
        fun v hv k w hat => ?_
      have := hshallow (k + 1) w (.item hv hat)
      omega
    rw [unwrap, if_neg hroom, hitems]
    rfl
  | depth, .null, _, hshallow | depth, .bool _, _, hshallow | depth, .int _, _, hshallow
  | depth, .float _, _, hshallow | depth, .str _, _, hshallow => by
    have hroom : ¬ maxVarsDepth < depth := by
      have := hshallow 0 _ .here
      omega
    rw [unwrap, if_neg hroom]
    all_goals simp

theorem unwrapItems_eq : ∀ {depth : Nat} {items : List Json}, (∀ v ∈ items, Clean v) →
    (∀ v ∈ items, ∀ k w, Json.At k v w → k + depth ≤ maxVarsDepth) →
    unwrapItems depth items = .ok items
  | _, [], _, _ => rfl
  | depth, v :: vs, hclean, hshallow => by
    rw [List.forall_mem_cons] at hclean hshallow
    rw [unwrapItems, unwrap_eq hclean.1 hshallow.1, unwrapItems_eq hclean.2 hshallow.2]
    rfl

theorem unwrapEntries_eq : ∀ {depth : Nat} {entries : List (Str × Json)},
    (∀ e ∈ entries, Clean e.2) →
    (∀ e ∈ entries, ∀ k w, Json.At k e.2 w → k + depth ≤ maxVarsDepth) →
    unwrapEntries depth entries = .ok entries
  | _, [], _, _ => rfl
  | depth, (key, v) :: es, hclean, hshallow => by
    rw [List.forall_mem_cons] at hclean hshallow
    rw [unwrapEntries, unwrap_eq hclean.1 hshallow.1, unwrapEntries_eq hclean.2 hshallow.2]
    rfl

end

/-- `_parse_vars` starts at the first level of a value. -/
theorem unwrap_plainVar {v : Json} (h : PlainVar v) : unwrap 1 v = .ok v :=
  unwrap_eq h.clean h.shallow

/-- `_parse_vars` returns the variables as they were written, in their order, and says nothing. -/
theorem parseVars_plain {vars : Vars}
    (h : ∀ e ∈ vars.entries, Lib.JsonText.Joined e.1 ∧ PlainVar e.2)
    (place : Str) (warnings : List Str) :
    parseVars (.obj vars.entries) place warnings = .ok (vars, warnings) := by
  obtain ⟨⟨read, warnings'⟩, hfold, hread, hwarnings⟩ :
      ∃ out : Vars × List Str, vars.entries.foldlM (parseVar place) (∅, warnings) = .ok out ∧
        out.1.entries = vars.entries ∧ out.2 = warnings := by
    refine Lib.Except.foldlM_returns
      (fun front (out : Vars × List Str) => out.1.entries = front ∧ out.2 = warnings)
      ⟨rfl, rfl⟩ ?_
    rintro front entry back ⟨read, warnings'⟩ hl ⟨hread, hwarnings⟩
    have hmem : entry ∈ vars.entries := by
      rw [hl]
      exact List.mem_append_right _ List.mem_cons_self
    have hnew : entry.1 ∉ read.keys := by
      rw [Dict.keys, hread]
      exact Dict.fresh_key hl vars.nodup
    refine ⟨(read.set entry.1 entry.2, warnings'), ?_, ?_, hwarnings⟩
    · rw [parseVar, unwrap_plainVar (h entry hmem).2]
    · show (read.set entry.1 entry.2).entries = _
      rw [Dict.entries_set_of_not_mem hnew, hread]
  obtain rfl := Dict.ext hread
  obtain rfl : warnings' = warnings := hwarnings
  exact hfold

/-- A list of names that was written is read as one: every item is a string. -/
theorem names_written (l : List Str) : names (some (.arr (l.map .str))) = .ok l := by
  rw [names, Lib.Except.mapM_eq_ok, List.forall₂_map_left_iff]
  exact List.forall₂_same.2 fun n _ => rfl

/-- An empty list isn't written, and what isn't there is read as empty. -/
theorem hosts_legacyGroup (group : SourceGroup) :
    names (get (legacyGroup group) "hosts") = .ok group.hosts := by
  have hname := names_written group.hosts
  rw [legacyGroup]
  split
  · exact hname
  · rename_i hnil
    rw [not_not] at hnil
    rw [hnil]
    split <;> split <;> rfl

theorem children_legacyGroup (group : SourceGroup) :
    names (get (legacyGroup group) "children") = .ok group.children := by
  have hname := names_written group.children
  rw [legacyGroup]
  split <;> split
  · exact hname
  · rename_i hnil
    rw [not_not] at hnil
    rw [hnil]
    split <;> rfl
  · exact hname
  · rename_i hnil
    rw [not_not] at hnil
    rw [hnil]
    split <;> rfl

/-- `vars` is written only when there are any, and read with `or {}`. -/
theorem vars_legacyGroup (group : SourceGroup) :
    orEmpty (get (legacyGroup group) "vars") = .obj group.vars.entries := by
  rw [legacyGroup]
  split <;> split <;> split
  all_goals first
  | rfl
  | rename_i hnil
    rw [not_not] at hnil
    rw [hnil]
    rfl

theorem vars_legacyAll (graph : SourceGraph) :
    orEmpty (get (legacyAll graph) "vars") = .obj graph.vars.entries := by
  rw [legacyAll]
  split
  · rfl
  · rename_i hnil
    rw [not_not] at hnil
    rw [hnil]
    rfl

/-! ## Hosts -/

section

variable {env : Env} {graph : SourceGraph}

/-- A host that is known is met again. -/
theorem addHost_old {r : Reading} {name : Str} (h : name ∈ r.hosts.keys) :
    addHost env r name = .ok (true, r) := by
  rw [addHost, if_pos (Dict.contains_iff_mem.2 h)]

/-- A new host has a good name and a place, and none has been skipped before. -/
theorem addHost_new {r : Reading} {name : Str} (hname : hostnameProblem env.ansible name = none)
    (hnew : name ∉ r.hosts.keys) (hskipped : r.skipped = []) (hroom : r.hosts.size < env.maxHosts) :
    addHost env r name = .ok (true, { r with hosts := r.hosts.set name ∅ }) := by
  have hnot : ¬ r.hosts.contains name = true := fun h => hnew (Dict.contains_iff_mem.1 h)
  have hskip : name ∉ r.skipped := by
    rw [hskipped]
    exact List.not_mem_nil
  rw [addHost, if_neg hnot, if_neg hskip, hname]
  exact if_neg (Nat.not_le.2 hroom)

/-- A dict with fewer keys is no larger. -/
theorem size_le_of_keys {ν ω : Type} {d : Dict Str ν} {e : Dict Str ω}
    (h : ∀ k ∈ d.keys, k ∈ e.keys) :
    d.size ≤ e.size := by
  rw [← Dict.length_keys, ← Dict.length_keys]
  exact (d.keys_nodup.subperm h).length_le

/-- A host is added with no variables and gets them next; it stands last either way. -/
theorem entries_set_set {d : Dict Str Vars} {name : Str} (h : name ∉ d.keys) (v w : Vars) :
    ((d.set name v).set name w).entries = d.entries ++ [(name, w)] := by
  have hmem : (d.set name v).contains name = true := by
    rw [Dict.contains_set, decide_eq_true rfl, Bool.true_or]
  have hothers : d.entries.map (fun e => (e.1, if e.1 = name then w else e.2)) = d.entries := by
    refine (List.map_congr_left fun e he => ?_).trans (List.map_id _)
    have hne : e.1 ≠ name := by
      rintro rfl
      exact h (List.mem_map_of_mem he)
    rw [if_neg hne]
    rfl
  rw [Dict.set, dif_pos hmem]
  show (d.set name v).entries.map (fun e => (e.1, if e.1 = name then w else e.2)) = _
  rw [Dict.entries_set_of_not_mem h, List.map_append, hothers, List.map_singleton, if_pos rfl]

/-- The hosts of `_meta` have their variables. -/
theorem readHosts_legacy (h : Combinable env graph) :
    ((legacyHostvars graph).entries.map fun e => (e.1, Json.obj e.2.entries)).foldlM (readHost env)
      ⟨∅, [], []⟩ = .ok ⟨legacyHostvars graph, [], []⟩ := by
  rw [List.foldlM_map]
  obtain ⟨⟨hosts, skipped, warnings⟩, hfold, hentries, hskipped, hwarnings⟩ :
      ∃ r : Reading, (legacyHostvars graph).entries.foldlM
        (fun r e => readHost env r (e.1, .obj e.2.entries)) ⟨∅, [], []⟩ = .ok r ∧
        r.hosts.entries = (legacyHostvars graph).entries ∧ r.skipped = [] ∧ r.warnings = [] := by
    refine Lib.Except.foldlM_returns
      (fun front (r : Reading) => r.hosts.entries = front ∧ r.skipped = [] ∧ r.warnings = [])
      ⟨rfl, rfl, rfl⟩ ?_
    rintro front entry back r hl ⟨hentries, hskipped, hwarnings⟩
    have hmem : entry ∈ graph.hosts.entries := by
      refine (mem_legacyHostvars.1 ?_).1
      rw [hl]
      exact List.mem_append_right _ List.mem_cons_self
    have hnew : entry.1 ∉ r.hosts.keys := by
      rw [Dict.keys, hentries]
      exact Dict.fresh_key hl (legacyHostvars graph).nodup
    -- what is there so far, and this one, are hosts of the graph, which has no more than allowed
    have hroom : r.hosts.size < env.maxHosts := by
      have hsize : (legacyHostvars graph).size ≤ graph.hosts.size := by
        refine size_le_of_keys fun name hname => ?_
        obtain ⟨e, he, rfl⟩ := List.mem_map.1 hname
        exact List.mem_map_of_mem (mem_legacyHostvars.1 he).1
      have hlimit := h.hosts
      rw [Dict.size, hl, List.length_append, List.length_cons] at hsize
      rw [Dict.size, hentries]
      omega
    have hadd := addHost_new (h.hostNames _ (List.mem_map_of_mem hmem)) hnew hskipped hroom
    refine ⟨{ r with hosts := (r.hosts.set entry.1 ∅).set entry.1 entry.2 }, ?_, ?_,
      hskipped, hwarnings⟩
    · rw [readHost]
      have hparse := parseVars_plain (h.hostVars hmem) (str "host " ++ entry.1) r.warnings
      exact Lib.Except.bind_eq_ok.2 ⟨_, hadd, Lib.Except.bind_eq_ok.2 ⟨_, hparse, rfl⟩⟩
    · show ((r.hosts.set entry.1 ∅).set entry.1 entry.2).entries = _
      rw [entries_set_set hnew, hentries]
  obtain rfl : skipped = [] := hskipped
  obtain rfl : warnings = [] := hwarnings
  obtain rfl := Dict.ext hentries
  exact hfold

/-- The hosts so far: some of the graph's, with those that have variables among them. -/
structure Partly (graph : SourceGraph) (r : Reading) : Prop where
  sub : ∀ {name vars}, r.hosts.get? name = some vars → graph.hosts.get? name = some vars
  full : ∀ {name vars}, graph.hosts.get? name = some vars → vars.entries ≠ [] → name ∈ r.hosts.keys
  skipped : r.skipped = []
  warnings : r.warnings = []

theorem partly_legacyHostvars (graph : SourceGraph) :
    Partly graph ⟨legacyHostvars graph, [], []⟩ where
  sub hget := by
    rw [Dict.get?_eq_some] at hget ⊢
    exact (mem_legacyHostvars.1 hget).1
  full hget hvars := by
    rw [Dict.get?_eq_some] at hget
    exact List.mem_map_of_mem (mem_legacyHostvars.2 ⟨hget, hvars⟩)
  skipped := rfl
  warnings := rfl

/-- Only the graph's hosts are met. -/
theorem Partly.keys {r : Reading} (h : Partly graph r) {name : Str} (hname : name ∈ r.hosts.keys) :
    name ∈ graph.hosts.keys := by
  obtain ⟨vars, hvars⟩ := Dict.mem_keys.1 hname
  exact Dict.mem_keys.2 ⟨vars, h.sub hvars⟩

/-- A host that is new has no variables. -/
theorem Partly.add {r : Reading} (h : Partly graph r) (hgraph : Combinable env graph) {name : Str}
    (hname : name ∈ graph.hosts.keys) :
    ∃ r', addHost env r name = .ok (true, r') ∧ Partly graph r' ∧
      ∀ n, n ∈ r'.hosts.keys ↔ n = name ∨ n ∈ r.hosts.keys := by
  by_cases hold : name ∈ r.hosts.keys
  · refine ⟨r, addHost_old hold, h, fun n => ⟨.inr, ?_⟩⟩
    rintro (rfl | hn)
    · exact hold
    · exact hn
  obtain ⟨vars, hvars⟩ := Dict.mem_keys.1 hname
  -- those with variables were met first
  have hempty : vars = ∅ := by
    refine Dict.ext ?_
    by_contra hne
    exact hold (h.full hvars hne)
  have hroom : r.hosts.size < env.maxHosts := by
    have hlt : (r.hosts.set name ∅).size ≤ graph.hosts.size := by
      refine size_le_of_keys fun n hn => ?_
      obtain rfl | hn := Dict.mem_keys_set.1 hn
      · exact hname
      · exact h.keys hn
    have hlimit := hgraph.hosts
    rw [Dict.size, Dict.entries_set_of_not_mem hold, List.length_append,
      List.length_singleton] at hlt
    rw [Dict.size]
    omega
  refine ⟨_, addHost_new (hgraph.hostNames name hname) hold h.skipped hroom, ?_, fun n =>
    Dict.mem_keys_set⟩
  refine ⟨fun {n v} hget => ?_, fun {n v} hget hne => ?_, h.skipped, h.warnings⟩
  · have hget : (r.hosts.set name ∅).get? n = some v := hget
    rw [Dict.get?_set] at hget
    split at hget
    · rename_i hn
      cases hget
      rw [hn, hvars, hempty]
    · exact h.sub hget
  · exact Dict.mem_keys_set.2 (.inr (h.full hget hne))

/-- The members of a group, or the hosts of `ungrouped`, are all kept. -/
theorem Partly.addAll {r : Reading} (h : Partly graph r) (hgraph : Combinable env graph)
    {names : List Str} (hnames : ∀ n ∈ names, n ∈ graph.hosts.keys) :
    ∃ r', addHosts env r names = .ok (names, r') ∧ Partly graph r' ∧
      ∀ n, n ∈ r'.hosts.keys ↔ n ∈ names ∨ n ∈ r.hosts.keys := by
  induction names generalizing r with
  | nil => exact ⟨r, rfl, h, fun n => by simp⟩
  | cons name names ih =>
    rw [List.forall_mem_cons] at hnames
    obtain ⟨r₁, hadd, h₁, hkeys₁⟩ := h.add hgraph hnames.1
    obtain ⟨r₂, hrest, h₂, hkeys₂⟩ := ih h₁ hnames.2
    refine ⟨r₂, ?_, h₂, fun n => ?_⟩
    · rw [addHosts]
      exact Lib.Except.bind_eq_ok.2 ⟨_, hadd, Lib.Except.bind_eq_ok.2 ⟨_, hrest, rfl⟩⟩
    · rw [hkeys₂, hkeys₁, List.mem_cons]
      tauto

/-! ## The sections -/

/-- Of `all`, only the variables are read. -/
theorem readSection_all (h : Combinable env graph) (s : Sections) :
    readSection env s (str "all", .obj (legacyAll graph)) =
      .ok { s with allVars := graph.vars } := by
  rw [readSection]
  dsimp only
  rw [if_pos rfl, vars_legacyAll, parseVars_plain (h.vars _ List.mem_cons_self)]
  rfl

/-- The hosts in no group are those of the graph that no group has as a member. -/
theorem readSection_ungrouped (h : Combinable env graph) {s : Sections}
    (hs : Partly graph s.reading) :
    ∃ r, readSection env s (str "ungrouped", .obj (legacyUngrouped graph))
        = .ok { s with reading := r } ∧ Partly graph r ∧
      ∀ n, n ∈ r.hosts.keys ↔ n ∈ ungroupedHosts graph ∨ n ∈ s.reading.hosts.keys := by
  have hhosts : ∀ n ∈ ungroupedHosts graph, n ∈ graph.hosts.keys :=
    fun n hn => (List.mem_filter.1 hn).1
  obtain ⟨r, hadd, hr, hkeys⟩ := hs.addAll h hhosts
  have hnames : names (get (legacyUngrouped graph) "hosts") = .ok (ungroupedHosts graph) :=
    names_written _
  refine ⟨r, ?_, hr, hkeys⟩
  rw [readSection]
  dsimp only
  rw [if_neg (by decide), if_pos rfl]
  exact Lib.Except.bind_eq_ok.2 ⟨_, hnames, Lib.Except.bind_eq_ok.2 ⟨_, hadd, rfl⟩⟩

/-- A group's name is none of the reserved ones. `_meta` is not reserved. -/
theorem ne_reserved {name : Str} (h : groupProblem name = none) :
    name ≠ str "all" ∧ name ≠ str "ungrouped" := by
  constructor
  · rintro rfl
    exact reserved_problem (by decide) h
  · rintro rfl
    exact reserved_problem (by decide) h

/-- A group is kept raw until all names are known. -/
theorem readSection_group {name : Str} (h : groupProblem name = none) (s : Sections)
    (group : List (Str × Json)) :
    readSection env s (name, .obj group) =
      .ok { s with rawGroups := s.rawGroups.set name group } := by
  rw [readSection]
  dsimp only
  rw [if_neg (ne_reserved h).1, if_neg (ne_reserved h).2, h]

/-- The raw groups of the document. -/
def legacyGroups (graph : SourceGraph) : Dict Str (List (Str × Json)) :=
  (sorted graph.groups).mapValues fun _ group => legacyGroup group

/-- The groups stand in the order of their names, as `sorted` left them. -/
theorem readSections_groups (h : Combinable env graph) (r : Reading) (vars : Vars) :
    ((sorted graph.groups).entries.map fun e => (e.1, Json.obj (legacyGroup e.2))).foldlM
      (readSection env) ⟨r, vars, ∅⟩ = .ok ⟨r, vars, legacyGroups graph⟩ := by
  rw [List.foldlM_map]
  obtain ⟨⟨r', vars', rawGroups⟩, hfold, hr, hvars, hentries⟩ :
      ∃ s : Sections, (sorted graph.groups).entries.foldlM
        (fun s e => readSection env s (e.1, .obj (legacyGroup e.2))) ⟨r, vars, ∅⟩ = .ok s ∧
        s.reading = r ∧ s.allVars = vars ∧ s.rawGroups.entries = (legacyGroups graph).entries := by
    refine Lib.Except.foldlM_returns (fun front (s : Sections) => s.reading = r ∧ s.allVars = vars ∧
      s.rawGroups.entries = front.map fun e : Str × SourceGroup => (e.1, legacyGroup e.2))
        ⟨rfl, rfl, rfl⟩ ?_
    rintro front entry back s hl ⟨hr, hvars, hentries⟩
    have hmem : entry ∈ (sorted graph.groups).entries := by
      rw [hl]
      exact List.mem_append_right _ List.mem_cons_self
    have hname := h.groupNames _ (List.mem_map_of_mem (mem_sorted.1 hmem))
    have hnew : entry.1 ∉ s.rawGroups.keys := by
      rw [Dict.keys, hentries, List.map_map]
      exact Dict.fresh_key hl (sorted graph.groups).nodup
    refine ⟨_, readSection_group hname s _, hr, hvars, ?_⟩
    show (s.rawGroups.set entry.1 (legacyGroup entry.2)).entries = _
    rw [Dict.entries_set_of_not_mem hnew, hentries, List.map_append]
    rfl
  obtain rfl : r' = r := hr
  obtain rfl : vars' = vars := hvars
  obtain rfl := Dict.ext hentries
  exact hfold

/-! ## The groups -/

/-- Members are named once, so taking the doubles out changes nothing. -/
theorem fromKeys_of_nodup {names : List Str} (h : names.Nodup) : fromKeys names [] = names := by
  have hpairs : ((names.map fun n => (n, ())).map Prod.fst) = names := by
    rw [List.map_map]
    exact List.map_id _
  rw [fromKeys, List.append_nil, Dict.keys, Dict.entries_ofList (hpairs.symm ▸ h), hpairs]

/-- How many members and children a group has. -/
def edges (group : SourceGroup) : Nat := group.hosts.length + group.children.length

/-- A group is read back whole: its members are hosts of the graph, and its children are groups
of the document, so none is dropped. -/
theorem readGroup_legacy (h : Combinable env graph) {g : Groups} (hg : Partly graph g.reading)
    {entry : Str × SourceGroup} (hmem : entry ∈ graph.groups.entries)
    (hedges : g.edges + edges entry.2 ≤ maxEdges) :
    ∃ r, readGroup env (legacyGroups graph) g (entry.1, legacyGroup entry.2)
        = .ok ⟨r, g.edges + edges entry.2, g.groups.set entry.1 entry.2⟩ ∧ Partly graph r ∧
      ∀ n, n ∈ r.hosts.keys ↔ n ∈ entry.2.hosts ∨ n ∈ g.reading.hosts.keys := by
  obtain ⟨hnodup, hmembers⟩ := h.members entry hmem
  obtain ⟨hnodup', hchildren⟩ := h.children entry hmem
  obtain ⟨r, hadd, hr, hkeys⟩ := hg.addAll h hmembers
  have hkept : entry.2.children.filter (fun c => (legacyGroups graph).contains c) =
      entry.2.children := by
    refine List.filter_eq_self.2 fun c hc => ?_
    rw [legacyGroups, Dict.contains_mapValues, Dict.contains_iff_mem, Dict.mem_keys]
    obtain ⟨group, hgroup⟩ := Dict.mem_keys.1 (hchildren c hc)
    exact ⟨group, (get?_sorted _ _).trans hgroup⟩
  have hsum : g.edges + entry.2.hosts.length + entry.2.children.length = g.edges + edges entry.2 :=
    Nat.add_assoc ..
  refine ⟨r, ?_, hr, hkeys⟩
  rw [readGroup]
  refine Lib.Except.bind_eq_ok.2 ⟨_, hosts_legacyGroup entry.2, ?_⟩
  refine Lib.Except.bind_eq_ok.2 ⟨_, hadd, ?_⟩
  refine Lib.Except.bind_eq_ok.2 ⟨_, children_legacyGroup entry.2, ?_⟩
  show (if maxEdges < g.edges + entry.2.hosts.length + (entry.2.children.filter
    fun c => (legacyGroups graph).contains c).length then _ else _) = _
  rw [hkept, hsum, if_neg (Nat.not_lt.2 hedges), vars_legacyGroup]
  refine Lib.Except.bind_eq_ok.2 ⟨_, parseVars_plain (h.groupVars hmem) _ _, ?_⟩
  show Except.ok (⟨r, g.edges + edges entry.2, g.groups.set entry.1
    ⟨fromKeys entry.2.hosts [], fromKeys entry.2.children [], entry.2.vars⟩⟩ : Groups) = _
  rw [fromKeys_of_nodup hnodup, fromKeys_of_nodup hnodup']

/-- Every group is read back, and after them every host of the graph has been met: it has
variables, is in no group or is a member of one. -/
theorem readGroups_legacy (h : Combinable env graph) {r : Reading} (hr : Partly graph r)
    (hungrouped : ∀ n ∈ ungroupedHosts graph, n ∈ r.hosts.keys) :
    ∃ g, (legacyGroups graph).entries.foldlM (readGroup env (legacyGroups graph))
      ⟨r, 0, ∅⟩ = .ok g ∧
      Partly graph g.reading ∧ g.groups = sorted graph.groups ∧
      ∀ n ∈ graph.hosts.keys, n ∈ g.reading.hosts.keys := by
  have hlimit : ((sorted graph.groups).entries.map fun e => edges e.2).sum ≤ maxEdges := by
    refine le_trans (le_of_eq ?_) h.edges
    exact ((List.perm_insertionSort _ _).map _).sum_eq
  obtain ⟨g, hfold, hg, -, hgroups, hkept, hmembers⟩ :
      ∃ g : Groups, (sorted graph.groups).entries.foldlM
        (fun g e => readGroup env (legacyGroups graph) g (e.1, legacyGroup e.2)) ⟨r, 0, ∅⟩ = .ok g ∧
        Partly graph g.reading ∧ g.edges =
          ((sorted graph.groups).entries.map fun e => edges e.2).sum ∧
        g.groups.entries = (sorted graph.groups).entries ∧
        (∀ n ∈ r.hosts.keys, n ∈ g.reading.hosts.keys) ∧
        ∀ e ∈ (sorted graph.groups).entries, ∀ n ∈ e.2.hosts, n ∈ g.reading.hosts.keys := by
    refine Lib.Except.foldlM_returns (fun front (g : Groups) => Partly graph g.reading ∧
        g.edges = (front.map fun e : Str × SourceGroup => edges e.2).sum ∧
          g.groups.entries = front ∧
        (∀ n ∈ r.hosts.keys, n ∈ g.reading.hosts.keys) ∧
        ∀ e ∈ front, ∀ n ∈ e.2.hosts, n ∈ g.reading.hosts.keys)
      ⟨hr, rfl, rfl, fun _ hn => hn, fun _ he => (by cases he)⟩ ?_
    rintro front entry back g hl ⟨hg, hedges, hgroups, hkept, hmembers⟩
    have hmem : entry ∈ (sorted graph.groups).entries := by
      rw [hl]
      exact List.mem_append_right _ List.mem_cons_self
    have hroom : g.edges + edges entry.2 ≤ maxEdges := by
      rw [hl, List.map_append, List.sum_append, List.map_cons, List.sum_cons] at hlimit
      omega
    have hnew : entry.1 ∉ g.groups.keys := by
      rw [Dict.keys, hgroups]
      exact Dict.fresh_key hl (sorted graph.groups).nodup
    obtain ⟨r', hread, hr', hkeys⟩ := readGroup_legacy h hg (mem_sorted.1 hmem) hroom
    refine ⟨_, hread, hr', ?_, ?_, fun n hn => (hkeys n).2 (.inr (hkept n hn)), ?_⟩
    · show g.edges + edges entry.2 = _
      rw [hedges, List.map_append, List.sum_append]
      rfl
    · show (g.groups.set entry.1 entry.2).entries = _
      rw [Dict.entries_set_of_not_mem hnew, hgroups]
    · intro e he n hn
      obtain he | he := List.mem_append.1 he
      · exact (hkeys n).2 (.inr (hmembers e he n hn))
      · obtain rfl := List.mem_singleton.1 he
        exact (hkeys n).2 (.inl hn)
  refine ⟨g, ?_, hg, Dict.ext hgroups, fun n hn => ?_⟩
  · rw [legacyGroups, Dict.mapValues, List.foldlM_map]
    exact hfold
  -- a host is a member of a group, or one of `ungrouped`
  · by_cases hgrouped : n ∈ graph.groups.entries.flatMap fun e => e.2.hosts
    · obtain ⟨e, he, hhost⟩ := List.mem_flatMap.1 hgrouped
      exact hmembers e (mem_sorted.2 he) n hhost
    · exact hkept n (hungrouped n (List.mem_filter.2 ⟨hn, decide_eq_true hgrouped⟩))

/-- The groups have the same children in another order, so they have no cycle either. -/
theorem refuseCycles_legacy (h : Combinable env graph) :
    refuseCycles env (sorted graph.groups) = .ok () := by
  have hchildren : childrenOf (sorted graph.groups) = childrenOf graph.groups := by
    funext name
    rw [childrenOf, childrenOf, get?_sorted]
  have hclosed : Closed (sorted graph.groups) := by
    intro e he c hc
    obtain ⟨group, hgroup⟩ := Dict.mem_keys.1 ((h.children e (mem_sorted.1 he)).2 c hc)
    exact Dict.mem_keys.2 ⟨group, (get?_sorted _ _).trans hgroup⟩
  rw [refuseCycles_eq_ok_iff hclosed, hchildren]
  exact h.acyclic

/-! ## The document -/

/-- The document is written in this order: no group has the name of a section. -/
theorem entries_legacySections (h : Combinable env graph)
    (hmeta : str "_meta" ∉ graph.groups.keys) :
    (legacySections graph).entries = (str "_meta", .obj (legacyMeta graph)) ::
      (str "all", .obj (legacyAll graph)) :: (str "ungrouped", .obj (legacyUngrouped graph)) ::
      (sorted graph.groups).entries.map fun e => (e.1, .obj (legacyGroup e.2)) := by
  have hbase : ((Dict.ofList [(str "_meta", Json.obj (legacyMeta graph)),
      (str "all", .obj (legacyAll graph)),
      (str "ungrouped", .obj (legacyUngrouped graph))]).entries)
      = [(str "_meta", .obj (legacyMeta graph)), (str "all", .obj (legacyAll graph)),
        (str "ungrouped", .obj (legacyUngrouped graph))] := by
    refine Dict.entries_ofList ?_
    show [str "_meta", str "all", str "ungrouped"].Nodup
    decide
  rw [legacySections, ← List.foldl_map
    (f := fun e : Str × SourceGroup => (e.1, Json.obj (legacyGroup e.2)))
    (g := fun (out : Dict Str Json) p => out.set p.1 p.2), Dict.entries_foldl_set, hbase]
  · rfl
  · rw [Dict.keys, hbase, List.map_map, List.nodup_append]
    refine ⟨?_, (sorted graph.groups).nodup, fun name hname other hother heq => ?_⟩
    · show [str "_meta", str "all", str "ungrouped"].Nodup
      decide
    · subst heq
      obtain ⟨e, he, rfl⟩ := List.mem_map.1 hother
      have hgroup : e.1 ∈ graph.groups.keys := List.mem_map_of_mem (mem_sorted.1 he)
      have hreserved := ne_reserved (h.groupNames e.1 hgroup)
      have hname : e.1 ∈ [str "_meta", str "all", str "ungrouped"] := hname
      rw [List.mem_cons, List.mem_cons, List.mem_singleton] at hname
      obtain hname | hname | hname := hname
      · exact hmeta (hname ▸ hgroup)
      · exact hreserved.1 hname
      · exact hreserved.2 hname

/-- `_meta` is taken out, and the other sections are read one after another. -/
theorem sections_legacyData (h : Combinable env graph) (hmeta : str "_meta" ∉ graph.groups.keys) :
    sections (legacyData graph) = some (legacyMeta graph, (str "all", .obj (legacyAll graph)) ::
      (str "ungrouped", .obj (legacyUngrouped graph)) ::
      (sorted graph.groups).entries.map fun e => (e.1, .obj (legacyGroup e.2))) := by
  have hgroups :
      ((sorted graph.groups).entries.map fun e => (e.1, Json.obj (legacyGroup e.2))).filter
      (fun e => e.1 ≠ str "_meta") = (sorted graph.groups).entries.map fun e =>
      (e.1, .obj (legacyGroup e.2)) := by
    refine List.filter_eq_self.2 fun p hp => ?_
    obtain ⟨e, he, rfl⟩ := List.mem_map.1 hp
    refine decide_eq_true fun hname => hmeta ?_
    exact hname ▸ List.mem_map_of_mem (mem_sorted.1 he)
  rw [legacyData, entries_legacySections h hmeta, sections]
  show some (legacyMeta graph, (str "all", Json.obj (legacyAll graph)) ::
    (str "ungrouped", .obj (legacyUngrouped graph)) ::
    ((sorted graph.groups).entries.map fun e => (e.1, Json.obj (legacyGroup e.2))).filter
      fun e => e.1 ≠ str "_meta") = _
  rw [hgroups]

/-- The passes one after another, where each returns. -/
theorem readOutput_eq {data : Json} {found rest hostvars : List (Str × Json)} {reading : Reading}
    {s : Sections} {g : Groups} (hsections : sections data = some (found, rest))
    (hlegacy : isLegacy found = true) (hhostvars : orEmpty (get found "hostvars") = .obj hostvars)
    (hreading : hostvars.foldlM (readHost env) ⟨∅, [], []⟩ = .ok reading)
    (hs : rest.foldlM (readSection env) ⟨reading, ∅, ∅⟩ = .ok s)
    (hsize : ¬ env.maxGroups < s.rawGroups.size)
    (hg : s.rawGroups.entries.foldlM (readGroup env s.rawGroups) ⟨s.reading, 0, ∅⟩ = .ok g)
    (hcycles : refuseCycles env g.groups = .ok ()) :
    readOutput env data = .ok (⟨s.allVars, g.reading.hosts, g.groups⟩, g.reading.warnings) := by
  rw [readOutput, hsections]
  dsimp only
  rw [hlegacy, hhostvars]
  refine Lib.Except.bind_eq_ok.2 ⟨reading, hreading, Lib.Except.bind_eq_ok.2 ⟨s, hs, ?_⟩⟩
  rw [if_neg hsize]
  exact Lib.Except.bind_eq_ok.2 ⟨g, hg, Lib.Except.bind_eq_ok.2 ⟨(), hcycles, rfl⟩⟩

/-- The passes of `parse_output` over the document. -/
theorem readOutput_legacyData (h : Combinable env graph) (hmeta : str "_meta" ∉ graph.groups.keys) :
    ∃ read, readOutput env (legacyData graph) = .ok (read, []) ∧ SameGraph read graph := by
  have hstart := partly_legacyHostvars graph
  obtain ⟨r, hungrouped, hr, hkeys⟩ := readSection_ungrouped h
    (s := ⟨⟨legacyHostvars graph, [], []⟩, graph.vars, ∅⟩) hstart
  obtain ⟨g, hgroups, hg, hsorted, hall⟩ := readGroups_legacy h hr fun n hn => (hkeys n).2 (.inl hn)
  have hsections : ((str "all", .obj (legacyAll graph)) ::
      (str "ungrouped", .obj (legacyUngrouped graph)) ::
      (sorted graph.groups).entries.map fun e : Str × SourceGroup =>
        (e.1, Json.obj (legacyGroup e.2))).foldlM
        (readSection env) ⟨⟨legacyHostvars graph, [], []⟩, ∅, ∅⟩
      = .ok ⟨r, graph.vars, legacyGroups graph⟩ := by
    rw [List.foldlM_cons, readSection_all h]
    show (List.foldlM (readSection env)
      (⟨⟨legacyHostvars graph, [], []⟩, graph.vars, ∅⟩ : Sections) _) = _
    rw [List.foldlM_cons, hungrouped]
    exact readSections_groups h r graph.vars
  have hsize : ¬ env.maxGroups < (legacyGroups graph).size := by
    have hsame : (legacyGroups graph).size = graph.groups.size := by
      rw [legacyGroups, ← Dict.length_keys, Dict.keys_mapValues, Dict.length_keys, size_sorted]
    have := h.groups
    omega
  refine ⟨⟨graph.vars, g.reading.hosts, g.groups⟩, ?_, rfl, fun name => ?_, fun name => ?_⟩
  · rw [← hg.warnings]
    refine readOutput_eq (sections_legacyData h hmeta) rfl rfl (readHosts_legacy h) hsections
      hsize hgroups ?_
    rw [hsorted]
    exact refuseCycles_legacy h
  · refine Option.ext fun vars => ⟨hg.sub, fun hget => ?_⟩
    obtain ⟨vars', hvars'⟩ := Dict.mem_keys.1 (hall name (Dict.mem_keys.2 ⟨vars, hget⟩))
    rw [← Option.some.inj ((hg.sub hvars').symm.trans hget)]
    exact hvars'
  · show g.groups.get? name = _
    rw [hsorted, get?_sorted]

/-- An object's member, by either way of looking it up. -/
theorem get_entries (d : Dict Str Json) (key : String) : get d.entries key = d.get? (str key) := by
  obtain ⟨entries, nodup⟩ := d
  show entries.lookup (str key) = (entries.find? fun e => e.1 = str key).map Prod.snd
  clear nodup
  induction entries with
  | nil => rfl
  | cons e entries ih =>
    by_cases hkey : e.1 = str key
    · rw [List.find?_cons_of_pos (by simpa using hkey), List.lookup_cons, hkey, beq_self_eq_true]
      rfl
    · have hbeq : (str key == e.1) = false := by
        rw [beq_eq_false_iff_ne]
        exact Ne.symm hkey
      rw [List.find?_cons_of_neg (by simpa using hkey), List.lookup_cons, hbeq]
      exact ih

/-- A group's section has no `profile`. -/
theorem isLegacy_legacyGroup (group : SourceGroup) : isLegacy (legacyGroup group) = false := by
  have hprofile : get (legacyGroup group) "profile" = none := by
    rw [legacyGroup]
    split <;> split <;> split <;> rfl
  rw [isLegacy, hprofile]

/-- A group of that name is written in the place of the section. -/
theorem readOutput_meta (hmeta : str "_meta" ∈ graph.groups.keys) :
    readOutput env (legacyData graph)
      = .error (.sourceError (str "unexpected output format from ansible-inventory")) := by
  obtain ⟨group, hgroup⟩ := Dict.mem_keys.1 hmeta
  have hget : get (legacySections graph).entries "_meta" = some (.obj (legacyGroup group)) := by
    rw [get_entries, legacySections,
      Dict.get?_foldl_set (fun _ group _ => Json.obj (legacyGroup group)), get?_sorted, hgroup]
    rfl
  have hsections : sections (legacyData graph) = some (legacyGroup group,
      (legacySections graph).entries.filter fun e => e.1 ≠ str "_meta") := by
    rw [legacyData, sections, hget]
    rfl
  rw [readOutput, hsections]
  dsimp only
  rw [isLegacy_legacyGroup]
  rfl

/-! ## The round trip -/

/-- What `_legacy_json` writes is read without a warning, as the graph it is of. -/
def RoundTrips (env : Env) (graph : SourceGraph) : Prop :=
  ∃ read, parseOutput env (legacyJson graph) = .ok (read, []) ∧ SameGraph read graph

/-- The text is the document: `json.loads` undoes `json.dumps`, however deep the variables are. -/
theorem parseOutput_legacyJson (h : Combinable env graph)
    (hrecursion : maxVarsDepth + 8 ≤ env.recursion) :
    parseOutput env (legacyJson graph) = readOutput env (legacyData graph) := by
  rw [parseOutput, loadOutput_legacyJson h hrecursion]
  rfl

/-- Whatever the graph is, it isn't read back with such a group: the document is refused. -/
theorem not_roundTrips_meta (h : Combinable env graph)
    (hrecursion : maxVarsDepth + 8 ≤ env.recursion)
    (hmeta : str "_meta" ∈ graph.groups.keys) : ¬ RoundTrips env graph := by
  rintro ⟨read, hread, -⟩
  rw [parseOutput_legacyJson h hrecursion, readOutput_meta hmeta] at hread
  cases hread

/-- **A graph is read back just when no group of it is named `_meta`.** -/
theorem roundTrips_iff (h : Combinable env graph) (hrecursion : maxVarsDepth + 8 ≤ env.recursion) :
    RoundTrips env graph ↔ str "_meta" ∉ graph.groups.keys := by
  constructor
  · exact fun hround hmeta => not_roundTrips_meta h hrecursion hmeta hround
  · intro hmeta
    obtain ⟨read, hread, hsame⟩ := readOutput_legacyData h hmeta
    exact ⟨read, (parseOutput_legacyJson h hrecursion).trans hread, hsame⟩

end

/-- A value with nothing in it. -/
theorem plainVar_scalar {v : Json} (hobj : ∀ entries, v ≠ .obj entries)
    (harr : ∀ items, v ≠ .arr items)
    (hstr : ∀ s, v = .str s → Lib.JsonText.Joined s) (hnumbers : Lib.JsonText.Readable .python v) :
    PlainVar v where
  json :=
    { keyed := Lib.JsonText.keyed_scalar hobj harr
      strings := fun k s hat => by
        cases hat with
        | here => exact hstr s rfl
        | item => exact absurd rfl (harr _)
        | member => exact absurd rfl (hobj _)
      keys := fun k entries hat => by
        cases hat with
        | here => exact absurd rfl (hobj entries)
        | item => exact absurd rfl (harr _)
        | member => exact absurd rfl (hobj _) }
  numbers := hnumbers
  clean := clean_scalar hobj harr
  shallow k w hat := by
    cases hat with
    | here => decide
    | item => exact absurd rfl (harr _)
    | member => exact absurd rfl (hobj _)

/-- A host with a variable in a group in a group, and one in none. -/
def webGraph : SourceGraph where
  vars := .ofList [(str "env", .str (str "prod"))]
  hosts := .ofList [(str "web1", .ofList [(str "port", .int 80)]), (str "db1", ∅)]
  groups := .ofList [(str "web", ⟨[str "web1"], [], ∅⟩), (str "site", ⟨[], [str "web"], ∅⟩)]

theorem combinable_webGraph : Combinable plain webGraph where
  hostNames := by decide
  groupNames := by decide
  members := by decide
  children := by decide
  acyclic := by
    have hsearch : Lib.CycleSearch.search (childrenOf webGraph.groups) webGraph.groups.keys =
        .ok () := by
      decide
    have hclosed : Closed webGraph.groups := by
      unfold Closed
      decide
    exact (Lib.CycleSearch.search_eq_ok_iff hclosed.keys).1 hsearch
  vars vars hvars e he := by
    have hprod : PlainVar (.str (str "prod")) :=
      plainVar_scalar (by simp) (by simp)
      (fun s hs => by cases hs; exact joined_text (by decide)) trivial
    have hport : PlainVar (.int 80) := plainVar_scalar (by simp) (by simp) (by simp) rfl
    have hvars : vars ∈ [Dict.ofList [(str "env", Json.str (str "prod"))],
        Dict.ofList [(str "port", Json.int 80)], ∅, ∅, ∅] := hvars
    simp only [List.mem_cons, List.not_mem_nil, or_false] at hvars
    obtain rfl | rfl | rfl | rfl | rfl := hvars
    · obtain rfl := List.mem_singleton.1 he
      exact ⟨joined_text (by decide), hprod⟩
    · obtain rfl := List.mem_singleton.1 he
      exact ⟨joined_text (by decide), hport⟩
    all_goals cases he
  hosts := by decide
  groups := by decide
  edges := by decide
  output := by
    rw [legacyJson, JsonLimits.dumpBytes, List.length_map]
    decide +kernel

theorem webGraph_roundTrips : RoundTrips plain webGraph ↔ str "_meta" ∉ webGraph.groups.keys :=
  roundTrips_iff combinable_webGraph (by decide)

/-- A group with nothing in it but its name. -/
def metaGraph : SourceGraph := ⟨∅, ∅, .ofList [(str "_meta", ⟨[], [], ∅⟩)]⟩

theorem combinable_metaGraph : Combinable plain metaGraph where
  hostNames := by decide
  groupNames := by decide
  members := by decide
  children := by decide
  acyclic name hcycle := by
    obtain ⟨child, hchild, -⟩ := Relation.TransGen.head'_iff.1 hcycle
    obtain ⟨group, hgroup, hchild⟩ := mem_childrenOf hchild
    have hnone : ∀ e ∈ metaGraph.groups.entries, e.2.children = [] := by decide
    rw [hnone _ hgroup] at hchild
    cases hchild
  vars vars hvars e he := by
    have hvars : vars ∈ [(∅ : Vars), ∅] := hvars
    simp only [List.mem_cons, List.not_mem_nil, or_false, or_self] at hvars
    subst hvars
    cases he
  hosts := by decide
  groups := by decide
  edges := by decide
  output := by
    rw [legacyJson, JsonLimits.dumpBytes, List.length_map]
    decide +kernel

theorem metaGraph_not_roundTrips : ¬ ∀ (env : Env) (graph : SourceGraph),
    maxVarsDepth + 8 ≤ env.recursion → Combinable env graph → RoundTrips env graph :=
  fun h => not_roundTrips_meta combinable_metaGraph (by decide) (by decide)
    (h plain metaGraph (by decide) combinable_metaGraph)

end Parse

end InventorySources

end AnsiDeck
