import AnsiDeck.InventorySources.WellFormed
import AnsiDeck.JsonLimits.Written
import Mathlib.Data.List.Lex
import Mathlib.Data.List.Sort

/-!
# Writing a graph as ansible-inventory does

`_legacy_json` of `app.inventory_sources`: without constructed sources the sources' graphs are
combined here, and the result goes through `parse_output` as if `ansible-inventory --list --export`
had written it. The document's own sections have names of the kind that groups have: `_meta`, `all`
and `ungrouped`, of which `group_problem` reserves the last two.
-/

namespace AnsiDeck

namespace InventorySources

open Lib (Dict Json Str str)
open InventoryRender (hostnameProblem groupProblem)

/-- A dictionary in the order of `sorted(d)`. -/
def sorted {ν : Type} (d : Dict Str ν) : Dict Str ν where
  entries := d.entries.insertionSort fun a b => a.1 ≤ b.1
  nodup := ((List.perm_insertionSort _ _).map _).nodup_iff.2 d.nodup

/-- The hosts with variables of their own. -/
def legacyHostvars (graph : SourceGraph) : Dict Str Vars :=
  (sorted graph.hosts).filter fun _ vars => vars.entries ≠ []

/-- The hosts that are in no group. -/
def ungroupedHosts (graph : SourceGraph) : List Str :=
  let grouped := graph.groups.entries.flatMap fun e => e.2.hosts
  graph.hosts.keys.filter fun name => name ∉ grouped

def legacyMeta (graph : SourceGraph) : List (Str × Json) :=
  [(str "profile", .str (str "inventory_legacy")),
    (str "hostvars", .obj ((legacyHostvars graph).entries.map fun e => (e.1, .obj e.2.entries)))]

def legacyAll (graph : SourceGraph) : List (Str × Json) :=
  if graph.vars.entries ≠ [] then [(str "vars", .obj graph.vars.entries)] else []

def legacyUngrouped (graph : SourceGraph) : List (Str × Json) :=
  [(str "hosts", .arr ((ungroupedHosts graph).map .str))]

/-- `{key: group[key] for key in ("hosts", "children", "vars") if group[key]}`. -/
def legacyGroup (group : SourceGroup) : List (Str × Json) :=
  (if group.hosts ≠ [] then [(str "hosts", .arr (group.hosts.map .str))] else []) ++
    (if group.children ≠ [] then [(str "children", .arr (group.children.map .str))] else []) ++
    (if group.vars.entries ≠ [] then [(str "vars", .obj group.vars.entries)] else [])

/-- The sections: a group takes the place of one with its name. -/
def legacySections (graph : SourceGraph) : Dict Str Json :=
  (sorted graph.groups).entries.foldl (fun out e => out.set e.1 (.obj (legacyGroup e.2)))
    (.ofList [(str "_meta", .obj (legacyMeta graph)), (str "all", .obj (legacyAll graph)),
      (str "ungrouped", .obj (legacyUngrouped graph))])

def legacyData (graph : SourceGraph) : Json := .obj (legacySections graph).entries

/-- `_legacy_json`. -/
def legacyJson (graph : SourceGraph) : Bytes := JsonLimits.dumpBytes (legacyData graph)

namespace Parse

/-- A variable's value as plain JSON data, with no marker of Ansible's in it, and no deeper than
variables may nest. -/
structure PlainVar (v : Json) : Prop where
  json : Lib.JsonText.Plain v
  numbers : Lib.JsonText.Readable .python v
  clean : Clean v
  shallow : ∀ k w, Json.At k v w → k < maxVarsDepth

/-- A well-formed graph, within the limits. -/
structure Combinable (env : Env) (graph : SourceGraph) : Prop where
  hostNames : ∀ name ∈ graph.hosts.keys, hostnameProblem env.ansible name = none
  groupNames : ∀ name ∈ graph.groups.keys, groupProblem name = none
  members : ∀ e ∈ graph.groups.entries, e.2.hosts.Nodup ∧ ∀ h ∈ e.2.hosts, h ∈ graph.hosts.keys
  children : ∀ e ∈ graph.groups.entries,
    e.2.children.Nodup ∧ ∀ c ∈ e.2.children, c ∈ graph.groups.keys
  acyclic : ∀ name, ¬ Relation.TransGen
    (Lib.CycleSearch.Contains (childrenOf graph.groups)) name name
  vars : ∀ vars ∈ allVars graph, ∀ e ∈ vars.entries, Lib.JsonText.Joined e.1 ∧ PlainVar e.2
  hosts : graph.hosts.size ≤ env.maxHosts
  groups : graph.groups.size ≤ env.maxGroups
  edges : (graph.groups.entries.map fun e => e.2.hosts.length + e.2.children.length).sum ≤ maxEdges
  output : (legacyJson graph).length ≤ env.maxOutputMb * 1024 * 1024

/-- The same hosts, groups, members and children in order, and variables. -/
structure SameGraph (a b : SourceGraph) : Prop where
  vars : a.vars = b.vars
  hosts : ∀ name, a.hosts.get? name = b.hosts.get? name
  groups : ∀ name, a.groups.get? name = b.groups.get? name

/-! ## What is written is JSON -/

theorem mem_sorted {ν : Type} {d : Dict Str ν} {e : Str × ν} :
    e ∈ (sorted d).entries ↔ e ∈ d.entries := List.mem_insertionSort _

theorem get?_sorted {ν : Type} (d : Dict Str ν) (k : Str) : (sorted d).get? k = d.get? k := by
  refine Option.ext fun v => ?_
  rw [Dict.get?_eq_some, Dict.get?_eq_some]
  exact mem_sorted

theorem size_sorted {ν : Type} (d : Dict Str ν) : (sorted d).size = d.size :=
  List.length_insertionSort _ _

theorem mem_legacyHostvars {graph : SourceGraph} {e : Str × Vars} :
    e ∈ (legacyHostvars graph).entries ↔ e ∈ graph.hosts.entries ∧ e.2.entries ≠ [] := by
  rw [legacyHostvars, Dict.filter, List.mem_filter, mem_sorted, decide_eq_true_eq]

theorem joined_of_ascii {s : Str} (h : ∀ c ∈ s, c < 0x80) : Lib.JsonText.Joined s := by
  refine ⟨fun c hc => ?_, List.Pairwise.isChain ?_⟩
  · have := h c hc
    omega
  · refine List.Pairwise.imp_of_mem (R := fun _ _ => True) ?_
      (List.pairwise_of_forall fun _ _ => trivial)
    rintro a b ha - - ⟨hhigh, -⟩
    have := h a ha
    rw [Lib.Utf.isHigh] at hhigh
    simp only [Bool.and_eq_true, decide_eq_true_eq] at hhigh
    omega

theorem ascii_of_isWord {others : List Nat} (hothers : ∀ c ∈ others, c < 0x80) {s : Str}
    (h : InventoryRender.isWord others s = true) : ∀ c ∈ s, c < 0x80 := by
  have hword {c : Nat} (hc : InventoryRender.isWordChar c = true) : c < 0x80 := by
    rw [InventoryRender.isWordChar] at hc
    simp only [Bool.or_eq_true, Bool.and_eq_true, decide_eq_true_eq] at hc
    omega
  cases s with
  | nil => exact fun c hc => by cases hc
  | cons c s =>
    rw [InventoryRender.isWord, Bool.and_eq_true, List.all_eq_true] at h
    refine List.forall_mem_cons.2 ⟨hword h.1, fun c hc => ?_⟩
    have hrest := h.2 c hc
    rw [Bool.or_eq_true] at hrest
    obtain hrest | hrest := hrest
    · exact hword hrest
    · exact hothers c (by simpa using hrest)

theorem joined_hostname {ansible : InventoryRender.Ansible} {name : Str}
    (h : hostnameProblem ansible name = none) : Lib.JsonText.Joined name := by
  rw [hostnameProblem] at h
  split at h
  · cases h
  split at h
  · cases h
  rename_i hword
  rw [Bool.not_eq_true, Bool.not_eq_false'] at hword
  exact joined_of_ascii (ascii_of_isWord (by decide) hword)

theorem joined_groupname {name : Str} (h : groupProblem name = none) :
    Lib.JsonText.Joined name := by
  rw [groupProblem] at h
  split at h
  · cases h
  split at h
  · cases h
  split at h
  · cases h
  rename_i hword
  rw [Bool.not_eq_true, Bool.not_eq_false'] at hword
  exact joined_of_ascii (ascii_of_isWord (by decide) hword)

/-- A value that is read back from what is written of it, within so many levels. -/
structure Written (depth : Nat) (v : Json) : Prop where
  plain : Lib.JsonText.Plain v
  numbers : Lib.JsonText.Readable .python v
  deep : v.depth ≤ depth

theorem Written.mono {depth depth' : Nat} {v : Json} (h : Written depth v) (hle : depth ≤ depth') :
    Written depth' v :=
  ⟨h.plain, h.numbers, h.deep.trans hle⟩

theorem written_str {s : Str} (h : Lib.JsonText.Joined s) : Written 0 (.str s) :=
  ⟨Lib.JsonText.plain_str h, trivial, Nat.le_refl _⟩

theorem written_arr {depth : Nat} {items : List Json} (h : ∀ v ∈ items, Written depth v) :
    Written (depth + 1) (.arr items) where
  plain := Lib.JsonText.plain_arr fun v hv => (h v hv).plain
  numbers := Lib.JsonText.readableItems_iff.2 fun v hv => (h v hv).numbers
  deep := Nat.succ_le_succ (Json.depthItems_le.2 fun v hv => (h v hv).deep)

theorem written_obj {depth : Nat} {entries : List (Str × Json)}
    (hnodup : (entries.map Prod.fst).Nodup)
    (h : ∀ e ∈ entries, Lib.JsonText.Joined e.1 ∧ Written depth e.2) :
    Written (depth + 1) (.obj entries) where
  plain := Lib.JsonText.plain_obj hnodup (fun e he => (h e he).1) fun e he => (h e he).2.plain
  numbers := Lib.JsonText.readableEntries_iff.2 fun e he => (h e he).2.numbers
  deep := Nat.succ_le_succ (Json.depthEntries_le.2 fun e he => (h e he).2.deep)

theorem written_names {names : List Str} (h : ∀ n ∈ names, Lib.JsonText.Joined n) :
    Written 1 (.arr (names.map .str)) := by
  refine written_arr fun v hv => ?_
  obtain ⟨n, hn, rfl⟩ := List.mem_map.1 hv
  exact written_str (h n hn)

theorem depth_le_of_shallow : ∀ {v : Json} {n : Nat}, (∀ k w, Json.At k v w → k < n) → v.depth ≤ n
  | .null, _, _ | .bool _, _, _ | .int _, _, _ | .float _, _, _ | .str _, _, _ => Nat.zero_le _
  | .arr items, n, h => by
    obtain ⟨n, rfl⟩ := Nat.exists_eq_succ_of_ne_zero (Nat.ne_of_gt (h 0 _ .here))
    refine Nat.succ_le_succ (Json.depthItems_le.2 fun v hv => ?_)
    exact depth_le_of_shallow fun k w hat => Nat.lt_of_succ_lt_succ (h (k + 1) w (.item hv hat))
  | .obj entries, n, h => by
    obtain ⟨n, rfl⟩ := Nat.exists_eq_succ_of_ne_zero (Nat.ne_of_gt (h 0 _ .here))
    refine Nat.succ_le_succ (Json.depthEntries_le.2 fun e he => ?_)
    exact depth_le_of_shallow fun k w hat => Nat.lt_of_succ_lt_succ (h (k + 1) w (.member he hat))
termination_by v => sizeOf v
decreasing_by
  · simp_wf
    have := List.sizeOf_lt_of_mem hv
    omega
  · simp_wf
    have := List.sizeOf_lt_of_mem he
    obtain ⟨key, v⟩ := e
    simp only [Prod.mk.sizeOf_spec] at this
    dsimp only
    omega

theorem written_vars {vars : Vars}
    (h : ∀ e ∈ vars.entries, Lib.JsonText.Joined e.1 ∧ PlainVar e.2) :
    Written (maxVarsDepth + 1) (.obj vars.entries) :=
  written_obj vars.nodup fun e he =>
    ⟨(h e he).1, (h e he).2.json, (h e he).2.numbers, depth_le_of_shallow (h e he).2.shallow⟩

variable {env : Env} {graph : SourceGraph}

theorem Combinable.hostVars (h : Combinable env graph) {e : Str × Vars}
    (he : e ∈ graph.hosts.entries) :
    ∀ p ∈ e.2.entries, Lib.JsonText.Joined p.1 ∧ PlainVar p.2 :=
  h.vars _ (List.mem_cons_of_mem _ (List.mem_append_left _ (List.mem_map_of_mem he)))

theorem Combinable.groupVars (h : Combinable env graph) {e : Str × SourceGroup}
    (he : e ∈ graph.groups.entries) :
    ∀ p ∈ e.2.vars.entries, Lib.JsonText.Joined p.1 ∧ PlainVar p.2 :=
  h.vars _ (List.mem_cons_of_mem _ (List.mem_append_right _ (List.mem_map.2 ⟨e, he, rfl⟩)))

theorem Combinable.joined_host (h : Combinable env graph) {name : Str}
    (hname : name ∈ graph.hosts.keys) :
    Lib.JsonText.Joined name := joined_hostname (h.hostNames name hname)

theorem Combinable.joined_group (h : Combinable env graph) {name : Str}
    (hname : name ∈ graph.groups.keys) : Lib.JsonText.Joined name :=
  joined_groupname (h.groupNames name hname)

theorem joined_text {s : String} (h : ∀ c ∈ str s, c < 0x80) : Lib.JsonText.Joined (str s) :=
  joined_of_ascii h

theorem written_legacyMeta (h : Combinable env graph) :
    Written (maxVarsDepth + 3) (.obj (legacyMeta graph)) := by
  have hhostvars : Written (maxVarsDepth + 2)
      (.obj ((legacyHostvars graph).entries.map fun e => (e.1, .obj e.2.entries))) := by
    refine written_obj ?_ fun e he => ?_
    · rw [List.map_map]
      exact (legacyHostvars graph).nodup
    · obtain ⟨host, hhost, rfl⟩ := List.mem_map.1 he
      have hmem := (mem_legacyHostvars.1 hhost).1
      exact ⟨h.joined_host (List.mem_map_of_mem hmem), written_vars (h.hostVars hmem)⟩
  have hkeys : [str "profile", str "hostvars"].Nodup := by decide
  refine written_obj hkeys (List.forall_mem_cons.2 ⟨⟨?_, ?_⟩, List.forall_mem_singleton.2 ⟨?_, ?_⟩⟩)
  · exact joined_text (by decide)
  · exact (written_str (joined_text (by decide))).mono (Nat.zero_le _)
  · exact joined_text (by decide)
  · exact hhostvars

theorem written_legacyAll (h : Combinable env graph) :
    Written (maxVarsDepth + 2) (.obj (legacyAll graph)) := by
  rw [legacyAll]
  split
  · refine written_obj (by simp) (List.forall_mem_singleton.2 ⟨joined_text (by decide), ?_⟩)
    exact written_vars (h.vars graph.vars List.mem_cons_self)
  · exact written_obj (by simp) (by simp)

theorem written_legacyUngrouped (h : Combinable env graph) :
    Written 2 (.obj (legacyUngrouped graph)) := by
  refine written_obj (by simp [legacyUngrouped])
    (List.forall_mem_singleton.2 ⟨joined_text (by decide), written_names fun n hn => ?_⟩)
  exact h.joined_host (List.mem_filter.1 hn).1

theorem written_legacyGroup (h : Combinable env graph) {e : Str × SourceGroup}
    (he : e ∈ graph.groups.entries) : Written (maxVarsDepth + 2) (.obj (legacyGroup e.2)) := by
  refine written_obj ?_ fun p hp => ?_
  · rw [legacyGroup]
    split <;> split <;> split <;> simp [str]
  · rw [legacyGroup, List.mem_append, List.mem_append] at hp
    obtain (hp | hp) | hp := hp
    · split at hp
      · obtain rfl := List.mem_singleton.1 hp
        refine ⟨joined_text (by decide), (written_names fun n hn => ?_).mono (by decide)⟩
        exact h.joined_host ((h.members e he).2 n hn)
      · cases hp
    · split at hp
      · obtain rfl := List.mem_singleton.1 hp
        refine ⟨joined_text (by decide), (written_names fun n hn => ?_).mono (by decide)⟩
        exact h.joined_group ((h.children e he).2 n hn)
      · cases hp
    · split at hp
      · obtain rfl := List.mem_singleton.1 hp
        exact ⟨joined_text (by decide), written_vars (h.groupVars he)⟩
      · cases hp

theorem written_legacyData (h : Combinable env graph) :
    Written (maxVarsDepth + 4) (legacyData graph) := by
  refine written_obj (legacySections graph).nodup fun e he => ?_
  rw [legacySections, ← List.foldl_map
    (f := fun e : Str × SourceGroup => (e.1, Json.obj (legacyGroup e.2)))
    (g := fun (out : Dict Str Json) p => out.set p.1 p.2)] at he
  obtain he | he := Dict.mem_entries_foldl_set he
  · have hbase := Dict.mem_entries_ofList he
    rw [List.mem_cons, List.mem_cons, List.mem_singleton] at hbase
    obtain rfl | rfl | rfl := hbase
    · exact ⟨joined_text (by decide), written_legacyMeta h⟩
    · exact ⟨joined_text (by decide), (written_legacyAll h).mono (by decide)⟩
    · exact ⟨joined_text (by decide), (written_legacyUngrouped h).mono (by decide)⟩
  · obtain ⟨group, hgroup, rfl⟩ := List.mem_map.1 he
    have hmem := mem_sorted.1 hgroup
    exact ⟨h.joined_group (List.mem_map_of_mem hmem), (written_legacyGroup h hmem).mono (by decide)⟩

/-- The document is read as it was written. -/
theorem loadOutput_legacyJson (h : Combinable env graph)
    (hrecursion : maxVarsDepth + 8 ≤ env.recursion) :
    loadOutput env (legacyJson graph) = .ok (legacyData graph) := by
  have hwritten := written_legacyData h
  have hdeep := hwritten.deep
  have hload : JsonLimits.loadsBounded env.recursion (.bytes (legacyJson graph)) (maxVarsDepth + 8)
      = .ok (legacyData graph) :=
    JsonLimits.loadsBounded_dump hwritten.plain hwritten.numbers (by omega) (by omega)
  rw [loadOutput, if_neg (Nat.not_lt.2 h.output), hload]

end Parse

end InventorySources

end AnsiDeck
