import AnsiDeck.InventorySources.WellFormed

/-!
# From a source's graph to a snapshot

`filter_graph` drops the Ansible settings that sources may not set, and `normalise` is
`parse_output` and then that. Of the variables only `ansible_connection` has its value looked at: it
is looked up in a set, which a list or an object cannot be, so that the `TypeError` of
`source_var_problem` comes out of `normalise` just when a source sets it so (`normalise_iff`).
-/

namespace AnsiDeck

namespace InventorySources

namespace Parse

open Lib (Dict Json Str str)
open InventoryRender (Unhashable sourceVarProblem isSourceConnection)

/-- One variable of `_filter_vars`. -/
def filterVar (place : Str) (quiet : Bool) (out : Vars × List Str) (entry : Str × Json) :
    Except Raised (Vars × List Str) :=
  match sourceVarProblem entry.1 entry.2 with
  | .error e => .error (.typeError e)
  | .ok none => .ok (out.1.set entry.1 entry.2, out.2)
  | .ok (some problem) =>
    if quiet then .ok out
    else .ok (out.1, warn out.2
      (place ++ str ": dropped " ++ entry.1.take 100 ++ str ": it " ++ str problem))

/-- `quiet`: a static host's echo of its own variables. -/
def filterVars (vars : Vars) (place : Str) (warnings : List Str) (quiet : Bool) :
    Except Raised (Vars × List Str) :=
  vars.entries.foldlM (filterVar place quiet) (∅, warnings)

def filterHost (staticHosts : List Str) (out : Dict Str Vars × List Str) (entry : Str × Vars) :
    Except Raised (Dict Str Vars × List Str) := do
  let (vars, warnings) ← filterVars entry.2 (str "host " ++ entry.1) out.2
    (staticHosts.contains entry.1)
  pure (out.1.set entry.1 vars, warnings)

def filterGroup (out : Dict Str SourceGroup × List Str) (entry : Str × SourceGroup) :
    Except Raised (Dict Str SourceGroup × List Str) := do
  let (vars, warnings) ← filterVars entry.2.vars (str "group " ++ entry.1) out.2 false
  pure (out.1.set entry.1 { entry.2 with vars := vars }, warnings)

def filterGraph (graph : SourceGraph) (staticHosts : List Str) (warnings : List Str) :
    Except Raised (SnapshotData × List Str) := do
  let (vars, warnings) ← filterVars graph.vars (str "group all") warnings false
  let (hosts, warnings) ← graph.hosts.entries.foldlM (filterHost staticHosts) (∅, warnings)
  let (groups, warnings) ← graph.groups.entries.foldlM filterGroup (∅, warnings)
  pure (⟨vars, hosts, groups, staticHosts⟩, warnings)

def normalise (env : Env) (raw : Bytes) (staticHosts : List Str) :
    Except Raised (SnapshotData × List Str) := do
  let (graph, warnings) ← parseOutput env raw
  filterGraph graph staticHosts warnings

/-! ## Looking a value up in a set -/

/-- Neither a list nor an object. -/
def Hashable (value : Json) : Prop := ∃ found, isSourceConnection value = .ok found

/-- The variable's value is not looked up, or can be. -/
def Checkable (e : Str × Json) : Prop := e.1 = str "ansible_connection" → Hashable e.2

theorem sourceVarProblem_iff (key : Str) (value : Json) :
    (∃ problem, sourceVarProblem key value = .ok problem) ↔ Checkable (key, value) := by
  unfold Checkable Hashable
  by_cases hkey : key = str "ansible_connection"
  · subst hkey
    have hlookup : sourceVarProblem (str "ansible_connection") value =
        isSourceConnection value >>= fun found => if found then pure none
          else
            let connections := ", ".intercalate InventoryRender.sourceConnections
            pure (some s!"may only be one of {connections}") := by
      rw [sourceVarProblem, if_neg (by decide), if_neg (by decide), if_pos rfl]
    rw [hlookup]
    cases hvalue : isSourceConnection value with
    | error e => exact ⟨fun ⟨_, h⟩ => (by cases h), fun h => (by obtain ⟨_, h⟩ := h rfl; cases h)⟩
    | ok found =>
      refine ⟨fun _ _ => ⟨found, rfl⟩, fun _ => ?_⟩
      cases found with
      | true => exact ⟨_, rfl⟩
      | false => exact ⟨_, rfl⟩
  · refine ⟨fun _ h => absurd h hkey, fun _ => ?_⟩
    unfold sourceVarProblem
    split
    · exact ⟨_, rfl⟩
    split
    · exact ⟨_, rfl⟩
    · exact ⟨_, rfl⟩

theorem filterVar_iff (place : Str) (quiet : Bool) (out : Vars × List Str) (entry : Str × Json) :
    (∃ out', filterVar place quiet out entry = .ok out') ↔ Checkable entry := by
  rw [← sourceVarProblem_iff, filterVar]
  split
  · rename_i e he
    exact ⟨fun ⟨_, h⟩ => (by cases h), fun ⟨_, h⟩ => (by rw [he] at h; cases h)⟩
  · rename_i he
    exact ⟨fun _ => ⟨_, he⟩, fun _ => ⟨_, rfl⟩⟩
  · rename_i problem he
    refine ⟨fun _ => ⟨_, he⟩, fun _ => ?_⟩
    split
    · exact ⟨_, rfl⟩
    · exact ⟨_, rfl⟩

/-- A loop returns from any start where each step does from any state. -/
theorem foldlM_iff {α γ : Type} {f : α → γ → Except Raised α} {ok : γ → Prop}
    (hf : ∀ a c, (∃ a', f a c = .ok a') ↔ ok c) {l : List γ} {a : α} :
    (∃ b, l.foldlM f a = .ok b) ↔ ∀ c ∈ l, ok c := by
  constructor
  · rintro ⟨b, h⟩
    refine Lib.Except.foldlM_rule (fun front _ => ∀ c ∈ front, ok c) (by simp) ?_ h
    intro front c back a a' _ hfront hstep
    exact List.forall_mem_append.2 ⟨hfront, List.forall_mem_singleton.2 ((hf a c).1 ⟨a', hstep⟩)⟩
  · intro h
    cases hfold : l.foldlM f a with
    | ok b => exact ⟨b, rfl⟩
    | error e =>
      obtain ⟨c, hc, a', hraise⟩ := Lib.Except.foldlM_raises hfold
      obtain ⟨_, hok⟩ := (hf a' c).2 (h c hc)
      rw [hraise] at hok
      cases hok

theorem filterVars_iff (vars : Vars) (place : Str) (warnings : List Str) (quiet : Bool) :
    (∃ out, filterVars vars place warnings quiet = .ok out) ↔ ∀ e ∈ vars.entries, Checkable e :=
  foldlM_iff (filterVar_iff place quiet)

theorem filterHost_iff (staticHosts : List Str) (out : Dict Str Vars × List Str)
    (entry : Str × Vars) :
    (∃ out', filterHost staticHosts out entry = .ok out') ↔ ∀ e ∈ entry.2.entries, Checkable e := by
  rw [← filterVars_iff entry.2 (str "host " ++ entry.1) out.2 (staticHosts.contains entry.1),
    filterHost]
  cases filterVars entry.2 (str "host " ++ entry.1) out.2 (staticHosts.contains entry.1) with
  | error e => exact ⟨fun ⟨_, h⟩ => (by cases h), fun ⟨_, h⟩ => (by cases h)⟩
  | ok r => exact ⟨fun _ => ⟨r, rfl⟩, fun _ => ⟨_, rfl⟩⟩

theorem filterGroup_iff (out : Dict Str SourceGroup × List Str) (entry : Str × SourceGroup) :
    (∃ out', filterGroup out entry = .ok out') ↔ ∀ e ∈ entry.2.vars.entries, Checkable e := by
  rw [← filterVars_iff entry.2.vars (str "group " ++ entry.1) out.2 false, filterGroup]
  cases filterVars entry.2.vars (str "group " ++ entry.1) out.2 false with
  | error e => exact ⟨fun ⟨_, h⟩ => (by cases h), fun ⟨_, h⟩ => (by cases h)⟩
  | ok r => exact ⟨fun _ => ⟨r, rfl⟩, fun _ => ⟨_, rfl⟩⟩

/-- `filter_graph` returns just when it can look up what it has to. -/
theorem filterGraph_iff {graph : SourceGraph} {staticHosts warnings : List Str} :
    (∃ out, filterGraph graph staticHosts warnings = .ok out) ↔
      ∀ vars ∈ allVars graph, ∀ e ∈ vars.entries, Checkable e := by
  have hvars := filterVars_iff graph.vars (str "group all") warnings false
  have hhosts (w : List Str) :
      (∃ b, graph.hosts.entries.foldlM (filterHost staticHosts) (∅, w) = .ok b) ↔
        ∀ c ∈ graph.hosts.entries, ∀ e ∈ c.2.entries, Checkable e :=
    foldlM_iff (filterHost_iff staticHosts)
  have hgroups (w : List Str) : (∃ b, graph.groups.entries.foldlM filterGroup (∅, w) = .ok b) ↔
      ∀ c ∈ graph.groups.entries, ∀ e ∈ c.2.vars.entries, Checkable e :=
    foldlM_iff filterGroup_iff
  have hall : (∀ vars ∈ allVars graph, ∀ e ∈ vars.entries, Checkable e) ↔
      (∀ e ∈ graph.vars.entries, Checkable e) ∧
      (∀ c ∈ graph.hosts.entries, ∀ e ∈ c.2.entries, Checkable e) ∧
      ∀ c ∈ graph.groups.entries, ∀ e ∈ c.2.vars.entries, Checkable e := by
    simp only [allVars, List.forall_mem_cons, List.forall_mem_append, List.forall_mem_map]
  rw [hall]
  constructor
  · rintro ⟨out, h⟩
    obtain ⟨⟨vars, w⟩, hv, h⟩ := Lib.Except.bind_eq_ok.1 h
    obtain ⟨⟨hosts, w'⟩, hh, h⟩ := Lib.Except.bind_eq_ok.1 h
    obtain ⟨⟨groups, w''⟩, hg, -⟩ := Lib.Except.bind_eq_ok.1 h
    exact ⟨hvars.1 ⟨_, hv⟩, (hhosts w).1 ⟨_, hh⟩, (hgroups w').1 ⟨_, hg⟩⟩
  · rintro ⟨hv, hh, hg⟩
    obtain ⟨⟨vars, w⟩, hv⟩ := hvars.2 hv
    obtain ⟨⟨hosts, w'⟩, hh⟩ := (hhosts w).2 hh
    obtain ⟨⟨groups, w''⟩, hg⟩ := (hgroups w').2 hg
    exact ⟨_, Lib.Except.bind_eq_ok.2 ⟨_, hv, Lib.Except.bind_eq_ok.2 ⟨_, hh,
      Lib.Except.bind_eq_ok.2 ⟨_, hg, rfl⟩⟩⟩⟩

/-- Where it raises, it is `TypeError`. -/
theorem filterVars_raises {vars : Vars} {place : Str} {warnings : List Str}
    {quiet : Bool} {e : Raised}
    (h : filterVars vars place warnings quiet = .error e) : ∃ t, e = .typeError t := by
  obtain ⟨entry, -, out, h⟩ := Lib.Except.foldlM_raises h
  unfold filterVar at h
  split at h
  · cases h
    exact ⟨_, rfl⟩
  · cases h
  · split at h
    · cases h
    · cases h

theorem filterGraph_raises {graph : SourceGraph} {staticHosts warnings : List Str} {e : Raised}
    (h : filterGraph graph staticHosts warnings = .error e) : ∃ t, e = .typeError t := by
  obtain h | ⟨⟨vars, w⟩, -, h⟩ := Lib.Except.bind_eq_error.1 h
  · exact filterVars_raises h
  obtain h | ⟨⟨hosts, w'⟩, -, h⟩ := Lib.Except.bind_eq_error.1 h
  · obtain ⟨entry, -, out, h⟩ := Lib.Except.foldlM_raises h
    obtain h | ⟨r, -, h⟩ := Lib.Except.bind_eq_error.1 h
    · exact filterVars_raises h
    · cases h
  obtain h | ⟨⟨groups, w''⟩, -, h⟩ := Lib.Except.bind_eq_error.1 h
  · obtain ⟨entry, -, out, h⟩ := Lib.Except.foldlM_raises h
    obtain h | ⟨r, -, h⟩ := Lib.Except.bind_eq_error.1 h
    · exact filterVars_raises h
    · cases h
  · cases h

/-! ## What escapes `normalise` -/

/-- A snapshot with its warnings, or `SourceError`. -/
def OnlySourceError (env : Env) (raw : Bytes) (staticHosts : List Str) : Prop :=
  (∃ snapshot warnings, normalise env raw staticHosts = .ok (snapshot, warnings)) ∨
    ∃ message, normalise env raw staticHosts = .error (.sourceError message)

/-- Nothing but `SourceError` escapes just when no host, no group and not `all` of an accepted
output has an `ansible_connection` that is a list or an object. -/
theorem normalise_iff (env : Env) (raw : Bytes) (staticHosts : List Str) :
    OnlySourceError env raw staticHosts ↔ ∀ data, Accepts env raw data →
      ∀ value, IsRead env data (str "ansible_connection") value → Hashable value := by
  have hcheck {data : Json} {graph : SourceGraph} {warnings : List Str}
      (hload : loadOutput env raw = .ok data)
      (hread : readOutput env data = .ok (graph, warnings)) :
      (∃ out, filterGraph graph staticHosts warnings = .ok out) ↔
        ∀ value, IsRead env data (str "ansible_connection") value → Hashable value := by
    rw [filterGraph_iff]
    constructor
    · intro h value hvalue
      obtain ⟨vars, hvars, hmem⟩ := (isRead_iff (keyed_of_loadOutput hload) hread).2 hvalue
      exact h vars hvars _ hmem rfl
    · rintro h vars hvars ⟨key, value⟩ hmem rfl
      exact h value ((isRead_iff (keyed_of_loadOutput hload) hread).1 ⟨vars, hvars, hmem⟩)
  constructor
  · rintro h data ⟨hload, ⟨graph, warnings⟩, hread⟩
    rw [← hcheck hload hread]
    have hparse : parseOutput env raw = .ok (graph, warnings) :=
      Lib.Except.bind_eq_ok.2 ⟨data, hload, hread⟩
    obtain ⟨snapshot, warnings', h⟩ | ⟨message, h⟩ := h
    · obtain ⟨r, hr, h⟩ := Lib.Except.bind_eq_ok.1 h
      cases hparse.symm.trans hr
      exact ⟨_, h⟩
    · obtain hr | ⟨r, hr, h⟩ := Lib.Except.bind_eq_error.1 h
      · cases hparse.symm.trans hr
      · cases hparse.symm.trans hr
        obtain ⟨t, ht⟩ := filterGraph_raises h
        cases ht
  · intro h
    obtain ⟨message, hraise⟩ | ⟨data, graph, warnings, hload, hparse, -⟩ :=
      parseOutput_wellFormed env raw
    · exact .inr ⟨message, Lib.Except.bind_eq_error.2 (.inl hraise)⟩
    · have hread : readOutput env data = .ok (graph, warnings) := by
        obtain ⟨data', hload', hread⟩ := Lib.Except.bind_eq_ok.1 hparse
        cases hload.symm.trans hload'
        exact hread
      obtain ⟨out, hout⟩ := (hcheck hload hread).2 (h data ⟨hload, _, hread⟩)
      exact .inl ⟨out.1, out.2, Lib.Except.bind_eq_ok.2 ⟨_, hparse, hout⟩⟩

/-- A host's `ansible_connection` is a list. -/
def listConnection : Bytes :=
  (str ("\x7b\"_meta\": \x7b\"profile\": \"inventory_legacy\", \"hostvars\": \x7b\"web1\": " ++
    "\x7b\"ansible_connection\": []\x7d\x7d\x7d\x7d")).map UInt8.ofNat

theorem listConnection_raises : ¬ ∀ (env : Env) (raw : Bytes) (staticHosts : List Str),
    OnlySourceError env raw staticHosts := by
  intro h
  have hraised : (match normalise plain listConnection [] with
      | .error e => some e
      | .ok _ => none) = some (.typeError .list) := by decide +kernel
  obtain ⟨snapshot, warnings, hok⟩ | ⟨message, herror⟩ := h plain listConnection []
  · rw [hok] at hraised
    cases hraised
  · rw [herror] at hraised
    cases hraised

end Parse

end InventorySources

end AnsiDeck
