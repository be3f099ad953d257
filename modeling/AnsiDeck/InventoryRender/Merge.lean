import AnsiDeck.InventoryRender
import AnsiDeck.Lib.Except

/-!
# Static data wins

What `inventory_render.merge` makes of the inventory's own data and a snapshot whose members are
hosts and whose children are groups: `StaticWins`. A snapshot is merged unless one of its variables
can't be looked up, which a refresh's filter never lets through.
-/

namespace AnsiDeck

/-- The members of an inventory's groups are its hosts. -/
def StaticData.WellFormed (static : StaticData) : Prop :=
  ∀ e ∈ static.groups.entries, ∀ h ∈ e.2, static.hosts.contains h = true

/-- The members of a snapshot's groups are its hosts, and their children its groups. -/
def SnapshotData.WellFormed (snapshot : SnapshotData) : Prop :=
  ∀ e ∈ snapshot.groups.entries, (∀ h ∈ e.2.hosts, snapshot.hosts.contains h = true) ∧
    ∀ c ∈ e.2.children, snapshot.groups.contains c = true

instance (static : StaticData) : Decidable static.WellFormed :=
  inferInstanceAs (Decidable (∀ _ ∈ _, _))

instance (snapshot : SnapshotData) : Decidable snapshot.WellFormed :=
  inferInstanceAs (Decidable (∀ _ ∈ _, _))

namespace InventoryRender

open Lib (Dict Json Str str)

mutual

/-- The strings in a value, at any depth. -/
def Value.texts : Value → List Text
  | .null | .bool _ | .int _ | .float _ => []
  | .str s => [s]
  | .arr items => textsList items
  | .obj entries => textsEntries entries

def textsList : List Value → List Text
  | [] => []
  | item :: items => item.texts ++ textsList items

def textsEntries : List (Text × Value) → List Text
  | [] => []
  | (key, value) :: entries => key :: (value.texts ++ textsEntries entries)

end

/-- A variable that a source's variables hold: allowed, and all its strings unsafe. -/
def FromSource (vars : Vars) (k : Str) (var : Var) : Prop :=
  ∃ v, vars.get? k = some v ∧ sourceVarProblem k v = .ok none ∧ var = ⟨true, marked true v⟩ ∧
    ∀ s ∈ var.value.texts, s.isUnsafe = true

/-- One that the inventory's own variables hold. -/
def FromStatic (vars : Vars) (k : Str) (var : Var) : Prop :=
  ∃ v, vars.get? k = some v ∧ var.value = marked false v ∧
    ∀ s ∈ var.value.texts, s.isUnsafe = false

/-- What a merged inventory has from the inventory's own data and from a snapshot. -/
structure StaticWins (static : StaticData) (snapshot : SnapshotData) (graph : Graph) : Prop where
  member : ∀ g group, graph.groups.get? g = some group → ∀ h ∈ group.hosts,
    graph.hosts.contains h = true
  child : ∀ g group, graph.groups.get? g = some group → ∀ c ∈ group.children,
    graph.groups.contains c = true
  /-- A static host's own variables are what it says. -/
  own : ∀ h vars, static.hosts.get? h = some vars → ∃ merged, graph.hosts.get? h = some merged ∧
    ∀ k v, vars.get? k = some v → ∃ var, merged.get? k = some var ∧ FromStatic vars k var
  /-- Of a host that was static then and is now, membership is the static data's. -/
  membership : ∀ g members, static.groups.get? g = some members → ∃ group,
    graph.groups.get? g = some group ∧ ∀ h, static.hosts.contains h = true →
      h ∈ snapshot.staticHosts → (h ∈ group.hosts ↔ h ∈ members)
  /-- One that was static then and is not now does not appear. -/
  gone : ∀ h ∈ snapshot.staticHosts, static.hosts.contains h = false →
    graph.hosts.contains h = false ∧ ∀ g group, graph.groups.get? g = some group → h ∉ group.hosts
  hostVars : ∀ h merged, graph.hosts.get? h = some merged → ∀ k var, merged.get? k = some var →
    (∃ vars, static.hosts.get? h = some vars ∧ FromStatic vars k var) ∨
      ∃ vars, snapshot.hosts.get? h = some vars ∧ FromSource vars k var
  groupVars : ∀ g group, graph.groups.get? g = some group → ∀ k var, group.vars.get? k = some var →
    ∃ group', snapshot.groups.get? g = some group' ∧ FromSource group'.vars k var
  allVars : ∀ k var, graph.vars.get? k = some var → FromSource snapshot.vars k var

/-- Every variable of these can be looked up. -/
def Judged (vars : Vars) : Prop := ∀ e ∈ vars.entries, ∃ problem,
    sourceVarProblem e.1 e.2 = .ok problem

/-- Every variable of a snapshot can be. -/
structure SnapshotJudged (snapshot : SnapshotData) : Prop where
  vars : Judged snapshot.vars
  hosts : ∀ e ∈ snapshot.hosts.entries, Judged e.2
  groups : ∀ e ∈ snapshot.groups.entries, Judged e.2.vars

/-! ## Marking -/

mutual

theorem texts_marked (isUnsafe : Bool) : ∀ (v : Json), ∀ s ∈ (marked isUnsafe v).texts,
    s.isUnsafe = isUnsafe
  | .null, s, hs => absurd hs (by simp [marked, Value.texts])
  | .bool _, s, hs => absurd hs (by simp [marked, Value.texts])
  | .int _, s, hs => absurd hs (by simp [marked, Value.texts])
  | .float _, s, hs => absurd hs (by simp [marked, Value.texts])
  | .str _, s, hs => by
    rw [marked, Value.texts, List.mem_singleton] at hs
    rw [hs]
  | .arr items, s, hs => by
    rw [marked, Value.texts] at hs
    exact textsList_marked isUnsafe items s hs
  | .obj entries, s, hs => by
    rw [marked, Value.texts] at hs
    exact textsEntries_marked isUnsafe entries s hs

theorem textsList_marked (isUnsafe : Bool) : ∀ (items : List Json),
    ∀ s ∈ textsList (markedList isUnsafe items), s.isUnsafe = isUnsafe
  | [], s, hs => absurd hs (by simp [markedList, textsList])
  | item :: items, s, hs => by
    rw [markedList, textsList] at hs
    rcases List.mem_append.1 hs with hs | hs
    · exact texts_marked isUnsafe item s hs
    · exact textsList_marked isUnsafe items s hs

theorem textsEntries_marked (isUnsafe : Bool) : ∀ (entries : List (Str × Json)),
    ∀ s ∈ textsEntries (markedEntries isUnsafe entries), s.isUnsafe = isUnsafe
  | [], s, hs => absurd hs (by simp [markedEntries, textsEntries])
  | (key, value) :: entries, s, hs => by
    rw [markedEntries, textsEntries, List.mem_cons, List.mem_append] at hs
    rcases hs with rfl | hs | hs
    · rfl
    · exact texts_marked isUnsafe value s hs
    · exact textsEntries_marked isUnsafe entries s hs

end

/-! ## What each part leaves -/

theorem get?_sourceVars {vars kept : Vars} (h : sourceVars vars = .ok kept) {k : Str} {v : Json} :
    kept.get? k = some v ↔ vars.get? k = some v ∧ sourceVarProblem k v = .ok none := by
  obtain ⟨_, -, h⟩ := Lib.Except.bind_eq_ok.1 h
  obtain rfl := Lib.Except.pure_eq_ok.1 h
  rw [Dict.get?_filter]
  refine and_congr_right fun _ => ?_
  split
  · rename_i hproblem
    simp [hproblem]
  · rename_i hproblem
    simp only [Bool.false_eq_true, false_iff]
    exact hproblem

/-- What is left of a source's variables is from it. -/
theorem fromSource_markUnsafe {vars kept : Vars} (h : sourceVars vars = .ok kept) {k : Str}
    {var : Var} (hvar : (markUnsafe kept).get? k = some var) : FromSource vars k var := by
  rw [markUnsafe, Dict.get?_mapValues, Option.map_eq_some_iff] at hvar
  obtain ⟨v, hv, rfl⟩ := hvar
  obtain ⟨hget, hproblem⟩ := (get?_sourceVars h).1 hv
  exact ⟨v, hget, hproblem, rfl, texts_marked true v⟩

theorem sourceVars_returns {vars : Vars} (h : Judged vars) :
    ∃ kept, sourceVars vars = .ok kept := by
  obtain ⟨problems, hproblems⟩ := Lib.Except.mapM_returns h
  exact ⟨_, Lib.Except.bind_eq_ok.2 ⟨problems, hproblems, rfl⟩⟩

theorem mem_fromKeys {names more : List Str} {n : Str} :
    n ∈ fromKeys names more ↔ n ∈ names ∨ n ∈ more := by
  rw [fromKeys, ← Dict.contains_iff_mem, Dict.ofList, Dict.contains_foldl_set]
  simp

theorem get?_overlay {merged : MergedVars} {vars : Vars} {k : Str} :
    (overlay merged vars).get? k = ((vars.get? k).map fun v =>
      ⟨((merged.get? k).map Var.unsafeName).getD false, marked false v⟩).or (merged.get? k) :=
  Dict.get?_foldl_set (fun (_ : Str) (v : Json) (found : Option Var) =>
    (⟨(found.map Var.unsafeName).getD false, marked false v⟩ : Var)) vars merged k

/-- The hosts that were the inventory's own and are no more. -/
def goneHosts (static : StaticData) (snapshot : SnapshotData) : List Str :=
  snapshot.staticHosts.filter fun h => !static.hosts.contains h

theorem mem_goneHosts {static : StaticData} {snapshot : SnapshotData} {h : Str} :
    h ∈ goneHosts static snapshot ↔ h ∈ snapshot.staticHosts ∧ static.hosts.contains h = false := by
  simp [goneHosts]

/-- The members that a group of the snapshot loses. -/
def skipped (static : StaticData) (snapshot : SnapshotData) (g : Str) : List Str :=
  if static.groups.contains g then goneHosts static snapshot ++ snapshot.staticHosts
  else goneHosts static snapshot

theorem mem_skipped {static : StaticData} {snapshot : SnapshotData} {g h : Str} :
    h ∈ skipped static snapshot g ↔ h ∈ goneHosts static snapshot ∨
      static.groups.contains g = true ∧ h ∈ snapshot.staticHosts := by
  rw [skipped]
  split
  · rename_i hg
    simp [hg]
  · rename_i hg
    simp [hg]

/-- The snapshot's part of a merge. -/
structure Laid (static : StaticData) (snapshot : SnapshotData) (graph : Graph) : Prop where
  hosts : ∀ h merged, graph.hosts.get? h = some merged ↔ h ∉ goneHosts static snapshot ∧
    ∃ vars kept, snapshot.hosts.get? h = some vars ∧ sourceVars vars = .ok kept ∧
      merged = markUnsafe kept
  groups : ∀ g group, graph.groups.get? g = some group ↔
    ∃ group' kept, snapshot.groups.get? g = some group' ∧ sourceVars group'.vars = .ok kept ∧
      group = ⟨fromKeys (group'.hosts.filter fun h => !(skipped static snapshot g).contains h) [],
        group'.children, markUnsafe kept⟩
  vars : ∀ k var, graph.vars.get? k = some var → FromSource snapshot.vars k var
  hostsKept : ∀ h vars, h ∉ goneHosts static snapshot → snapshot.hosts.get? h = some vars →
    ∃ kept, sourceVars vars = .ok kept
  groupsKept : ∀ g group, snapshot.groups.get? g = some group →
    ∃ kept, sourceVars group.vars = .ok kept

/-- Entries that are mapped one by one, each under its key. -/
theorem get?_ofList_mapM {ε α β : Type} {f : Str × α → Except ε (Str × β)}
    {entries : List (Str × α)} {out : List (Str × β)} (hnodup : (entries.map Prod.fst).Nodup)
    (hkey : ∀ e e', f e = .ok e' → e'.1 = e.1) (h : entries.mapM f = .ok out) {k : Str} {b : β} :
    (Dict.ofList out).get? k = some b ↔ ∃ a, (k, a) ∈ entries ∧ f (k, a) = .ok (k, b) := by
  have hall := Lib.Except.mapM_eq_ok.1 h
  have hkeys : out.map Prod.fst = entries.map Prod.fst := by
    clear hnodup h
    induction hall with
    | nil => rfl
    | cons hb _ ih => rw [List.map_cons, List.map_cons, hkey _ _ hb, ih]
  rw [Dict.get?_eq_some, Dict.entries_ofList (hkeys ▸ hnodup)]
  rw [Lib.Except.mem_mapM h]
  constructor
  · rintro ⟨⟨k', a⟩, he, hf⟩
    obtain rfl : k = k' := hkey _ _ hf
    exact ⟨a, he, hf⟩
  · rintro ⟨a, ha, hf⟩
    exact ⟨(k, a), ha, hf⟩

theorem laid_of_fromSnapshot {static : StaticData} {snapshot : SnapshotData} {graph : Graph}
    (h : fromSnapshot static snapshot = .ok graph) : Laid static snapshot graph := by
  obtain ⟨vars, hvars, h⟩ := Lib.Except.bind_eq_ok.1 h
  obtain ⟨hosts, hhosts, h⟩ := Lib.Except.bind_eq_ok.1 h
  obtain ⟨groups, hgroups, h⟩ := Lib.Except.bind_eq_ok.1 h
  obtain rfl := Lib.Except.pure_eq_ok.1 h
  refine ⟨fun h merged => ?_, fun g group => ?_, fun k var => fromSource_markUnsafe hvars,
    fun h vars hgone hget => ?_, fun g group hget => ?_⟩
  · rw [get?_ofList_mapM (snapshot.hosts.nodup.sublist (List.filter_sublist.map Prod.fst)) ?_
      hhosts]
    · constructor
      · rintro ⟨hostVars, hmem, hf⟩
        obtain ⟨kept, hkept, hf⟩ := Lib.Except.bind_eq_ok.1 hf
        have heq := Lib.Except.pure_eq_ok.1 hf
        obtain ⟨hmem, hgone⟩ := List.mem_filter.1 hmem
        have hgone : (!(goneHosts static snapshot).contains h) = true := hgone
        refine ⟨by simpa using hgone, hostVars, kept, Dict.get?_eq_some.2 hmem, hkept, ?_⟩
        exact ((Prod.mk.injEq ..).mp heq).2.symm
      · rintro ⟨hgone, hostVars, kept, hget, hkept, rfl⟩
        have hgone : (!(goneHosts static snapshot).contains h) = true := by simpa using hgone
        exact ⟨hostVars, List.mem_filter.2 ⟨Dict.get?_eq_some.1 hget, hgone⟩,
          Lib.Except.bind_eq_ok.2 ⟨kept, hkept, rfl⟩⟩
    · intro e e' hf
      obtain ⟨kept, -, hf⟩ := Lib.Except.bind_eq_ok.1 hf
      rw [← Lib.Except.pure_eq_ok.1 hf]
  · rw [get?_ofList_mapM snapshot.groups.nodup ?_ hgroups]
    · constructor
      · rintro ⟨group', hmem, hf⟩
        obtain ⟨kept, hkept, hf⟩ := Lib.Except.bind_eq_ok.1 hf
        have heq := Lib.Except.pure_eq_ok.1 hf
        refine ⟨group', kept, Dict.get?_eq_some.2 hmem, hkept, ?_⟩
        exact ((Prod.mk.injEq ..).mp heq).2.symm
      · rintro ⟨group', kept, hget, hkept, rfl⟩
        exact ⟨group', Dict.get?_eq_some.1 hget, Lib.Except.bind_eq_ok.2 ⟨kept, hkept, rfl⟩⟩
    · intro e e' hf
      obtain ⟨kept, -, hf⟩ := Lib.Except.bind_eq_ok.1 hf
      rw [← Lib.Except.pure_eq_ok.1 hf]
  · have hmem : (h, vars) ∈ snapshot.hosts.entries.filter
        fun e => !(goneHosts static snapshot).contains e.1 :=
      List.mem_filter.2 ⟨Dict.get?_eq_some.1 hget, by simpa using hgone⟩
    obtain ⟨_, hf⟩ := Lib.Except.returns_of_mapM hhosts hmem
    obtain ⟨kept, hkept, -⟩ := Lib.Except.bind_eq_ok.1 hf
    exact ⟨kept, hkept⟩
  · obtain ⟨_, hf⟩ := Lib.Except.returns_of_mapM hgroups (Dict.get?_eq_some.1 hget)
    obtain ⟨kept, hkept, -⟩ := Lib.Except.bind_eq_ok.1 hf
    exact ⟨kept, hkept⟩

theorem fromSnapshot_returns (static : StaticData) {snapshot : SnapshotData}
    (h : SnapshotJudged snapshot) : ∃ graph, fromSnapshot static snapshot = .ok graph := by
  obtain ⟨vars, hvars⟩ := sourceVars_returns h.vars
  obtain ⟨hosts, hhosts⟩ := Lib.Except.mapM_returns
    (l := snapshot.hosts.entries.filter fun e => !(goneHosts static snapshot).contains e.1)
    (f := fun e => do pure (e.1, markUnsafe (← sourceVars e.2))) fun e he => by
      obtain ⟨kept, hkept⟩ := sourceVars_returns (h.hosts e (List.mem_filter.1 he).1)
      exact ⟨_, Lib.Except.bind_eq_ok.2 ⟨kept, hkept, rfl⟩⟩
  obtain ⟨groups, hgroups⟩ := Lib.Except.mapM_returns (l := snapshot.groups.entries)
    (f := fun e => do
      pure (e.1, {
        hosts := fromKeys (e.2.hosts.filter fun h => !(skipped static snapshot e.1).contains h) []
        children := e.2.children
        vars := markUnsafe (← sourceVars e.2.vars) : Group })) fun e he => by
      obtain ⟨kept, hkept⟩ := sourceVars_returns (h.groups e he)
      exact ⟨_, Lib.Except.bind_eq_ok.2 ⟨kept, hkept, rfl⟩⟩
  exact ⟨_, Lib.Except.bind_eq_ok.2 ⟨vars, hvars, Lib.Except.bind_eq_ok.2 ⟨hosts, hhosts,
    Lib.Except.bind_eq_ok.2 ⟨groups, hgroups, rfl⟩⟩⟩⟩

/-! ## The merge -/

namespace Laid

variable {static : StaticData} {snapshot : SnapshotData} {laid : Graph}

theorem contains_host (hlaid : Laid static snapshot laid) {h : Str}
    (hgone : h ∉ goneHosts static snapshot) (hhost : snapshot.hosts.contains h = true) :
    laid.hosts.contains h = true := by
  obtain ⟨vars, hvars⟩ := Dict.contains_iff_get?.1 hhost
  obtain ⟨kept, hkept⟩ := hlaid.hostsKept h vars hgone hvars
  exact Dict.contains_iff_get?.2
    ⟨_, (hlaid.hosts h _).2 ⟨hgone, vars, kept, hvars, hkept, rfl⟩⟩

theorem contains_group (hlaid : Laid static snapshot laid) {g : Str}
    (hgroup : snapshot.groups.contains g = true) : laid.groups.contains g = true := by
  obtain ⟨group, hget⟩ := Dict.contains_iff_get?.1 hgroup
  obtain ⟨kept, hkept⟩ := hlaid.groupsKept g group hget
  exact Dict.contains_iff_get?.2 ⟨_, (hlaid.groups g _).2 ⟨group, kept, hget, hkept, rfl⟩⟩

/-- A member of a group laid down is a host of the snapshot that the group keeps. -/
theorem member (hlaid : Laid static snapshot laid) (hsnapshot : snapshot.WellFormed) {g h : Str}
    {group : Group} (hget : laid.groups.get? g = some group) (hmem : h ∈ group.hosts) :
    snapshot.hosts.contains h = true ∧ h ∉ skipped static snapshot g := by
  obtain ⟨group', kept, hget', -, rfl⟩ := (hlaid.groups g group).1 hget
  obtain hmem | hmem := mem_fromKeys.1 hmem
  · obtain ⟨hin, hskip⟩ := List.mem_filter.1 hmem
    exact ⟨(hsnapshot _ (Dict.get?_eq_some.1 hget')).1 h hin, by simpa using hskip⟩
  · exact absurd hmem (by simp)

theorem child (hlaid : Laid static snapshot laid) (hsnapshot : snapshot.WellFormed) {g c : Str}
    {group : Group} (hget : laid.groups.get? g = some group) (hmem : c ∈ group.children) :
    laid.groups.contains c = true := by
  obtain ⟨group', kept, hget', -, rfl⟩ := (hlaid.groups g group).1 hget
  exact hlaid.contains_group ((hsnapshot _ (Dict.get?_eq_some.1 hget')).2 c hmem)

theorem hostVar (hlaid : Laid static snapshot laid) {h k : Str} {merged : MergedVars} {var : Var}
    (hget : laid.hosts.get? h = some merged) (hvar : merged.get? k = some var) :
    ∃ vars, snapshot.hosts.get? h = some vars ∧ FromSource vars k var := by
  obtain ⟨-, vars, kept, hvars, hkept, rfl⟩ := (hlaid.hosts h merged).1 hget
  exact ⟨vars, hvars, fromSource_markUnsafe hkept hvar⟩

theorem groupVar (hlaid : Laid static snapshot laid) {g k : Str} {group : Group} {var : Var}
    (hget : laid.groups.get? g = some group) (hvar : group.vars.get? k = some var) :
    ∃ group', snapshot.groups.get? g = some group' ∧ FromSource group'.vars k var := by
  obtain ⟨group', kept, hget', hkept, rfl⟩ := (hlaid.groups g group).1 hget
  exact ⟨group', hget', fromSource_markUnsafe hkept hvar⟩

end Laid

/-- A group of the inventory, laid on the snapshot's: it only adds members. -/
def withMembers (group : Option Group) (members : List Str) : Group :=
  { group.getD ⟨[], [], ∅⟩ with hosts := fromKeys (group.getD ⟨[], [], ∅⟩).hosts members }

theorem mem_withMembers {group : Option Group} {members : List Str} {h : Str} :
    h ∈ (withMembers group members).hosts ↔
      (∃ group', group = some group' ∧ h ∈ group'.hosts) ∨ h ∈ members := by
  rw [withMembers, mem_fromKeys]
  cases group with
  | none => simp
  | some group' => simp

theorem mem_children_withMembers {group : Option Group} {members : List Str} {c : Str}
    (h : c ∈ (withMembers group members).children) :
    ∃ group', group = some group' ∧ c ∈ group'.children := by
  cases group with
  | none => exact absurd h (by simp [withMembers])
  | some group' => exact ⟨group', rfl, h⟩

theorem get?_vars_withMembers {group : Option Group} {members : List Str} {k : Str} {var : Var}
    (h : (withMembers group members).vars.get? k = some var) :
    ∃ group', group = some group' ∧ group'.vars.get? k = some var := by
  cases group with
  | none => exact absurd h (by simp [withMembers])
  | some group' => exact ⟨group', rfl, h⟩

/-- A variable of a static host is its own, or one of the snapshot's host that it doesn't set. -/
theorem get?_overlay_cases {merged : Option MergedVars} {vars : Vars} {k : Str} {var : Var}
    (h : (overlay (merged.getD ∅) vars).get? k = some var) :
    FromStatic vars k var ∨ ∃ merged', merged = some merged' ∧ merged'.get? k = some var := by
  rw [get?_overlay] at h
  cases hv : vars.get? k with
  | some v =>
    rw [hv, Option.map_some, Option.some_or, Option.some.injEq] at h
    subst h
    exact .inl ⟨v, hv, rfl, texts_marked false v⟩
  | none =>
    rw [hv, Option.map_none, Option.none_or] at h
    cases merged with
    | none => exact absurd h (by simp)
    | some merged' => exact .inr ⟨merged', rfl, h⟩

theorem fromStatic_overlay {merged : MergedVars} {vars : Vars} {k : Str} {v : Json}
    (hv : vars.get? k = some v) :
    ∃ var, (overlay merged vars).get? k = some var ∧ FromStatic vars k var := by
  rw [get?_overlay, hv]
  exact ⟨_, rfl, v, hv, rfl, texts_marked false v⟩

/-- The static data laid on the snapshot's part. -/
structure OnTop (static : StaticData) (laid graph : Graph) : Prop where
  vars : graph.vars = laid.vars
  hosts : ∀ h, graph.hosts.get? h = ((static.hosts.get? h).map fun vars =>
    overlay ((laid.hosts.get? h).getD ∅) vars).or (laid.hosts.get? h)
  groups : ∀ g, graph.groups.get? g = ((static.groups.get? g).map fun members =>
    withMembers (laid.groups.get? g) members).or (laid.groups.get? g)

theorem merge_eq_ok {static : StaticData} {snapshot : SnapshotData} {graph : Graph}
    (h : merge static (some snapshot) = .ok graph) :
    ∃ laid, Laid static snapshot laid ∧ OnTop static laid graph := by
  obtain ⟨laid, hlaid, h⟩ := Lib.Except.bind_eq_ok.1 h
  obtain rfl := Lib.Except.pure_eq_ok.1 h
  refine ⟨laid, laid_of_fromSnapshot hlaid, rfl, fun h => ?_, fun g => ?_⟩
  · exact Dict.get?_foldl_set (fun (_ : Str) (vars : Vars) (found : Option MergedVars) =>
      overlay (found.getD ∅) vars) static.hosts laid.hosts h
  · exact Dict.get?_foldl_set (fun (_ : Str) (members : List Str) (found : Option Group) =>
      withMembers found members) static.groups laid.groups g

namespace OnTop

variable {static : StaticData} {snapshot : SnapshotData} {laid graph : Graph}

theorem contains_host (hon : OnTop static laid graph) {h : Str} :
    graph.hosts.contains h = true ↔
      static.hosts.contains h = true ∨ laid.hosts.contains h = true := by
  rw [Dict.contains_iff_get?, Dict.contains_iff_get?, Dict.contains_iff_get?, hon.hosts]
  cases static.hosts.get? h with
  | none => simp
  | some vars => simp

theorem contains_group (hon : OnTop static laid graph) {g : Str}
    (h : laid.groups.contains g = true) : graph.groups.contains g = true := by
  obtain ⟨group, hin⟩ := Dict.contains_iff_get?.1 h
  rw [Dict.contains_iff_get?, hon.groups]
  cases static.groups.get? g with
  | none => exact ⟨group, by simp [hin]⟩
  | some members => exact ⟨_, rfl⟩

/-- A group of the merge is the snapshot's, or that with the static members. -/
theorem group_cases (hon : OnTop static laid graph) {g : Str} {group : Group}
    (hget : graph.groups.get? g = some group) :
    (∃ members, static.groups.get? g = some members ∧
      group = withMembers (laid.groups.get? g) members) ∨ laid.groups.get? g = some group := by
  rw [hon.groups] at hget
  cases hs : static.groups.get? g with
  | none => exact .inr (by simpa [hs] using hget)
  | some members =>
    rw [hs, Option.map_some, Option.some_or, Option.some.injEq] at hget
    exact .inl ⟨members, rfl, hget.symm⟩

theorem member (hon : OnTop static laid graph) (hlaid : Laid static snapshot laid)
    (hstatic : static.WellFormed) (hsnapshot : snapshot.WellFormed) {g h : Str} {group : Group}
    (hget : graph.groups.get? g = some group) (hmem : h ∈ group.hosts) :
    graph.hosts.contains h = true := by
  have hkept : ∀ group', laid.groups.get? g = some group' → h ∈ group'.hosts →
      graph.hosts.contains h = true := by
    intro group' hget' hmem'
    obtain ⟨hin, hskip⟩ := hlaid.member hsnapshot hget' hmem'
    have hgone : h ∉ goneHosts static snapshot := fun hg => hskip (mem_skipped.2 (.inl hg))
    exact hon.contains_host.2 (.inr (hlaid.contains_host hgone hin))
  rcases hon.group_cases hget with ⟨members, hs, rfl⟩ | hget'
  · rcases mem_withMembers.1 hmem with ⟨group', hget', hmem'⟩ | hmem'
    · exact hkept group' hget' hmem'
    · exact hon.contains_host.2 (.inl (hstatic _ (Dict.get?_eq_some.1 hs) h hmem'))
  · exact hkept group hget' hmem

theorem child (hon : OnTop static laid graph) (hlaid : Laid static snapshot laid)
    (hsnapshot : snapshot.WellFormed) {g c : Str} {group : Group}
    (hget : graph.groups.get? g = some group) (hmem : c ∈ group.children) :
    graph.groups.contains c = true := by
  rcases hon.group_cases hget with ⟨members, -, rfl⟩ | hget'
  · obtain ⟨group', hget', hmem'⟩ := mem_children_withMembers hmem
    exact hon.contains_group (hlaid.child hsnapshot hget' hmem')
  · exact hon.contains_group (hlaid.child hsnapshot hget' hmem)

/-- A host that was static and is not now is nowhere. -/
theorem gone (hon : OnTop static laid graph) (hlaid : Laid static snapshot laid) {h : Str}
    (hwas : h ∈ snapshot.staticHosts) (hnow : static.hosts.contains h = false) :
    graph.hosts.contains h = false := by
  have hnone : laid.hosts.contains h = false := by
    rw [Bool.eq_false_iff, ne_eq, Dict.contains_iff_get?]
    rintro ⟨merged, hget⟩
    exact ((hlaid.hosts h merged).1 hget).1 (mem_goneHosts.2 ⟨hwas, hnow⟩)
  rw [Bool.eq_false_iff, ne_eq, hon.contains_host, hnow, hnone]
  simp

theorem membership (hon : OnTop static laid graph) (hlaid : Laid static snapshot laid)
    (hsnapshot : snapshot.WellFormed) {g : Str} {members : List Str}
    (hget : static.groups.get? g = some members) :
    ∃ group, graph.groups.get? g = some group ∧
      ∀ h ∈ snapshot.staticHosts, (h ∈ group.hosts ↔ h ∈ members) := by
  refine ⟨withMembers (laid.groups.get? g) members, by rw [hon.groups, hget]; rfl, ?_⟩
  intro h hwas
  rw [mem_withMembers]
  constructor
  · rintro (⟨group', hget', hmem'⟩ | hmem)
    · obtain ⟨-, hskip⟩ := hlaid.member hsnapshot hget' hmem'
      have hown : static.groups.contains g = true := Dict.contains_iff_get?.2 ⟨members, hget⟩
      exact absurd (mem_skipped.2 (.inr ⟨hown, hwas⟩)) hskip
    · exact hmem
  · intro hmem
    exact .inr hmem

theorem hostVar (hon : OnTop static laid graph) (hlaid : Laid static snapshot laid) {h k : Str}
    {merged : MergedVars} {var : Var} (hget : graph.hosts.get? h = some merged)
    (hvar : merged.get? k = some var) :
    (∃ vars, static.hosts.get? h = some vars ∧ FromStatic vars k var) ∨
      ∃ vars, snapshot.hosts.get? h = some vars ∧ FromSource vars k var := by
  rw [hon.hosts] at hget
  cases hs : static.hosts.get? h with
  | none =>
    rw [hs, Option.map_none, Option.none_or] at hget
    exact .inr (hlaid.hostVar hget hvar)
  | some vars =>
    rw [hs, Option.map_some, Option.some_or, Option.some.injEq] at hget
    subst hget
    rcases get?_overlay_cases hvar with hown | ⟨merged', hget', hvar'⟩
    · exact .inl ⟨vars, rfl, hown⟩
    · exact .inr (hlaid.hostVar hget' hvar')

theorem groupVar (hon : OnTop static laid graph) (hlaid : Laid static snapshot laid) {g k : Str}
    {group : Group} {var : Var} (hget : graph.groups.get? g = some group)
    (hvar : group.vars.get? k = some var) :
    ∃ group', snapshot.groups.get? g = some group' ∧ FromSource group'.vars k var := by
  rcases hon.group_cases hget with ⟨members, -, rfl⟩ | hget'
  · obtain ⟨group', hget', hvar'⟩ := get?_vars_withMembers hvar
    exact hlaid.groupVar hget' hvar'
  · exact hlaid.groupVar hget' hvar

theorem staticWins (hon : OnTop static laid graph) (hlaid : Laid static snapshot laid)
    (hstatic : static.WellFormed) (hsnapshot : snapshot.WellFormed) :
    StaticWins static snapshot graph where
  member _ _ hget _ hmem := hon.member hlaid hstatic hsnapshot hget hmem
  child _ _ hget _ hmem := hon.child hlaid hsnapshot hget hmem
  own h vars hget := ⟨overlay ((laid.hosts.get? h).getD ∅) vars, by rw [hon.hosts, hget]; rfl,
    fun _ _ hv => fromStatic_overlay hv⟩
  membership _ _ hget := by
    obtain ⟨group, hgroup, hmem⟩ := hon.membership hlaid hsnapshot hget
    exact ⟨group, hgroup, fun h _ hwas => hmem h hwas⟩
  gone h hwas hnow := by
    have hgone := hon.gone hlaid hwas hnow
    refine ⟨hgone, fun g group hget hmem => ?_⟩
    rw [hon.member hlaid hstatic hsnapshot hget hmem] at hgone
    exact absurd hgone (by simp)
  hostVars _ _ hget _ _ hvar := hon.hostVar hlaid hget hvar
  groupVars _ _ hget _ _ hvar := hon.groupVar hlaid hget hvar
  allVars k var hvar := hlaid.vars k var (hon.vars ▸ hvar)

end OnTop

/-- Static data wins in every merge with a snapshot, and each one whose variables can be looked up
is merged. -/
theorem merge_staticWins (static : StaticData) (snapshot : SnapshotData)
    (hstatic : static.WellFormed) (hsnapshot : snapshot.WellFormed) :
    (∀ graph, merge static (some snapshot) = .ok graph → StaticWins static snapshot graph) ∧
      (SnapshotJudged snapshot → ∃ graph, merge static (some snapshot) = .ok graph) := by
  constructor
  · intro graph hmerge
    obtain ⟨laid, hlaid, hon⟩ := merge_eq_ok hmerge
    exact hon.staticWins hlaid hstatic hsnapshot
  · intro hjudged
    obtain ⟨laid, hlaid⟩ := fromSnapshot_returns static hjudged
    exact ⟨_, Lib.Except.bind_eq_ok.2 ⟨laid, hlaid, rfl⟩⟩

theorem merge_web1 :
    let static : StaticData :=
      ⟨.ofList [(str "web1", .ofList [(str "port", .int 80)])], .ofList [(str "web", [str "web1"])]⟩
    let snapshot : SnapshotData :=
      ⟨∅, .ofList [(str "web1", .ofList [(str "port", .int 8080)]), (str "db1", ∅)],
        .ofList [(str "web", ⟨[str "web1", str "db1"], [], ∅⟩)], [str "web1"]⟩
    (∀ graph, merge static (some snapshot) = .ok graph → StaticWins static snapshot graph) ∧
      (SnapshotJudged snapshot → ∃ graph, merge static (some snapshot) = .ok graph) :=
  merge_staticWins _ _ (by decide) (by decide)

end InventoryRender

end AnsiDeck
