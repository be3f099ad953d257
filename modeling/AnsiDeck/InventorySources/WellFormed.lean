import AnsiDeck.InventoryRender.Merge
import AnsiDeck.InventorySources.Cycles
import AnsiDeck.InventorySources.Values

/-!
# What `parse_output` accepts

`parse_output` returns a well-formed graph or raises `SourceError`. Each of its passes has a lemma
that says what it leaves of the output: the hosts grow, one by one and only by names Ansible reads
as one host (`Reading.Kept`, `Reading.Grew`), so that what is a member in one pass still is one at
the end.
-/

namespace AnsiDeck

namespace InventorySources

namespace Parse

open Lib (Dict Json Str str)
open InventoryRender (hostnameProblem groupProblem fromKeys mem_fromKeys)

variable {env : Env}

/-! ## Hosts -/

structure Reading.Kept (env : Env) (r : Reading) : Prop where
  named : ∀ name ∈ r.hosts.keys, hostnameProblem env.ansible name = none
  skipped : ∀ name ∈ r.skipped, hostnameProblem env.ansible name ≠ none
  size : r.hosts.size ≤ env.maxHosts

/-- Hosts without variables came to those there were. -/
structure Reading.Grew (r r' : Reading) : Prop where
  kept : ∀ {name vars}, r.hosts.get? name = some vars → r'.hosts.get? name = some vars
  new : ∀ {name vars}, r'.hosts.get? name = some vars → r.hosts.get? name = some vars ∨ vars = ∅

theorem Reading.Grew.refl (r : Reading) : r.Grew r := ⟨id, .inl⟩

theorem Reading.Grew.trans {r r' r'' : Reading} (h : r.Grew r') (h' : r'.Grew r'') : r.Grew r'' :=
  ⟨fun hr => h'.kept (h.kept hr), fun hr => (h'.new hr).elim h.new .inr⟩

theorem Reading.Grew.keys {r r' : Reading} (h : r.Grew r') {name : Str}
    (hname : name ∈ r.hosts.keys) :
    name ∈ r'.hosts.keys := by
  obtain ⟨vars, hvars⟩ := Dict.contains_iff_get?.1 (Dict.contains_iff_mem.2 hname)
  exact Dict.contains_iff_mem.1 (Dict.contains_iff_get?.2 ⟨vars, h.kept hvars⟩)

/-- Warnings alone. -/
theorem Reading.Kept.warned {r : Reading} (h : r.Kept env) (warnings : List Str) :
    Reading.Kept env { r with warnings := warnings } :=
  ⟨h.named, h.skipped, h.size⟩

theorem Reading.Grew.warned {r r' : Reading} (h : r.Grew r') (warnings : List Str) :
    r.Grew { r' with warnings := warnings } :=
  ⟨h.kept, h.new⟩

/-- What `add_host` did, where it said whether the name is a host's. -/
structure Added (env : Env) (r : Reading) (name : Str) (added : Bool) (r' : Reading) : Prop where
  kept : r'.Kept env
  grew : r.Grew r'
  iff : added = true ↔ hostnameProblem env.ansible name = none
  mem : added = true → name ∈ r'.hosts.keys
  others : ∀ n, n ≠ name → r'.hosts.get? n = r.hosts.get? n

theorem addHost_ok {r r' : Reading} {name : Str} {added : Bool} (hr : r.Kept env)
    (h : addHost env r name = .ok (added, r')) : Added env r name added r' := by
  unfold addHost at h
  split at h
  · rename_i hmem
    cases h
    have hmem := Dict.contains_iff_mem.1 hmem
    exact ⟨hr, .refl _, ⟨fun _ => hr.named _ hmem, fun _ => rfl⟩, fun _ => hmem,
      fun _ _ => rfl⟩
  rename_i hnew
  split at h
  · rename_i hskipped
    cases h
    exact ⟨hr, .refl _,
      ⟨fun h => absurd h Bool.false_ne_true, fun h => absurd h (hr.skipped _ hskipped)⟩,
      fun h => absurd h Bool.false_ne_true, fun _ _ => rfl⟩
  split at h
  · rename_i problem hproblem
    cases h
    refine ⟨⟨hr.named, ?_, hr.size⟩, ⟨id, .inl⟩,
      ⟨fun h => absurd h Bool.false_ne_true, fun h => ?_⟩, fun h =>
        absurd h Bool.false_ne_true, fun _ _ => rfl⟩
    · exact List.forall_mem_cons.2 ⟨by simp [hproblem], hr.skipped⟩
    · rw [hproblem] at h
      cases h
  rename_i hproblem
  split at h
  · cases h
  rename_i hroom
  cases h
  have hnot : name ∉ r.hosts.keys := fun hmem => hnew (Dict.contains_iff_mem.2 hmem)
  refine ⟨⟨fun n hn => ?_, hr.skipped, ?_⟩, ⟨fun {n vars} hget => ?_, fun {n vars} hget => ?_⟩,
    ⟨fun _ => hproblem, fun _ => rfl⟩, fun _ => Dict.mem_keys_set.2 (.inl rfl), fun n hn => ?_⟩
  · obtain rfl | hn := Dict.mem_keys_set.1 hn
    · exact hproblem
    · exact hr.named n hn
  · show (r.hosts.set name ∅).entries.length ≤ env.maxHosts
    rw [Dict.entries_set_of_not_mem hnot, List.length_append, List.length_singleton]
    exact Nat.lt_of_not_le hroom
  · rw [Dict.get?_set, if_neg]
    · exact hget
    · rintro rfl
      exact hnot (Dict.contains_iff_mem.1 (Dict.contains_iff_get?.2 ⟨vars, hget⟩))
  · rw [Dict.get?_set] at hget
    split at hget
    · exact .inr (Option.some.inj hget).symm
    · exact .inl hget
  · exact (Dict.get?_set).trans (if_neg hn)

/-- What adding several did. -/
structure AddedAll (env : Env) (r : Reading) (names members : List Str) (r' : Reading) : Prop where
  kept : r'.Kept env
  grew : r.Grew r'
  mem : ∀ name ∈ members, name ∈ r'.hosts.keys
  eq : members = names.filter fun name => hostnameProblem env.ansible name = none

theorem addHosts_ok {r r' : Reading} {names members : List Str} (hr : r.Kept env)
    (h : addHosts env r names = .ok (members, r')) : AddedAll env r names members r' := by
  induction names generalizing r members with
  | nil =>
    cases h
    exact ⟨hr, .refl _, by simp, rfl⟩
  | cons name names ih =>
    rw [addHosts] at h
    obtain ⟨⟨added, r₁⟩, hadd, h⟩ := Lib.Except.bind_eq_ok.1 h
    obtain ⟨⟨rest, r₂⟩, hrest, h⟩ := Lib.Except.bind_eq_ok.1 h
    cases h
    have hone := addHost_ok hr hadd
    have hall := ih hone.kept hrest
    refine ⟨hall.kept, hone.grew.trans hall.grew, ?_, ?_⟩
    · split
      · rename_i hadded
        exact List.forall_mem_cons.2 ⟨hall.grew.keys (hone.mem hadded), hall.mem⟩
      · exact hall.mem
    · rw [List.filter_cons, hall.eq]
      by_cases hname : hostnameProblem env.ansible name = none
      · rw [if_pos (hone.iff.2 hname), if_pos (by simpa using hname)]
      · rw [if_neg (fun h => hname (hone.iff.1 h)), if_neg (by simpa using hname)]

/-- After part of `hostvars`: each host there has the variables that are read for it. -/
structure HostsRead (env : Env) (front : List (Str × Json)) (r : Reading) : Prop where
  kept : r.Kept env
  sound : ∀ name vars, r.hosts.get? name = some vars →
    ∃ value, (name, value) ∈ front ∧ Parsed value vars
  complete : ∀ name value, (name, value) ∈ front → hostnameProblem env.ansible name = none →
    ∃ vars, r.hosts.get? name = some vars ∧ Parsed value vars

theorem HostsRead.mono {front : List (Str × Json)} {r r' : Reading} {entry : Str × Json}
    (h : HostsRead env front r) (hkept : r'.Kept env)
    (hothers : ∀ n, n ≠ entry.1 → r'.hosts.get? n = r.hosts.get? n)
    (hnew : entry.1 ∉ front.map Prod.fst)
    (hsound : ∀ vars, r'.hosts.get? entry.1 = some vars → Parsed entry.2 vars)
    (hcomplete : hostnameProblem env.ansible entry.1 = none →
      ∃ vars, r'.hosts.get? entry.1 = some vars) :
    HostsRead env (front ++ [entry]) r' := by
  refine ⟨hkept, fun name vars hget => ?_, fun name value hvalue hname => ?_⟩
  · by_cases heq : name = entry.1
    · subst heq
      exact ⟨entry.2, List.mem_append_right _ List.mem_cons_self, hsound vars hget⟩
    · rw [hothers name heq] at hget
      obtain ⟨value, hvalue, hparsed⟩ := h.sound name vars hget
      exact ⟨value, List.mem_append_left _ hvalue, hparsed⟩
  · obtain hvalue | hvalue := List.mem_append.1 hvalue
    · have heq : name ≠ entry.1 := fun heq => hnew (heq ▸ List.mem_map.2 ⟨_, hvalue, rfl⟩)
      rw [hothers name heq]
      exact h.complete name value hvalue hname
    · obtain rfl := List.mem_singleton.1 hvalue
      obtain ⟨vars, hvars⟩ := hcomplete hname
      exact ⟨vars, hvars, hsound vars hvars⟩

theorem readHost_ok {front : List (Str × Json)} {r r' : Reading} {entry : Str × Json}
    (hr : HostsRead env front r) (hnew : entry.1 ∉ front.map Prod.fst)
    (h : readHost env r entry = .ok r') : HostsRead env (front ++ [entry]) r' := by
  obtain ⟨⟨added, r₁⟩, hadd, h⟩ := Lib.Except.bind_eq_ok.1 h
  have hone := addHost_ok hr.kept hadd
  dsimp only at h
  split at h
  · rename_i hadded
    obtain ⟨⟨vars, warnings⟩, hparse, h⟩ := Lib.Except.bind_eq_ok.1 h
    cases h
    have hself : (r₁.hosts.set entry.1 vars).get? entry.1 = some vars :=
      Dict.get?_set.trans (if_pos rfl)
    refine hr.mono ⟨fun n hn => ?_, hone.kept.skipped, ?_⟩ (fun n hn => ?_) hnew
      (fun vars' hget => ?_) (fun _ => ⟨vars, hself⟩)
    · obtain rfl | hn := Dict.mem_keys_set.1 hn
      · exact hone.iff.1 hadded
      · exact hone.kept.named n hn
    · rw [← Dict.length_keys, Dict.keys_set_of_mem (hone.mem hadded), Dict.length_keys]
      exact hone.kept.size
    · exact (Dict.get?_set.trans (if_neg hn)).trans (hone.others n hn)
    · obtain rfl := Option.some.inj (hself.symm.trans hget)
      exact ⟨_, _, _, hparse⟩
  · rename_i hadded
    cases h
    have hproblem : hostnameProblem env.ansible entry.1 ≠ none := fun hnone =>
      hadded (hone.iff.2 hnone)
    refine hr.mono hone.kept hone.others hnew (fun vars hget => ?_) fun hnone =>
      absurd hnone hproblem
    have hmem := Dict.contains_iff_mem.1 (Dict.contains_iff_get?.2 ⟨vars, hget⟩)
    exact absurd (hone.kept.named _ hmem) hproblem

/-! ## The sections -/

/-- After part of the sections. -/
structure SectionsRead (env : Env) (start : Reading) (front : List (Str × Json)) (s : Sections) :
    Prop where
  kept : s.reading.Kept env
  grew : start.Grew s.reading
  raw : s.rawGroups.entries = rawGroupsOf front
  sound : s.allVars = ∅ ∨
    ∃ group, (str "all", .obj group) ∈ front ∧ Parsed (orEmpty (get group "vars")) s.allVars
  complete : ∀ group, (str "all", .obj group) ∈ front →
    Parsed (orEmpty (get group "vars")) s.allVars

theorem rawGroupsOf_append (front : List (Str × Json)) (entry : Str × Json) :
    rawGroupsOf (front ++ [entry]) = rawGroupsOf front ++ rawGroupsOf [entry] :=
  List.filterMap_append

theorem mem_rawGroupsOf {rest : List (Str × Json)} {name : Str} {group : List (Str × Json)} :
    (name, group) ∈ rawGroupsOf rest ↔ (name, .obj group) ∈ rest ∧ groupProblem name = none := by
  rw [rawGroupsOf, List.mem_filterMap]
  constructor
  · rintro ⟨⟨n, v⟩, hmem, h⟩
    dsimp only at h
    split at h
    · rename_i g
      split at h
      · rename_i hname
        cases h
        exact ⟨hmem, hname⟩
      · cases h
    · cases h
  · rintro ⟨hmem, hname⟩
    exact ⟨_, hmem, if_pos hname⟩

theorem reserved_problem {name : Str} (h : name ∈ InventoryRender.reservedGroups) :
    groupProblem name ≠ none := by
  unfold groupProblem
  split
  · simp
  · simp

theorem readSection_ok {start : Reading} {front : List (Str × Json)} {s s' : Sections}
    {entry : Str × Json} (hs : SectionsRead env start front s) (hnew : entry.1 ∉ front.map Prod.fst)
    (h : readSection env s entry = .ok s') : SectionsRead env start (front ++ [entry]) s' := by
  obtain ⟨name, value⟩ := entry
  unfold readSection at h
  split at h
  swap
  · cases h
  rename_i group hvalue
  dsimp only at hvalue h hnew
  subst hvalue
  have hnone (hname : groupProblem name ≠ none) : rawGroupsOf [(name, .obj group)] = [] := by
    simp [rawGroupsOf, hname]
  -- another section than `all` leaves its variables alone
  have hother (hname : name ≠ str "all") {s' : Sections} (hvars : s'.allVars = s.allVars)
      (hkept : s'.reading.Kept env) (hgrew : start.Grew s'.reading)
      (hraw : s'.rawGroups.entries = rawGroupsOf (front ++ [(name, .obj group)])) :
      SectionsRead env start (front ++ [(name, .obj group)]) s' := by
    refine ⟨hkept, hgrew, hraw, ?_, fun g hg => ?_⟩
    · rw [hvars]
      obtain hnone | ⟨g, hg, hparsed⟩ := hs.sound
      · exact .inl hnone
      · exact .inr ⟨g, List.mem_append_left _ hg, hparsed⟩
    · rw [hvars]
      obtain hg | hg := List.mem_append.1 hg
      · exact hs.complete g hg
      · cases List.mem_singleton.1 hg
        exact absurd rfl hname
  split at h
  · rename_i hall
    subst hall
    obtain ⟨⟨vars, warnings⟩, hparse, h⟩ := Lib.Except.bind_eq_ok.1 h
    cases h
    have hparsed : Parsed (orEmpty (get group "vars")) vars := ⟨_, _, _, hparse⟩
    refine ⟨hs.kept.warned _, hs.grew.warned _, ?_, .inr ⟨group, by simp, hparsed⟩, fun g hg => ?_⟩
    · rw [rawGroupsOf_append, hnone (reserved_problem (by decide)), List.append_nil]
      exact hs.raw
    · obtain hg | hg := List.mem_append.1 hg
      · exact absurd (List.mem_map_of_mem (f := Prod.fst) hg) hnew
      · cases List.mem_singleton.1 hg
        exact hparsed
  rename_i hall
  split at h
  · rename_i hungrouped
    subst hungrouped
    obtain ⟨hosts, -, h⟩ := Lib.Except.bind_eq_ok.1 h
    obtain ⟨⟨members, reading⟩, hadd, h⟩ := Lib.Except.bind_eq_ok.1 h
    cases h
    have hadded := addHosts_ok hs.kept hadd
    refine hother hall rfl hadded.kept (hs.grew.trans hadded.grew) ?_
    rw [rawGroupsOf_append, hnone (reserved_problem (by decide)), List.append_nil]
    exact hs.raw
  split at h
  · rename_i problem hproblem
    cases h
    refine hother hall rfl (hs.kept.warned _) (hs.grew.warned _) ?_
    rw [rawGroupsOf_append, hnone (by simp [hproblem]), List.append_nil]
    exact hs.raw
  · rename_i hproblem
    cases h
    refine hother hall rfl hs.kept hs.grew ?_
    have hfresh : name ∉ s.rawGroups.keys := by
      intro hmem
      rw [Dict.keys, hs.raw] at hmem
      obtain ⟨e, he, heq⟩ := List.mem_map.1 hmem
      exact hnew (heq ▸ List.mem_map_of_mem (mem_rawGroupsOf.1 he).1)
    rw [Dict.entries_set_of_not_mem hfresh, rawGroupsOf_append, hs.raw]
    simp [rawGroupsOf, hproblem]

/-! ## The groups -/

/-- The texts of a list of names. -/
def texts (value : Option Json) : List Str := ((names value).toOption).getD []

/-- What the second pass makes of a group. -/
structure IsGroup (env : Env) (rawGroups : Dict Str (List (Str × Json))) (reading : Reading)
    (raw : List (Str × Json)) (group : SourceGroup) : Prop where
  hosts : group.hosts = fromKeys
    ((texts (get raw "hosts")).filter fun h => hostnameProblem env.ansible h = none) []
  children : group.children =
    fromKeys ((texts (get raw "children")).filter fun c => rawGroups.contains c) []
  added : ∀ h ∈ texts (get raw "hosts"), hostnameProblem env.ansible h = none →
    h ∈ reading.hosts.keys
  vars : Parsed (orEmpty (get raw "vars")) group.vars

theorem IsGroup.mono {rawGroups : Dict Str (List (Str × Json))} {reading reading' : Reading}
    {raw : List (Str × Json)} {group : SourceGroup} (h : IsGroup env rawGroups reading raw group)
    (hgrew : reading.Grew reading') : IsGroup env rawGroups reading' raw group :=
  ⟨h.hosts, h.children, fun n hn hname => hgrew.keys (h.added n hn hname), h.vars⟩

/-- How many members and children of a group are read. -/
def edgesOf (isHost isGroup : Str → Bool) (raw : List (Str × Json)) : Nat :=
  ((texts (get raw "hosts")).filter isHost).length +
    ((texts (get raw "children")).filter isGroup).length

/-- After part of the groups. -/
structure GroupsRead (env : Env) (rawGroups : Dict Str (List (Str × Json))) (start : Reading)
    (front : List (Str × List (Str × Json))) (g : Groups) : Prop where
  kept : g.reading.Kept env
  grew : start.Grew g.reading
  edges : g.edges = (front.map fun e => edgesOf (fun h => hostnameProblem env.ansible h = none)
    rawGroups.contains e.2).sum
  limit : g.edges ≤ maxEdges
  groups : List.Forall₂ (fun raw group => group.1 = raw.1 ∧
    IsGroup env rawGroups g.reading raw.2 group.2) front g.groups.entries

theorem forall₂_keys {R : (Str × List (Str × Json)) → (Str × SourceGroup) → Prop}
    {front : List (Str × List (Str × Json))} {groups : List (Str × SourceGroup)}
    (h : List.Forall₂ (fun raw group => group.1 = raw.1 ∧ R raw group) front groups) :
    groups.map Prod.fst = front.map Prod.fst := by
  induction h with
  | nil => rfl
  | cons hone _ ih => rw [List.map_cons, List.map_cons, hone.1, ih]

theorem readGroup_ok {rawGroups : Dict Str (List (Str × Json))} {start : Reading}
    {front : List (Str × List (Str × Json))} {g g' : Groups} {entry : Str × List (Str × Json)}
    (hg : GroupsRead env rawGroups start front g) (hnew : entry.1 ∉ front.map Prod.fst)
    (h : readGroup env rawGroups g entry = .ok g') :
    GroupsRead env rawGroups start (front ++ [entry]) g' := by
  obtain ⟨hosts, hhosts, h⟩ := Lib.Except.bind_eq_ok.1 h
  obtain ⟨⟨members, reading⟩, hadd, h⟩ := Lib.Except.bind_eq_ok.1 h
  obtain ⟨children, hchildren, h⟩ := Lib.Except.bind_eq_ok.1 h
  dsimp only at h
  split at h
  · cases h
  rename_i hlimit
  obtain ⟨⟨vars, warnings⟩, hparse, h⟩ := Lib.Except.bind_eq_ok.1 h
  cases h
  have hadded := addHosts_ok hg.kept hadd
  have htexts {v : Option Json} {l : List Str} (hv : names v = .ok l) : texts v = l := by
    rw [texts, hv]
    rfl
  have hfresh : entry.1 ∉ g.groups.keys := by
    rw [Dict.keys, forall₂_keys hg.groups]
    exact hnew
  refine ⟨hadded.kept.warned _, (hg.grew.trans hadded.grew).warned _, ?_,
    Nat.le_of_not_lt hlimit, ?_⟩
  · show g.edges + members.length + (children.filter fun c => rawGroups.contains c).length = _
    rw [hg.edges, List.map_append, List.sum_append, List.map_singleton, List.sum_singleton, edgesOf,
      htexts hhosts, htexts hchildren, hadded.eq, Nat.add_assoc]
  · rw [Dict.entries_set_of_not_mem hfresh]
    refine List.rel_append
      (hg.groups.imp fun _ _ hone => ⟨hone.1, hone.2.mono (hadded.grew.warned _)⟩)
      (.cons ⟨rfl, ?_⟩ .nil)
    refine ⟨?_, ?_, fun n hn hname => hadded.mem n ?_, _, _, _, hparse⟩
    · rw [htexts hhosts, hadded.eq]
    · rw [htexts hchildren]
    · rw [htexts hhosts] at hn
      rw [hadded.eq]
      exact List.mem_filter.2 ⟨hn, by simpa using hname⟩

/-! ## The graph -/

/-- What the passes over a document leave, one after another. -/
theorem readOutput_ok {data : Json} {graph : SourceGraph} {warnings : List Str}
    (hkeyed : Lib.JsonText.Keyed data) (h : readOutput env data = .ok (graph, warnings)) :
    ∃ found rest hostvars reading s g,
      sections data = some (found, rest) ∧ orEmpty (get found "hostvars") = .obj hostvars ∧
      HostsRead env hostvars reading ∧ SectionsRead env reading rest s ∧
      GroupsRead env s.rawGroups s.reading s.rawGroups.entries g ∧
      s.rawGroups.size ≤ env.maxGroups ∧ refuseCycles env g.groups = .ok () ∧
      graph = ⟨s.allVars, g.reading.hosts, g.groups⟩ := by
  unfold readOutput at h
  split at h
  · cases h
  rename_i found rest hsections
  split at h
  · cases h
  split at h
  swap
  · cases h
  rename_i hostvars hhostvars
  obtain ⟨reading, hreading, h⟩ := Lib.Except.bind_eq_ok.1 h
  obtain ⟨s, hs, h⟩ := Lib.Except.bind_eq_ok.1 h
  split at h
  · cases h
  rename_i hsize
  obtain ⟨g, hg, h⟩ := Lib.Except.bind_eq_ok.1 h
  obtain ⟨⟨⟩, hcycles, h⟩ := Lib.Except.bind_eq_ok.1 h
  cases h
  obtain ⟨hfound, hrest⟩ := keyed_sections hkeyed hsections
  have hkeyedHosts : Lib.JsonText.Keyed (.obj hostvars) :=
    hhostvars ▸ keyed_orEmpty fun v hv => keyed_member hfound (mem_of_get hv)
  have hhosts : HostsRead env hostvars reading := by
    refine Lib.Except.foldlM_rule (HostsRead env) ?_ ?_ hreading
    · exact ⟨⟨by simp [Dict.keys], by simp, Nat.zero_le _⟩, by simp [Dict.get?], by simp⟩
    · intro front c back r r' hl hr hstep
      exact readHost_ok hr (Dict.fresh_key hl (hkeyedHosts 0 _ .here)) hstep
  have hsecs : SectionsRead env reading rest s := by
    refine Lib.Except.foldlM_rule (SectionsRead env reading) ?_ ?_ hs
    · exact ⟨hhosts.kept, .refl _, rfl, .inl rfl, by simp⟩
    · intro front c back r r' hl hr hstep
      exact readSection_ok hr (Dict.fresh_key hl (hrest 0 _ .here)) hstep
  have hgroups : GroupsRead env s.rawGroups s.reading s.rawGroups.entries g := by
    refine Lib.Except.foldlM_rule (GroupsRead env s.rawGroups s.reading) ?_ ?_ hg
    · exact ⟨hsecs.kept, .refl _, rfl, Nat.zero_le _, .nil⟩
    · intro front c back r r' hl hr hstep
      exact readGroup_ok hr (Dict.fresh_key hl s.rawGroups.nodup) hstep
  exact ⟨found, rest, hostvars, reading, s, g, hsections, hhostvars, hhosts, hsecs, hgroups,
    Nat.le_of_not_lt hsize, hcycles, rfl⟩

theorem keys_rawGroups {rawGroups : Dict Str (List (Str × Json))} {start : Reading} {g : Groups}
    (h : GroupsRead env rawGroups start rawGroups.entries g) : g.groups.keys = rawGroups.keys :=
  forall₂_keys h.groups

theorem contains_groups {rawGroups : Dict Str (List (Str × Json))} {start : Reading} {g : Groups}
    (h : GroupsRead env rawGroups start rawGroups.entries g) (name : Str) :
    g.groups.contains name = rawGroups.contains name := by
  rw [Bool.eq_iff_iff, Dict.contains_iff_mem, Dict.contains_iff_mem, keys_rawGroups h]

theorem fromKeys_nodup (names more : List Str) : (fromKeys names more).Nodup := Dict.keys_nodup _

theorem forall₂_left {α β : Type} {R : α → β → Prop} {l : List α} {l' : List β}
    (h : List.Forall₂ R l l') {b : β} (hb : b ∈ l') : ∃ a ∈ l, R a b := by
  induction h with
  | nil => cases hb
  | cons hone _ ih =>
    obtain rfl | hb := List.mem_cons.1 hb
    · exact ⟨_, List.mem_cons_self, hone⟩
    · obtain ⟨a, ha, hR⟩ := ih hb
      exact ⟨a, List.mem_cons_of_mem _ ha, hR⟩

theorem mem_varsRead {data : Json} {found rest hostvars : List (Str × Json)}
    (hsections : sections data = some (found, rest))
    (hhostvars : orEmpty (get found "hostvars") = .obj hostvars) {value : Json} :
    value ∈ varsRead env data ↔
      (∃ name, (name, value) ∈ hostvars ∧ hostnameProblem env.ansible name = none) ∨
      ∃ name raw, (name, .obj raw) ∈ rest ∧ (name = str "all" ∨ groupProblem name = none) ∧
        orEmpty (get raw "vars") = value := by
  rw [varsRead, hsections]
  dsimp only
  rw [hhostvars, List.mem_append]
  refine or_congr ⟨fun h => ?_, fun h => ?_⟩ ⟨fun h => ?_, fun h => ?_⟩
  · obtain ⟨⟨name, _⟩, he, rfl⟩ := List.mem_map.1 h
    obtain ⟨he, hname⟩ := List.mem_filter.1 he
    exact ⟨name, he, of_decide_eq_true hname⟩
  · obtain ⟨name, he, hname⟩ := h
    exact List.mem_map.2 ⟨_, List.mem_filter.2 ⟨he, decide_eq_true hname⟩, rfl⟩
  · obtain ⟨⟨name, v⟩, he, hsome⟩ := List.mem_filterMap.1 h
    dsimp only at hsome
    split at hsome
    swap
    · cases hsome
    rename_i raw
    split at hsome
    swap
    · cases hsome
    rename_i hname
    exact ⟨name, raw, he, hname, Option.some.inj hsome⟩
  · obtain ⟨name, raw, he, hname, rfl⟩ := h
    exact List.mem_filterMap.2 ⟨_, he, if_pos hname⟩

/-- The variables of the graph are those that are read, and nothing. -/
theorem allVars_iff {data : Json} {graph : SourceGraph} {warnings : List Str}
    (hkeyed : Lib.JsonText.Keyed data) (h : readOutput env data = .ok (graph, warnings)) :
    (∀ vars ∈ allVars graph, vars = ∅ ∨ ∃ value ∈ varsRead env data, Parsed value vars) ∧
      ∀ value ∈ varsRead env data, ∃ vars ∈ allVars graph, Parsed value vars := by
  obtain ⟨found, rest, hostvars, reading, s, g, hsections, hhostvars, hhosts, hsecs, hgroups, -, -,
    rfl⟩ := readOutput_ok hkeyed h
  have hgrew := hsecs.grew.trans hgroups.grew
  refine ⟨fun vars hvars => ?_, fun value hvalue => ?_⟩
  · obtain rfl | hvars := List.mem_cons.1 hvars
    · obtain hnone | ⟨group, hgroup, hparsed⟩ := hsecs.sound
      · exact .inl hnone
      · exact .inr ⟨_, (mem_varsRead hsections hhostvars).2 (.inr ⟨_, _, hgroup, .inl rfl, rfl⟩),
          hparsed⟩
    obtain hvars | hvars := List.mem_append.1 hvars
    · obtain ⟨⟨name, _⟩, he, rfl⟩ := List.mem_map.1 hvars
      have hname : name ∈ g.reading.hosts.keys := List.mem_map_of_mem he
      obtain hget | hnone := hgrew.new (Dict.get?_eq_some.2 he)
      · obtain ⟨value, hvalue, hparsed⟩ := hhosts.sound _ _ hget
        have hread : value ∈ varsRead env data :=
          (mem_varsRead hsections hhostvars).2 (.inl ⟨name, hvalue, hgroups.kept.named _ hname⟩)
        exact .inr ⟨value, hread, hparsed⟩
      · exact .inl hnone
    · obtain ⟨⟨name, group⟩, he, rfl⟩ := List.mem_map.1 hvars
      obtain ⟨⟨_, raw⟩, hraw, rfl, hgroup⟩ := forall₂_left hgroups.groups he
      rw [hsecs.raw, mem_rawGroupsOf] at hraw
      have hread : orEmpty (get raw "vars") ∈ varsRead env data :=
        (mem_varsRead hsections hhostvars).2 (.inr ⟨_, _, hraw.1, .inr hraw.2, rfl⟩)
      exact .inr ⟨_, hread, hgroup.vars⟩
  · obtain ⟨name, he, hname⟩ | ⟨name, raw, he, hname, rfl⟩ :=
      (mem_varsRead hsections hhostvars).1 hvalue
    · obtain ⟨vars, hvars, hparsed⟩ := hhosts.complete _ _ he hname
      refine ⟨vars, List.mem_cons_of_mem _ (List.mem_append_left _ ?_), hparsed⟩
      exact List.mem_map.2 ⟨(name, vars), Dict.get?_eq_some.1 (hgrew.kept hvars), rfl⟩
    · obtain rfl | hname := hname
      · exact ⟨_, List.mem_cons_self, hsecs.complete raw he⟩
      · have hraw : (name, raw) ∈ s.rawGroups.entries := by
          rw [hsecs.raw]
          exact mem_rawGroupsOf.2 ⟨he, hname⟩
        obtain ⟨⟨_, group⟩, hmem, -, hgroup⟩ := forall₂_left hgroups.groups.flip hraw
        exact ⟨group.vars, List.mem_cons_of_mem _ (List.mem_append_right _
          (List.mem_map.2 ⟨_, hmem, rfl⟩)), hgroup.vars⟩

theorem isRead_iff {data : Json} {graph : SourceGraph} {warnings : List Str}
    (hkeyed : Lib.JsonText.Keyed data) (h : readOutput env data = .ok (graph, warnings)) {key : Str}
    {value : Json} :
    (∃ vars ∈ allVars graph, (key, value) ∈ vars.entries) ↔ IsRead env data key value := by
  obtain ⟨hsound, hcomplete⟩ := allVars_iff hkeyed h
  constructor
  · rintro ⟨vars, hvars, hmem⟩
    obtain rfl | ⟨v, hv, hparsed⟩ := hsound vars hvars
    · cases hmem
    obtain ⟨entries, rfl, hentries, -⟩ := parsed_entries hparsed
    obtain ⟨w, hw, hunwrap⟩ := hentries _ hmem
    exact ⟨entries, w, hv, hw, hunwrap⟩
  · rintro ⟨entries, v, hentries, hv, hunwrap⟩
    obtain ⟨vars, hvars, hparsed⟩ := hcomplete _ hentries
    obtain ⟨entries', heq, -, hall⟩ := parsed_entries hparsed
    cases heq
    exact ⟨vars, hvars, hall (keyed_varsRead hkeyed hentries 0 _ .here) _ _ _ hv hunwrap⟩

/-! ## Well-formed graphs -/

/-- How many members and children the groups of a document name, each time they name one. -/
def edgesRead (data : Json) (graph : SourceGraph) : Nat :=
  match sections data with
  | none => 0
  | some (_, rest) =>
    ((rawGroupsOf rest).map fun e => edgesOf graph.hosts.contains graph.groups.contains e.2).sum

/-- What the code that uses a source's graph relies on. -/
structure WellFormed (env : Env) (data : Json) (graph : SourceGraph) : Prop where
  hostNames : ∀ name ∈ graph.hosts.keys, hostnameProblem env.ansible name = none
  groupNames : ∀ name ∈ graph.groups.keys, groupProblem name = none
  members : ∀ e ∈ graph.groups.entries, e.2.hosts.Nodup ∧ ∀ h ∈ e.2.hosts, h ∈ graph.hosts.keys
  children : ∀ e ∈ graph.groups.entries,
    e.2.children.Nodup ∧ ∀ c ∈ e.2.children, c ∈ graph.groups.keys
  acyclic : ∀ name, ¬ Relation.TransGen
    (Lib.CycleSearch.Contains (childrenOf graph.groups)) name name
  hosts : graph.hosts.size ≤ env.maxHosts
  groups : graph.groups.size ≤ env.maxGroups
  edges : edgesRead data graph ≤ maxEdges
  vars : ∀ vars ∈ allVars graph, ∀ e ∈ vars.entries, e.2.depth ≤ maxVarsDepth ∧ Clean e.2

theorem wellFormed_of_readOutput {data : Json} {graph : SourceGraph} {warnings : List Str}
    (hkeyed : Lib.JsonText.Keyed data) (h : readOutput env data = .ok (graph, warnings)) :
    WellFormed env data graph := by
  have hvars (key : Str) (value : Json) : _ ↔ IsRead env data key value := isRead_iff hkeyed h
  obtain ⟨found, rest, hostvars, reading, s, g, hsections, hhostvars, hhosts, hsecs, hgroups, hsize,
    hcycles, rfl⟩ := readOutput_ok hkeyed h
  have hchildren : ∀ e ∈ g.groups.entries, ∀ c ∈ e.2.children, c ∈ g.groups.keys := by
    intro e he c hc
    obtain ⟨raw, -, -, hgroup⟩ := forall₂_left hgroups.groups he
    rw [hgroup.children, mem_fromKeys, List.mem_filter] at hc
    obtain ⟨-, hc⟩ | hc := hc
    · rw [← Dict.contains_iff_mem, contains_groups hgroups]
      exact hc
    · cases hc
  refine ⟨hgroups.kept.named, fun name hname => ?_, fun e he => ?_,
    fun e he => ⟨?_, hchildren e he⟩, ?_, hgroups.kept.size, ?_, ?_, fun vars hmem e he => ?_⟩
  · rw [keys_rawGroups hgroups, Dict.keys, hsecs.raw] at hname
    obtain ⟨e, he, rfl⟩ := List.mem_map.1 hname
    exact (mem_rawGroupsOf.1 he).2
  · obtain ⟨raw, -, -, hgroup⟩ := forall₂_left hgroups.groups he
    rw [hgroup.hosts]
    refine ⟨fromKeys_nodup _ _, fun n hn => ?_⟩
    rw [mem_fromKeys, List.mem_filter, decide_eq_true_eq] at hn
    obtain ⟨hn, hname⟩ | hn := hn
    · exact hgroup.added n hn hname
    · cases hn
  · obtain ⟨raw, -, -, hgroup⟩ := forall₂_left hgroups.groups he
    rw [hgroup.children]
    exact fromKeys_nodup _ _
  · exact (refuseCycles_eq_ok_iff hchildren).1 hcycles
  · rw [← Dict.length_keys, keys_rawGroups hgroups, Dict.length_keys]
    exact hsize
  · rw [edgesRead, hsections]
    dsimp only
    rw [← hsecs.raw]
    refine le_trans (le_of_eq ?_) hgroups.limit
    rw [hgroups.edges]
    refine congrArg List.sum (List.map_congr_left fun e he => ?_)
    obtain ⟨group, -, -, hgroup⟩ := forall₂_left hgroups.groups.flip he
    rw [edgesOf, edgesOf]
    congr 2
    · refine List.filter_congr fun n hn => ?_
      rw [Bool.eq_iff_iff, Dict.contains_iff_mem, decide_eq_true_eq]
      exact ⟨hgroups.kept.named n, hgroup.added n hn⟩
    · exact List.filter_congr fun n _ => contains_groups hgroups n
  · obtain ⟨_, v, -, -, hunwrap⟩ := (hvars _ _).1 ⟨vars, hmem, he⟩
    have hone := unwrap_ok hunwrap
    exact ⟨Nat.le_of_succ_le_succ hone.deep, hone.clean⟩

/-! ## What is raised -/

theorem addHost_raises {r : Reading} {name : Str} {e : Raised} (h : addHost env r name = .error e) :
    e.IsSource := by
  unfold addHost at h
  split at h
  · cases h
  split at h
  · cases h
  split at h
  · cases h
  split at h
  · cases h
    exact ⟨_, rfl⟩
  · cases h

theorem addHosts_raises {r : Reading} {names : List Str} {e : Raised}
    (h : addHosts env r names = .error e) : e.IsSource := by
  induction names generalizing r with
  | nil => cases h
  | cons name names ih =>
    rw [addHosts] at h
    obtain h | ⟨⟨added, r'⟩, -, h⟩ := Lib.Except.bind_eq_error.1 h
    · exact addHost_raises h
    obtain h | ⟨⟨members, r''⟩, -, h⟩ := Lib.Except.bind_eq_error.1 h
    · exact ih h
    · cases h

theorem names_raises {value : Option Json} {e : Raised} (h : names value = .error e) :
    e.IsSource := by
  unfold names at h
  split at h
  · cases h
  · cases h
  · obtain ⟨item, -, h⟩ := Lib.Except.mapM_raises h
    split at h
    · cases h
    · cases h
      exact ⟨_, rfl⟩
  · cases h
    exact ⟨_, rfl⟩

theorem readHost_raises {r : Reading} {entry : Str × Json} {e : Raised}
    (h : readHost env r entry = .error e) : e.IsSource := by
  obtain h | ⟨⟨added, r'⟩, -, h⟩ := Lib.Except.bind_eq_error.1 h
  · exact addHost_raises h
  dsimp only at h
  split at h
  · obtain h | ⟨⟨vars, warnings⟩, -, h⟩ := Lib.Except.bind_eq_error.1 h
    · exact parseVars_raises h
    · cases h
  · cases h

theorem readSection_raises {s : Sections} {entry : Str × Json} {e : Raised}
    (h : readSection env s entry = .error e) : e.IsSource := by
  unfold readSection at h
  split at h
  · split at h
    · obtain h | ⟨⟨vars, warnings⟩, -, h⟩ := Lib.Except.bind_eq_error.1 h
      · exact parseVars_raises h
      · cases h
    split at h
    · obtain h | ⟨hosts, -, h⟩ := Lib.Except.bind_eq_error.1 h
      · exact names_raises h
      obtain h | ⟨⟨members, reading⟩, -, h⟩ := Lib.Except.bind_eq_error.1 h
      · exact addHosts_raises h
      · cases h
    split at h
    · cases h
    · cases h
  · cases h
    exact ⟨_, rfl⟩

theorem readGroup_raises {rawGroups : Dict Str (List (Str × Json))} {g : Groups}
    {entry : Str × List (Str × Json)} {e : Raised}
    (h : readGroup env rawGroups g entry = .error e) :
    e.IsSource := by
  obtain h | ⟨hosts, -, h⟩ := Lib.Except.bind_eq_error.1 h
  · exact names_raises h
  obtain h | ⟨⟨members, reading⟩, -, h⟩ := Lib.Except.bind_eq_error.1 h
  · exact addHosts_raises h
  obtain h | ⟨children, -, h⟩ := Lib.Except.bind_eq_error.1 h
  · exact names_raises h
  dsimp only at h
  split at h
  · cases h
    exact ⟨_, rfl⟩
  obtain h | ⟨⟨vars, warnings⟩, -, h⟩ := Lib.Except.bind_eq_error.1 h
  · exact parseVars_raises h
  · cases h

theorem readOutput_raises {data : Json} {e : Raised} (h : readOutput env data = .error e) :
    e.IsSource := by
  unfold readOutput at h
  split at h
  · cases h
    exact ⟨_, rfl⟩
  split at h
  · cases h
    exact ⟨_, rfl⟩
  split at h
  swap
  · cases h
    exact ⟨_, rfl⟩
  obtain h | ⟨reading, -, h⟩ := Lib.Except.bind_eq_error.1 h
  · obtain ⟨entry, -, r, h⟩ := Lib.Except.foldlM_raises h
    exact readHost_raises h
  obtain h | ⟨s, -, h⟩ := Lib.Except.bind_eq_error.1 h
  · obtain ⟨entry, -, s, h⟩ := Lib.Except.foldlM_raises h
    exact readSection_raises h
  split at h
  · cases h
    exact ⟨_, rfl⟩
  obtain h | ⟨g, -, h⟩ := Lib.Except.bind_eq_error.1 h
  · obtain ⟨entry, -, g, h⟩ := Lib.Except.foldlM_raises h
    exact readGroup_raises h
  obtain h | ⟨⟨⟩, -, h⟩ := Lib.Except.bind_eq_error.1 h
  · unfold refuseCycles at h
    split at h
    · cases h
    · cases h
      exact ⟨_, rfl⟩
  · cases h

theorem loadOutput_raises {raw : Bytes} {e : Raised} (h : loadOutput env raw = .error e) :
    e.IsSource := by
  unfold loadOutput at h
  split at h
  · cases h
    exact ⟨_, rfl⟩
  split at h
  · cases h
    exact ⟨_, rfl⟩
  · cases h
    exact ⟨_, rfl⟩
  · cases h

theorem keyed_of_loadOutput {raw : Bytes} {data : Json} (h : loadOutput env raw = .ok data) :
    Lib.JsonText.Keyed data := by
  unfold loadOutput at h
  split at h
  · cases h
  split at h
  · cases h
  · cases h
  · rename_i hloads
    cases h
    obtain ⟨bytes, -, hloads⟩ := Lib.Except.bind_eq_ok.1 hloads
    rw [JsonLimits.loads] at hloads
    split at hloads
    · cases hloads
    · rename_i hbytes
      cases hloads
      obtain ⟨document, -, hdocument⟩ := Option.bind_eq_some_iff.1 hbytes
      exact Lib.JsonText.keyed_of_loads hdocument

/-- `parse_output` accepts the output, which is this JSON. -/
def Accepts (env : Env) (raw : Bytes) (data : Json) : Prop :=
  loadOutput env raw = .ok data ∧ ∃ result, readOutput env data = .ok result

/-- Of any bytes at all, `parse_output` makes a well-formed graph of the JSON they are, or raises
`SourceError`. -/
theorem parseOutput_wellFormed (env : Env) (raw : Bytes) :
    (∃ message, parseOutput env raw = .error (.sourceError message)) ∨
      ∃ data graph warnings, loadOutput env raw = .ok data ∧
        parseOutput env raw = .ok (graph, warnings) ∧ WellFormed env data graph := by
  cases hparse : parseOutput env raw with
  | error e =>
    left
    obtain h | ⟨data, -, h⟩ := Lib.Except.bind_eq_error.1 hparse
    · obtain ⟨message, rfl⟩ := loadOutput_raises h
      exact ⟨message, rfl⟩
    · obtain ⟨message, rfl⟩ := readOutput_raises h
      exact ⟨message, rfl⟩
  | ok result =>
    right
    obtain ⟨data, hload, h⟩ := Lib.Except.bind_eq_ok.1 hparse
    exact ⟨data, result.1, result.2, hload, rfl,
      wellFormed_of_readOutput (keyed_of_loadOutput hload) h⟩

end Parse

end InventorySources

end AnsiDeck
