import AnsiDeck.InventoryRender.Merge
import AnsiDeck.Lib.Worklist

/-!
# The inventory of a target group

`target_hosts`, the hosts that `--limit` selects for a group, and `render`, the inventory a run is
given. Groups may contain each other in circles.

`yaml.dump` writes what `render` returns under `all`; a key that holds `none` is left out, except
that a group, and a host, with nothing in it stays, as `null`.
-/

namespace AnsiDeck

namespace InventoryRender

open Lib (Dict Str str)
open Lib.Worklist (Contains Kept kept_start)
open Relation

/-- `KeyError`: no such group. -/
structure KeyError where
  group : Str

/-- The loop of `target_hosts`. -/
structure Search extends Lib.Worklist.State Str where
  found : List Str

/-- A group's children, if it is a group. -/
def childrenOf (graph : Graph) (name : Str) : Option (List Str) :=
  (graph.groups.get? name).map Group.children

/-- One turn: the last name of `pending`. -/
def visit (graph : Graph) (s : Search) : Search :=
  match s.pending with
  | [] => s
  | name :: pending =>
    if name ∈ s.seen then { s with pending }
    else match graph.groups.get? name with
      | none => { s with pending }
      | some group =>
        { seen := name :: s.seen
          pending := group.children.reverse ++ pending
          found := s.found ++ group.hosts }

def search (graph : Graph) : Nat → Search → Search
  | 0, s => s
  | fuel + 1, s => if s.pending.isEmpty then s else search graph fuel (visit graph s)

/-- The fuel of a search. -/
def turns (graph : Graph) (group : Str) : Nat :=
  Lib.Worklist.left (childrenOf graph) graph.groups.keys (Lib.Worklist.start group)

/-- The set of hosts, as a list. -/
def targetHosts (graph : Graph) (group : Str) : Except KeyError (List Str) :=
  if graph.groups.contains group then
    .ok (search graph (turns graph group) ⟨Lib.Worklist.start group, []⟩).found
  else .error ⟨group⟩

/-- A group as it is rendered. -/
structure Entry where
  hosts : Option (List Str)
  children : Option (List Str)
  vars : Option MergedVars

/-- The whole of a rendered inventory. -/
structure Block where
  vars : Option MergedVars
  hosts : Option (Dict Str (Option MergedVars))
  children : Option (Dict Str (Option Entry))

/-- `value or None`, and a key that is set only for what is not empty. -/
def orNone {α : Type} (isEmpty : α → Bool) (x : α) : Option α := if isEmpty x then none else some x

def noVars (vars : MergedVars) : Bool := vars.entries.isEmpty

def entry (wanted : Str → Bool) (group : Group) : Option Entry :=
  orNone (fun e => e.hosts.isNone && e.children.isNone && e.vars.isNone) {
    hosts := orNone List.isEmpty (fromKeys (group.hosts.filter wanted) [])
    children := orNone List.isEmpty (fromKeys group.children [])
    vars := orNone noVars group.vars }

def block (wanted : Str → Bool) (graph : Graph) : Option Block :=
  orNone (fun b => b.vars.isNone && b.hosts.isNone && b.children.isNone) {
    vars := orNone noVars graph.vars
    hosts := orNone (fun d => d.entries.isEmpty)
      ((graph.hosts.filter fun h _ => wanted h).mapValues fun _ vars => orNone noVars vars)
    children := orNone (fun d => d.entries.isEmpty)
      (graph.groups.mapValues fun _ group => entry wanted group) }

def render (graph : Graph) (target : Option Str) : Except KeyError (Option Block) := do
  match target with
  | none => pure (block (fun _ => true) graph)
  | some group =>
    let keep ← targetHosts graph group
    pure (block (fun h => keep.contains h) graph)

/-! ## The hosts that are found -/

/-- A host is a member of a group that the target reaches through children. -/
def Targeted (graph : Graph) (target host : Str) : Prop :=
  ∃ g group, ReflTransGen (Contains (childrenOf graph)) target g ∧
    graph.groups.get? g = some group ∧ host ∈ group.hosts

/-- What is found are the members of the groups that were seen. -/
structure Finds (graph : Graph) (target : Str) (s : Search) : Prop where
  kept : Kept (childrenOf graph) target s.toState
  found : ∀ h, h ∈ s.found ↔ ∃ g ∈ s.seen, ∃ group,
    graph.groups.get? g = some group ∧ h ∈ group.hosts

theorem toState_visit (graph : Graph) (s : Search) :
    (visit graph s).toState = Lib.Worklist.step (childrenOf graph) s.toState := by
  obtain ⟨⟨seen, pending⟩, found⟩ := s
  cases pending with
  | nil => rfl
  | cons name pending =>
    simp only [visit, Lib.Worklist.step, childrenOf]
    by_cases hseen : name ∈ seen
    · rw [if_pos hseen, if_pos hseen]
    · rw [if_neg hseen, if_neg hseen]
      cases graph.groups.get? name with
      | none => rfl
      | some group => rfl

theorem Finds.visit {graph : Graph} {target : Str} {s : Search} (h : Finds graph target s) :
    Finds graph target (visit graph s) := by
  refine ⟨toState_visit graph s ▸ h.kept.step, ?_⟩
  obtain ⟨⟨seen, pending⟩, found⟩ := s
  have hfound := h.found
  cases pending with
  | nil => exact hfound
  | cons name pending =>
    simp only [InventoryRender.visit]
    split
    · exact hfound
    · split
      · exact hfound
      · next group hgroup =>
        intro host
        constructor
        · intro hhost
          rcases List.mem_append.1 hhost with hhost | hhost
          · obtain ⟨g, hg, hmem⟩ := (hfound host).1 hhost
            exact ⟨g, List.mem_cons_of_mem _ hg, hmem⟩
          · exact ⟨name, List.mem_cons_self .., group, hgroup, hhost⟩
        · rintro ⟨g, hg, group', hgroup', hmem⟩
          rcases List.mem_cons.1 hg with rfl | hg
          · cases hgroup.symm.trans hgroup'
            exact List.mem_append_right _ hmem
          · exact List.mem_append_left _ ((hfound host).2 ⟨g, hg, group', hgroup', hmem⟩)

theorem Finds.search {graph : Graph} {target : Str} {s : Search} (h : Finds graph target s)
    (fuel : Nat) : Finds graph target (search graph fuel s) := by
  induction fuel generalizing s with
  | zero => exact h
  | succ fuel ih =>
    rw [InventoryRender.search]
    split
    · exact h
    · exact ih h.visit

/-- The fuel lasts: nothing is left to look at. -/
theorem pending_search {graph : Graph} {fuel : Nat} {s : Search}
    (hfuel : Lib.Worklist.left (childrenOf graph) graph.groups.keys s.toState ≤ fuel) :
    (search graph fuel s).pending = [] := by
  have hall : ∀ v, (childrenOf graph v).isSome = true → v ∈ graph.groups.keys := by
    intro v hv
    rw [childrenOf, Option.isSome_map] at hv
    exact Dict.contains_iff_mem.1 (Dict.contains_iff_get?.2 (Option.isSome_iff_exists.1 hv))
  induction fuel generalizing s with
  | zero =>
    rw [search]
    refine List.eq_nil_of_length_eq_zero ?_
    rw [Lib.Worklist.left] at hfuel
    omega
  | succ fuel ih =>
    rw [search]
    split
    · next hempty => exact List.isEmpty_iff.1 hempty
    · next hne =>
      have hless := Lib.Worklist.left_step hall (s := s.toState) fun h => hne (by rw [h]; rfl)
      exact ih (by rw [toState_visit]; omega)

/-- A search ends, and has found just the hosts of its target. -/
theorem targetHosts_spec {graph : Graph} {target : Str}
    (htarget : graph.groups.contains target = true) :
    ∃ hosts, targetHosts graph target = .ok hosts ∧ ∀ h, h ∈ hosts ↔ Targeted graph target h := by
  have hstart : Finds graph target ⟨Lib.Worklist.start target, []⟩ :=
    ⟨kept_start target, fun h => by simp [Lib.Worklist.start]⟩
  have hfinds := hstart.search (turns graph target)
  have hend : (search graph (turns graph target) ⟨Lib.Worklist.start target, []⟩).pending = [] :=
    pending_search (Nat.le_refl _)
  refine ⟨_, if_pos htarget, fun h => ?_⟩
  generalize search graph (turns graph target) ⟨Lib.Worklist.start target, []⟩ = s at hfinds hend ⊢
  obtain ⟨⟨seen, pending⟩, found⟩ := s
  obtain rfl : pending = [] := hend
  rw [hfinds.found h]
  constructor
  · rintro ⟨g, hg, group, hgroup, hmem⟩
    exact ⟨g, group, (hfinds.kept.reached.1 hg).2, hgroup, hmem⟩
  · rintro ⟨g, group, hpath, hgroup, hmem⟩
    have hvertex : (childrenOf graph g).isSome = true := by
      rw [childrenOf, hgroup]
      rfl
    exact ⟨g, hfinds.kept.reached.2 ⟨hvertex, hpath⟩, group, hgroup, hmem⟩

/-! ## What is rendered -/

/-- The hosts a rendered inventory lists, with their variables; a key that is left out is an empty
one. -/
def hostsOf (b : Option Block) : Dict Str (Option MergedVars) := (b.bind Block.hosts).getD ∅

def groupsOf (b : Option Block) : Dict Str (Option Entry) := (b.bind Block.children).getD ∅

def varsOf (b : Option Block) : MergedVars := (b.bind Block.vars).getD ∅

def Entry.members (e : Option Entry) : List Str := (e.bind Entry.hosts).getD []

def Entry.childNames (e : Option Entry) : List Str := (e.bind Entry.children).getD []

def Entry.varsOf (e : Option Entry) : MergedVars := (e.bind Entry.vars).getD ∅

theorem eq_empty_of_isEmpty {κ ν : Type} {d : Dict κ ν} (h : d.entries.isEmpty = true) : d = ∅ := by
  obtain ⟨entries, hnodup⟩ := d
  obtain rfl : entries = [] := List.isEmpty_iff.1 h
  rfl

/-- What is left out reads as what it was. -/
theorem getD_orNone {α : Type} {isEmpty : α → Bool} {e : α} (h : ∀ x, isEmpty x = true → x = e)
    (x : α) : (orNone isEmpty x).getD e = x := by
  rw [orNone]
  split
  · next hx => exact (h x hx).symm
  · rfl

theorem getD_noVars (vars : MergedVars) : (orNone noVars vars).getD ∅ = vars :=
  getD_orNone (fun _ => eq_empty_of_isEmpty) vars

/-- A part of what may have been left out as a whole. -/
theorem bind_orNone {α β : Type} {isEmpty : α → Bool} (part : α → Option β)
    (h : ∀ x, isEmpty x = true → part x = none)
    (x : α) : (orNone isEmpty x).bind part = part x := by
  rw [orNone]
  split
  · next hx => exact (h x hx).symm
  · rfl

section

variable (wanted : Str → Bool) (graph : Graph) (group : Group)

theorem hostsOf_block : hostsOf (block wanted graph)
    = (graph.hosts.filter fun h _ => wanted h).mapValues fun _ vars => orNone noVars vars := by
  rw [hostsOf, block, bind_orNone, getD_orNone fun _ => eq_empty_of_isEmpty]
  simp only [Bool.and_eq_true, Option.isNone_iff_eq_none, and_imp]
  exact fun _ _ h _ => h

theorem groupsOf_block : groupsOf (block wanted graph)
    = graph.groups.mapValues fun _ group => entry wanted group := by
  rw [groupsOf, block, bind_orNone, getD_orNone fun _ => eq_empty_of_isEmpty]
  simp only [Bool.and_eq_true, Option.isNone_iff_eq_none, and_imp]
  exact fun _ _ _ h => h

theorem varsOf_block : varsOf (block wanted graph) = graph.vars := by
  rw [varsOf, block, bind_orNone]
  · exact getD_noVars graph.vars
  · simp only [Bool.and_eq_true, Option.isNone_iff_eq_none, and_imp]
    exact fun _ h _ _ => h

theorem members_entry :
    Entry.members (entry wanted group) = fromKeys (group.hosts.filter wanted) [] := by
  rw [Entry.members, entry, bind_orNone, getD_orNone fun _ => List.isEmpty_iff.1]
  simp only [Bool.and_eq_true, Option.isNone_iff_eq_none, and_imp]
  exact fun _ h _ _ => h

theorem childNames_entry : Entry.childNames (entry wanted group) = fromKeys group.children [] := by
  rw [Entry.childNames, entry, bind_orNone, getD_orNone fun _ => List.isEmpty_iff.1]
  simp only [Bool.and_eq_true, Option.isNone_iff_eq_none, and_imp]
  exact fun _ _ h _ => h

theorem varsOf_entry : Entry.varsOf (entry wanted group) = group.vars := by
  rw [Entry.varsOf, entry, bind_orNone]
  · exact getD_noVars group.vars
  · simp only [Bool.and_eq_true, Option.isNone_iff_eq_none, and_imp]
    exact fun _ _ _ h => h

end

theorem keys_foldl_set (names : List Str) (d : Dict Str Unit) :
    ∃ more, ((names.map fun n => (n, ())).foldl (fun d e => d.set e.1 e.2) d).keys =
      d.keys ++ more ∧
      more.Sublist names := by
  induction names generalizing d with
  | nil => exact ⟨[], by simp, List.Sublist.refl _⟩
  | cons n names ih =>
    obtain ⟨more, hkeys, hsub⟩ := ih (d.set n ())
    rw [List.map_cons, List.foldl_cons]
    by_cases hn : n ∈ d.keys
    · rw [Dict.keys_set_of_mem hn] at hkeys
      exact ⟨more, hkeys, hsub.cons n⟩
    · rw [Dict.keys_set_of_not_mem hn, List.append_assoc] at hkeys
      exact ⟨n :: more, hkeys, hsub.cons_cons n⟩

theorem fromKeys_sublist (names : List Str) : (fromKeys names []).Sublist names := by
  obtain ⟨more, hkeys, hsub⟩ := keys_foldl_set names ∅
  rw [fromKeys, List.append_nil, Dict.ofList, hkeys]
  exact hsub

/-- The names of `list` that are `kept`, each once, in their order. -/
structure InOrder (list : List Str) (kept : Str → Prop) (names : List Str) : Prop where
  nodup : names.Nodup
  sublist : names.Sublist list
  mem : ∀ n, n ∈ names ↔ n ∈ list ∧ kept n

theorem inOrder_fromKeys {kept : Str → Prop} {wanted : Str → Bool}
    (hwanted : ∀ n, wanted n = true ↔ kept n) (list : List Str) :
    InOrder list kept (fromKeys (list.filter wanted) []) where
  nodup := Dict.keys_nodup _
  sublist := (fromKeys_sublist _).trans List.filter_sublist
  mem := fun n => by
    rw [mem_fromKeys, List.mem_filter, hwanted]
    simp

/-- A group as it is rendered for a target: its variables and its children, and its members among
the target's hosts. -/
structure EntryFor (graph : Graph) (target : Str) (group : Group) (e : Option Entry) : Prop where
  vars : Entry.varsOf e = group.vars
  children : InOrder group.children (fun _ => True) (Entry.childNames e)
  members : InOrder group.hosts (Targeted graph target) (Entry.members e)

/-- An inventory as it is rendered for a target. -/
structure RenderedFor (graph : Graph) (target : Str) (b : Option Block) : Prop where
  vars : varsOf b = graph.vars
  hosts : ∀ h vars, (hostsOf b).get? h = some vars ↔
    Targeted graph target h ∧ ∃ own, graph.hosts.get? h = some own ∧ vars = orNone noVars own
  /-- No other host is named anywhere in it, and each of the target's is. -/
  named : ∀ h, ((hostsOf b).contains h = true ∨
    ∃ g e, (groupsOf b).get? g = some e ∧ h ∈ Entry.members e) ↔ Targeted graph target h
  groups : (groupsOf b).keys = graph.groups.keys
  entries : ∀ g group, graph.groups.get? g = some group →
    ∃ e, (groupsOf b).get? g = some e ∧ EntryFor graph target group e

theorem entryFor_entry {graph : Graph} {target : Str} {wanted : Str → Bool}
    (hwanted : ∀ h, wanted h = true ↔ Targeted graph target h) (group : Group) :
    EntryFor graph target group (entry wanted group) where
  vars := varsOf_entry wanted group
  children := by
    have h : InOrder group.children (fun _ => True)
        (fromKeys (group.children.filter fun _ => true) []) := inOrder_fromKeys (by simp) _
    rw [List.filter_true] at h
    rw [childNames_entry]
    exact h
  members := by
    rw [members_entry]
    exact inOrder_fromKeys hwanted group.hosts

theorem renderedFor_block {graph : Graph} {target : Str} {wanted : Str → Bool}
    (hwanted : ∀ h, wanted h = true ↔ Targeted graph target h) :
    RenderedFor graph target (block wanted graph) := by
  have hentries : ∀ g group, graph.groups.get? g = some group →
      (groupsOf (block wanted graph)).get? g = some (entry wanted group) := by
    intro g group hgroup
    rw [groupsOf_block, Dict.get?_mapValues, hgroup]
    rfl
  have hhosts : ∀ h vars, (hostsOf (block wanted graph)).get? h = some vars ↔
      Targeted graph target h ∧ ∃ own, graph.hosts.get? h = some own ∧
        vars = orNone noVars own := by
    intro h vars
    rw [hostsOf_block, Dict.get?_mapValues, Option.map_eq_some_iff]
    constructor
    · rintro ⟨own, hown, rfl⟩
      obtain ⟨hown, hw⟩ := Dict.get?_filter.1 hown
      exact ⟨(hwanted h).1 hw, own, hown, rfl⟩
    · rintro ⟨htargeted, own, hown, rfl⟩
      exact ⟨own, Dict.get?_filter.2 ⟨hown, (hwanted h).2 htargeted⟩, rfl⟩
  refine ⟨varsOf_block wanted graph, hhosts, fun h => ⟨?_, fun htargeted => ?_⟩, ?_,
    fun g group hgroup => ⟨_, hentries g group hgroup, entryFor_entry hwanted group⟩⟩
  · rintro (hlisted | ⟨g, e, he, hmem⟩)
    · obtain ⟨vars, hget⟩ := Dict.contains_iff_get?.1 hlisted
      exact ((hhosts h vars).1 hget).1
    · rw [groupsOf_block, Dict.get?_mapValues, Option.map_eq_some_iff] at he
      obtain ⟨group, -, rfl⟩ := he
      exact (((entryFor_entry hwanted group).members.mem h).1 hmem).2
  · have hlisted := htargeted
    obtain ⟨g, group, -, hgroup, hmem⟩ := htargeted
    exact .inr ⟨g, _, hentries g group hgroup,
      ((entryFor_entry hwanted group).members.mem h).2 ⟨hmem, hlisted⟩⟩
  · rw [groupsOf_block, Dict.keys_mapValues]

/-- The search for a target's hosts ends and finds just the members of the groups below it, and the
inventory that is rendered for it holds just those, with every group. -/
theorem render_target (graph : Graph) (target : Str)
    (htarget : graph.groups.contains target = true) :
    ∃ hosts b, targetHosts graph target = .ok hosts ∧
      (∀ h, h ∈ hosts ↔ Targeted graph target h) ∧
      render graph (some target) = .ok b ∧ RenderedFor graph target b := by
  obtain ⟨hosts, hfound, hmem⟩ := targetHosts_spec htarget
  have hwanted : ∀ h, hosts.contains h = true ↔ Targeted graph target h := fun h => by
    rw [List.contains_iff_mem, hmem]
  refine ⟨hosts, _, hfound, hmem, ?_, renderedFor_block hwanted⟩
  rw [render, hfound]
  rfl

/-- Two groups that contain each other, and a host outside both. -/
def circle : Graph where
  vars := ∅
  hosts := Dict.ofList [(str "web1", ∅), (str "db1", ∅), (str "other", ∅)]
  groups := Dict.ofList [(str "web", ⟨[str "web1"], [str "db"], ∅⟩),
    (str "db", ⟨[str "db1"], [str "web"], ∅⟩), (str "rest", ⟨[str "other", str "web1"], [], ∅⟩)]

theorem render_circle : circle.groups.contains (str "web") = true ∧
    ∃ hosts b, targetHosts circle (str "web") = .ok hosts ∧
      (∀ h, h ∈ hosts ↔ Targeted circle (str "web") h) ∧
      render circle (some (str "web")) = .ok b ∧ RenderedFor circle (str "web") b :=
  ⟨by decide, render_target circle (str "web") (by decide)⟩

end InventoryRender

end AnsiDeck
