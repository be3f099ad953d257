import AnsiDeck.InventoryRender
import AnsiDeck.Lib.Except

/-!
# The variables of an inventory's hosts

`host_keys.merged_host_vars`: a merged inventory is put into ansible's `InventoryData` piece by
piece, and each host's variables are read from it, its groups' among them. Ansible is a parameter. A
piece it doesn't take raises, and then there are no variables at all: a host with the name of its
own group is added to the group as a group, which is an exception that isn't an `AnsibleError`.
-/

namespace AnsiDeck

namespace HostKeys

open InventoryRender (Graph Group MergedVars Value)
open Lib (Dict Str str)

/-- What a call of ansible's raises. -/
inductive Raised
  | ansibleError (message : Str)
  | exception (message : Str)
  deriving DecidableEq

/-- What `merged_host_vars` uses of ansible. -/
structure Ansible where
  /-- `InventoryData`. -/
  Data : Type
  new : Data
  addGroup : Data → Str → Except Raised Data
  addHost : Data → Str → Except Raised Data
  setVariable : Data → Str → Str → Value → Except Raised Data
  addChild : Data → Str → Str → Except Raised Data
  reconcileInventory : Data → Except Raised Data
  isGroup : Data → Str → Bool
  /-- Its hosts, each with its groups' variables under its own. -/
  hosts : Data → Dict Str Vars
  combineVars : Vars → Vars → Vars
  hosts_new : ∀ name, (hosts new).contains name = false
  hosts_addGroup : ∀ {data data' group}, addGroup data group = .ok data' →
    ∀ name, (hosts data').contains name = (hosts data).contains name
  /-- Hosts are added by `add_host`, and by nothing else. -/
  hosts_addHost : ∀ {data data' host}, addHost data host = .ok data' →
    ∀ name, (hosts data').contains name = (decide (name = host) || (hosts data).contains name)
  hosts_setVariable : ∀ {data data' entity name value},
    setVariable data entity name value = .ok data' →
    ∀ host, (hosts data').contains host = (hosts data).contains host
  hosts_addChild : ∀ {data data' group child}, addChild data group child = .ok data' →
    ∀ name, (hosts data').contains name = (hosts data).contains name
  hosts_reconcileInventory : ∀ {data data'}, reconcileInventory data = .ok data' →
    ∀ name, (hosts data').contains name = (hosts data).contains name

variable (ansible : Ansible)

def setVariables (entity : Str) (vars : MergedVars) (data : ansible.Data) :
    Except Raised ansible.Data :=
  vars.entries.foldlM (fun data e => ansible.setVariable data entity e.1 e.2.value) data

/-- A child that makes a circle is left out: ansible refuses it too. -/
def addChildGroup (group : Str) (data : ansible.Data) (child : Str) : Except Raised ansible.Data :=
  if ansible.isGroup data child && child ≠ group then
    match ansible.addChild data group child with
    | .error (.ansibleError _) => .ok data
    | result => result
  else .ok data

def addMember (group : Str) (data : ansible.Data) (host : Str) : Except Raised ansible.Data :=
  if (ansible.hosts data).contains host then ansible.addChild data group host else .ok data

def fillGroup (data : ansible.Data) (e : Str × Group) : Except Raised ansible.Data := do
  let data ← setVariables ansible e.1 e.2.vars data
  let data ← e.2.children.foldlM (addChildGroup ansible e.1) data
  e.2.hosts.foldlM (addMember ansible e.1) data

def fillHost (data : ansible.Data) (e : Str × MergedVars) : Except Raised ansible.Data := do
  let data ← ansible.addHost data e.1
  setVariables ansible e.1 e.2 data

def mergedHostVars (graph : Graph) : Except Raised (Dict Str Vars) := do
  let data ← setVariables ansible (str "all") graph.vars ansible.new
  let groups := graph.groups.keys.filter fun name => name ≠ str "all" ∧ name ≠ str "ungrouped"
  let data ← groups.foldlM ansible.addGroup data
  let data ← graph.hosts.entries.foldlM (fillHost ansible) data
  let data ← graph.groups.entries.foldlM (fillGroup ansible) data
  let data ← ansible.reconcileInventory data
  pure (ansible.hosts data)

/-! ## Its hosts -/

variable {ansible} {data data' : ansible.Data} {graph : Graph}

/-- The data has the same hosts. -/
def SameHosts (data data' : ansible.Data) : Prop :=
  ∀ name, (ansible.hosts data').contains name = (ansible.hosts data).contains name

/-- A loop none of whose turns adds a host. -/
theorem sameHosts_foldlM {α : Type} {f : ansible.Data → α → Except Raised ansible.Data} {l : List α}
    (hf : ∀ {data data' a}, f data a = .ok data' → SameHosts data data')
    (h : l.foldlM f data = .ok data') : SameHosts data data' := by
  refine Lib.Except.foldlM_rule (fun _ d => SameHosts data d) (fun _ => rfl) ?_ h
  intro _ _ _ d d' _ hsame hstep name
  exact (hf hstep name).trans (hsame name)

theorem sameHosts_setVariables {entity : Str} {vars : MergedVars}
    (h : setVariables ansible entity vars data = .ok data') : SameHosts data data' :=
  sameHosts_foldlM ansible.hosts_setVariable h

theorem sameHosts_addChildGroup {group child : Str}
    (h : addChildGroup ansible group data child = .ok data') : SameHosts data data' := by
  unfold addChildGroup at h
  split at h
  · split at h
    · obtain rfl := Except.ok.inj h
      exact fun _ => rfl
    · exact ansible.hosts_addChild h
  · obtain rfl := Except.ok.inj h
    exact fun _ => rfl

theorem sameHosts_addMember {group host : Str}
    (h : addMember ansible group data host = .ok data') : SameHosts data data' := by
  unfold addMember at h
  split at h
  · exact ansible.hosts_addChild h
  · obtain rfl := Except.ok.inj h
    exact fun _ => rfl

theorem sameHosts_fillGroup {e : Str × Group} (h : fillGroup ansible data e = .ok data') :
    SameHosts data data' := by
  obtain ⟨_, hvars, h⟩ := Lib.Except.bind_eq_ok.1 h
  obtain ⟨_, hchildren, h⟩ := Lib.Except.bind_eq_ok.1 h
  intro name
  rw [sameHosts_foldlM sameHosts_addMember h, sameHosts_foldlM sameHosts_addChildGroup hchildren,
    sameHosts_setVariables hvars]

theorem contains_fillHost {e : Str × MergedVars} (h : fillHost ansible data e = .ok data')
    (name : Str) : (ansible.hosts data').contains name
      = (decide (name = e.1) || (ansible.hosts data).contains name) := by
  obtain ⟨_, hadded, h⟩ := Lib.Except.bind_eq_ok.1 h
  rw [sameHosts_setVariables h, ansible.hosts_addHost hadded]

theorem contains_fillHosts {hosts : List (Str × MergedVars)}
    (h : hosts.foldlM (fillHost ansible) data = .ok data') (name : Str) :
    (ansible.hosts data').contains name
      = (hosts.any (fun e => e.1 = name) || (ansible.hosts data).contains name) := by
  refine Lib.Except.foldlM_rule (fun done d => (ansible.hosts d).contains name
    = (done.any (fun e => e.1 = name) || (ansible.hosts data).contains name)) rfl ?_ h
  intro front e back d d' _ hdone hstep
  rw [contains_fillHost hstep, hdone, List.any_append, List.any_cons, List.any_nil, Bool.or_false,
    ← Bool.or_assoc, Bool.or_comm (decide (name = e.1))]
  simp only [eq_comm]

/-- The variables are of the inventory's hosts. -/
theorem contains_mergedHostVars {merged : Dict Str Vars}
    (h : mergedHostVars ansible graph = .ok merged) (name : Str) :
    merged.contains name = graph.hosts.contains name := by
  obtain ⟨_, hvars, h⟩ := Lib.Except.bind_eq_ok.1 h
  obtain ⟨_, hgroups, h⟩ := Lib.Except.bind_eq_ok.1 h
  obtain ⟨_, hhosts, h⟩ := Lib.Except.bind_eq_ok.1 h
  obtain ⟨_, hfilled, h⟩ := Lib.Except.bind_eq_ok.1 h
  obtain ⟨_, hreconciled, h⟩ := Lib.Except.bind_eq_ok.1 h
  obtain rfl := Lib.Except.pure_eq_ok.1 h
  rw [ansible.hosts_reconcileInventory hreconciled, sameHosts_foldlM sameHosts_fillGroup hfilled,
    contains_fillHosts hhosts, sameHosts_foldlM ansible.hosts_addGroup hgroups,
    sameHosts_setVariables hvars, ansible.hosts_new, Bool.or_false]
  rfl

end HostKeys

end AnsiDeck
