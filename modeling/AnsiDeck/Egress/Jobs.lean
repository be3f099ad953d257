import AnsiDeck.Egress.JumpHosts
import AnsiDeck.Egress.Restricted
import AnsiDeck.HostKeys.MergedVars
import AnsiDeck.InventoryRender.Target
import Mathlib.Data.List.Lex

/-!
# From an inventory to the packets of its runs

`app.egress_allowlist.job_egress`: what the job of a restricted run says it may reach, by the
variables of the hosts that the run is for and the extra entries of the inventory. A host whose
address isn't known refuses the run, and so does an inventory that ansible doesn't take
(`jobEgress_spec`); of the others, what is said here is what a process of the run reaches on the
worker (`run_reaches`).
-/

namespace AnsiDeck

namespace Egress

open Lib (Dict Family Json Range Str Unicode decimal str)
open HostKeys (Ansible Raised mergedHostVars contains_mergedHostVars)
open InventoryRender (Graph Targeted Value targetHosts)

/-! ## The extra entries of an inventory -/

/-- `EgressExtra`, as it is typed. -/
structure ExtraIn where
  target : Str
  ports : Option Str := none
  note : Option Str := none

def maxExtras : Nat := 200

inductive ExtrasError
  | tooMany
  /-- The number of the entry, from one, and why it can't be one. -/
  | entry (number : Nat) (error : ExtraError)
  deriving DecidableEq

/-- The same target on the same ports. -/
def Extra.same (a b : Extra) : Bool := a.target = b.target && a.ports = b.ports

section Extras

variable (t : Unicode)

/-- The loop of `parse_extras`, after the entries `parsed`. -/
def readExtras (number : Nat) : List ExtraIn → List Extra → Except ExtrasError (List Extra)
  | [], parsed => .ok parsed
  | entry :: entries, parsed =>
    match parseExtra t entry.target entry.ports entry.note with
    | .error e => .error (.entry number e)
    | .ok item =>
      readExtras (number + 1) entries
        (if parsed.any item.same then parsed else parsed ++ [item])

def parseExtras (entries : List ExtraIn) : Except ExtrasError (List Extra) :=
  if maxExtras < entries.length then .error .tooMany else readExtras t 1 entries []

/-- `set_egress_extras`: what becomes of the column. -/
def setEgressExtras (entries : List ExtraIn) : Except ExtrasError (Option (List Extra)) :=
  (parseExtras t entries).map fun extras => if extras.isEmpty then none else some extras

end Extras

/-! ## The hosts of a run -/

def maxNamed : Nat := 5

def maxWarnings : Nat := 50

inductive JobError
  /-- `KeyError`: no such group. -/
  | noGroup (group : Str)
  /-- What `merged_host_vars` raises. -/
  | raised (error : Raised)
  /-- `ValueError`, with its message. -/
  | unknown (message : Str)
  deriving DecidableEq

section Job

variable (ansible : Ansible) (t : Unicode) (graph : Graph)

/-- The target of a host of the inventory; extra vars win over the inventory's. -/
def hostTarget (merged : Dict Str Vars) (extraVars : Option Vars) (host : Str) : EgressTarget :=
  egressTarget t host (ansible.combineVars ((merged.get? host).getD ∅) (extraVars.getD ∅))

/-- The targets of `egress_targets`, in the order of the hosts' names. -/
def egressTargets (hosts : Option (List Str)) (extraVars : Option Vars) :
    Except Raised (List EgressTarget) := do
  let merged ← mergedHostVars ansible graph
  let wanted := match hosts with
    | none => merged.keys
    | some hosts => merged.keys.filter hosts.contains
  pure ((wanted.insertionSort (· ≤ ·)).map (hostTarget ansible t merged extraVars))

def unknownMessage (unknown : List EgressTarget) : Str :=
  let named := (str ", ").intercalate ((unknown.take maxNamed).map fun target =>
    target.host ++ str " (" ++ target.reason.getD (str "None") ++ str ")")
  let named := if maxNamed < unknown.length then
      named ++ str ", and " ++ decimal (unknown.length - maxNamed) ++ str " more"
    else named
  let count := if unknown.length = 1 then str "1 host isn't"
    else decimal unknown.length ++ str " hosts isn't"
  str "its inventory restricts network egress, and the address of " ++ count ++ str " known: "
    ++ named

/-- `EgressTarget.required`. -/
def EgressTarget.required (target : EgressTarget) : Bool := target.status = .ok

def EgressTarget.entry? (target : EgressTarget) : Option HostEntry :=
  target.address.map fun address => ⟨target.host, address, target.required⟩

/-- `jumps.setdefault(target.jump, target.host)`, where it has a jump host. -/
def addJump (jumps : Dict Hop Str) (target : EgressTarget) : Dict Hop Str :=
  match target.jump with
  | none => jumps
  | some hop => if jumps.contains hop then jumps else jumps.set hop target.host

def jumpsOf (targets : List EgressTarget) : Dict Hop Str := targets.foldl addJump ∅

/-- The jump hosts of the job; a hop's port is a positive number. -/
def jumpEntry (jump : Hop × Str) : JumpEntry := ⟨some jump.2, jump.1.host, some jump.1.port.toNat⟩

/-- The hosts that the run is for. -/
def runHosts (groupName : Option Str) : Except JobError (List Str) :=
  match groupName with
  | none => .ok graph.hosts.keys
  | some group => match targetHosts graph group with
    | .ok hosts => .ok hosts
    | .error e => .error (.noGroup e.group)

/-- The end of `job_egress`, for hosts of these targets. -/
def specOf (extras : Option (List Extra)) (targets : List EgressTarget) : Except JobError Spec :=
  let unknown := targets.filter fun target => target.status = .unknown
  if unknown ≠ [] then .error (.unknown (unknownMessage unknown))
  else .ok
    { hosts := targets.filterMap EgressTarget.entry?
      jumpHosts := (jumpsOf targets).entries.map jumpEntry
      extras := (extras.getD []).map fun e => ⟨e.target, e.ports⟩
      warnings := (targets.flatMap EgressTarget.warnings).take maxWarnings }

def jobEgress (groupName : Option Str) (extraVars : Option Vars) (extras : Option (List Extra)) :
    Except JobError Spec :=
  match runHosts graph groupName with
  | .error e => .error e
  | .ok hosts =>
    match egressTargets ansible t graph (some hosts) extraVars with
    | .error e => .error (.raised e)
    | .ok targets => specOf extras targets

/-! ## What the inventory says -/

/-- A host that the run is for. -/
def OfRun (groupName : Option Str) (host : Str) : Prop :=
  graph.hosts.contains host = true ∧ ∀ group, groupName = some group → Targeted graph group host

variable (lookup : Lookup) (version : Family) (a : Nat) (protocol : Option Protocol) (port : Nat)

/-- It is an address of the host's, or of its jump host on the jump host's port. -/
def EgressTarget.Has (target : EgressTarget) : Prop :=
  (∃ address, target.address = some address ∧ HasAddress lookup address version a) ∨
    ∃ hop, target.jump = some hop ∧ HasAddress lookup hop.host version a ∧
      protocol = some .tcp ∧ (port : Int) = hop.port

/-- It is an address of the entry's, on one of its ports. -/
def Extra.Has (e : Extra) : Prop :=
  TargetHas lookup e.target version a ∧
    ∀ ranges, e.ports = some ranges → protocol.isSome = true ∧ ∃ r ∈ ranges, r.Mem port

/-- The target of one of the run's hosts, by the variables that ansible has of it. -/
def TargetOfRun (groupName : Option Str) (extraVars : Option Vars) (target : EgressTarget) : Prop :=
  ∃ merged, mergedHostVars ansible graph = .ok merged ∧ ∃ host, OfRun graph groupName host ∧
    hostTarget ansible t merged extraVars host = target

/-- What a run may reach, by its hosts' variables and the extra entries. -/
def MayReach (groupName : Option Str) (extraVars : Option Vars) (extras : List Extra) : Prop :=
  (∃ target, TargetOfRun ansible t graph groupName extraVars target ∧
      target.Has lookup version a protocol port) ∨
    ∃ e ∈ extras, e.Has lookup version a protocol port

end Job

/-! ## The jump hosts -/

variable {ansible : Ansible} {t : Unicode} {graph : Graph} {groupName : Option Str}
  {extraVars : Option Vars} {lookup : Lookup} {version : Family} {a port : Nat}
  {protocol : Option Protocol}

theorem mem_keys_addJump {jumps : Dict Hop Str} {target : EgressTarget} {hop : Hop} :
    hop ∈ (addJump jumps target).keys ↔ hop ∈ jumps.keys ∨ target.jump = some hop := by
  unfold addJump
  cases target.jump with
  | none => simp
  | some found =>
    dsimp only
    rw [Option.some.injEq]
    split
    · next hin =>
      -- the hop's first host stays
      refine ⟨Or.inl, fun h => h.elim id fun hfound => ?_⟩
      exact hfound ▸ Dict.contains_iff_mem.1 hin
    · rw [Dict.mem_keys_set, eq_comm (a := hop)]
      exact or_comm

theorem mem_keys_jumpsOf {targets : List EgressTarget} {hop : Hop} :
    hop ∈ (jumpsOf targets).keys ↔ ∃ target ∈ targets, target.jump = some hop := by
  suffices h : ∀ jumps : Dict Hop Str, hop ∈ (targets.foldl addJump jumps).keys ↔
      hop ∈ jumps.keys ∨ ∃ target ∈ targets, target.jump = some hop by
    refine (h ∅).trans (or_iff_right ?_)
    exact List.not_mem_nil
  induction targets with
  | nil => simp
  | cons target targets ih =>
    intro jumps
    rw [List.foldl_cons, ih, mem_keys_addJump, List.exists_mem_cons_iff]
    exact or_assoc

/-! ## A hop's port -/

/-- The port of a jump hop is one. -/
def Hop.Ported (hop : Hop) : Prop := 0 < hop.port ∧ hop.port < 65536

theorem ported_of_hopOf {spec : Str} {hop : Hop} (h : hopOf t spec = .ok (some hop)) :
    hop.Ported := by
  unfold hopOf at h
  dsimp only at h
  split at h
  · cases h
  split at h
  · cases h
  split at h
  · cases h
  split at h
  · next hport =>
    obtain rfl := Option.some.inj (Except.ok.inj h)
    simpa [Hop.Ported] using hport
  · cases h

theorem ported_of_parseJumpHosts {args : Str} {hop : Hop}
    (h : (parseJumpHosts t args).hop = some hop) : hop.Ported := by
  unfold parseJumpHosts at h
  split at h
  · cases h
  split at h
  · cases h
  dsimp only at h
  split at h
  · cases h
  · next hfirst =>
    obtain rfl : _ = some hop := h
    obtain ⟨-, w, -, -, -, hw⟩ := firstHop_eq_some.1 hfirst
    exact ported_of_hopOf hw

theorem ported_of_sshArgs {vars : Vars} {connection : Str} {hop : Hop}
    (h : (sshArgs t vars connection).hop = some hop) : hop.Ported := by
  suffices hfold : ∀ (names : List Str) (read : SshArgs),
      (∀ hop, read.hop = some hop → hop.Ported) →
      ∀ hop, (names.foldl (readArgs t vars) read).hop = some hop → hop.Ported by
    unfold sshArgs at h
    dsimp only at h
    split at h
    · refine hfold _ _ (fun hop hnone => ?_) _ h
      cases hnone
    · cases h
  intro names
  induction names with
  | nil => exact fun read hread => hread
  | cons name names ih =>
    intro read hread
    refine ih _ fun hop hhop => ?_
    unfold readArgs at hhop
    split at hhop
    · exact hread hop hhop
    · rcases Option.or_eq_some_iff.1 hhop with hold | ⟨-, hnew⟩
      · exact hread hop hold
      · exact ported_of_parseJumpHosts hnew
    · exact hread hop hhop

theorem ported_of_jump {host : Str} {vars : Vars} {hop : Hop}
    (h : (egressTarget t host vars).jump = some hop) : hop.Ported := by
  unfold egressTarget at h
  split at h
  · split at h
    · cases h
    split at h
    · cases h
    split at h
    · cases h
    dsimp only at h
    split at h
    · cases h
    split at h
    · cases h
    · exact ported_of_sshArgs h
  · cases h

/-- Which the worker takes as it is. -/
theorem sshPort_jumpEntry {jump : Hop × Str} (h : jump.1.Ported) :
    port = (jumpEntry jump).sshPort ↔ (port : Int) = jump.1.port := by
  obtain ⟨⟨address, p⟩, host⟩ := jump
  obtain ⟨hpos, -⟩ : 0 < p ∧ p < 65536 := h
  obtain ⟨k, rfl⟩ := Int.eq_succ_of_zero_lt hpos
  show port = k + 1 ↔ (port : Int) = (k + 1 : Nat)
  exact Int.ofNat_inj.symm

/-! ## The hosts of a run -/

/-- The targets of some hosts, where ansible takes the inventory. -/
theorem mem_egressTargets {hosts : List Str} {targets : List EgressTarget}
    (h : egressTargets ansible t graph (some hosts) extraVars = .ok targets)
    {target : EgressTarget} :
    target ∈ targets ↔ ∃ merged, mergedHostVars ansible graph = .ok merged ∧ ∃ host,
      (graph.hosts.contains host = true ∧ host ∈ hosts) ∧
        hostTarget ansible t merged extraVars host = target := by
  obtain ⟨merged, hmerged, h⟩ := Lib.Except.bind_eq_ok.1 h
  obtain rfl := Lib.Except.pure_eq_ok.1 h
  simp only [List.mem_map, List.mem_insertionSort, List.mem_filter, ← Dict.contains_iff_mem,
    contains_mergedHostVars hmerged, List.contains_iff_mem, hmerged, Except.ok.injEq,
    exists_eq_left']

theorem runHosts_spec
    (hgroup : ∀ group, groupName = some group → graph.groups.contains group = true) :
    ∃ hosts, runHosts graph groupName = .ok hosts ∧ ∀ host,
      (graph.hosts.contains host = true ∧ host ∈ hosts) ↔ OfRun graph groupName host := by
  cases groupName with
  | none =>
    refine ⟨_, rfl, fun host => ?_⟩
    rw [← Dict.contains_iff_mem, and_self]
    exact (and_iff_left fun _ hnone => nomatch hnone).symm
  | some group =>
    obtain ⟨hosts, hfound, hmem⟩ := InventoryRender.targetHosts_spec (hgroup group rfl)
    refine ⟨hosts, by rw [runHosts, hfound], fun host => and_congr_right fun _ => ?_⟩
    rw [hmem]
    exact ⟨fun h _ hsame => Option.some.inj hsame ▸ h, fun h => h group rfl⟩

theorem runHosts_gone {group : Str} (hgone : graph.groups.contains group = false) :
    runHosts graph (some group) = .error (.noGroup group) := by
  rw [runHosts, targetHosts, if_neg (Bool.eq_false_iff.1 hgone)]

/-! ## What the job says -/

/-- What the entries of some hosts permit. -/
theorem exists_entry {targets : List EgressTarget} :
    (∃ h ∈ targets.filterMap EgressTarget.entry?, HasAddress lookup h.address version a) ↔
      ∃ target ∈ targets, ∃ address, target.address = some address ∧
        HasAddress lookup address version a := by
  constructor
  · intro ⟨h, hmem, hhas⟩
    obtain ⟨target, htarget, hentry⟩ := List.mem_filterMap.1 hmem
    obtain ⟨address, haddress, rfl⟩ := Option.map_eq_some_iff.1 hentry
    exact ⟨target, htarget, address, haddress, hhas⟩
  · intro ⟨target, htarget, address, haddress, hhas⟩
    have hentry : target.entry? = some ⟨target.host, address, target.required⟩ := by
      rw [EgressTarget.entry?, haddress, Option.map_some]
    exact ⟨_, List.mem_filterMap.2 ⟨target, htarget, hentry⟩, hhas⟩

/-- What their jump hosts permit, each named once. -/
theorem exists_jump {targets : List EgressTarget}
    (hported : ∀ target ∈ targets, ∀ hop, target.jump = some hop → hop.Ported) :
    (∃ j ∈ (jumpsOf targets).entries.map jumpEntry, HasAddress lookup j.address version a ∧
        protocol = some .tcp ∧ port = j.sshPort) ↔
      ∃ target ∈ targets, ∃ hop, target.jump = some hop ∧ HasAddress lookup hop.host version a ∧
        protocol = some .tcp ∧ (port : Int) = hop.port := by
  constructor
  · intro ⟨j, hmem, hhas, hprotocol, hport⟩
    obtain ⟨jump, hjump, rfl⟩ := List.mem_map.1 hmem
    obtain ⟨target, htarget, hhop⟩ :=
      mem_keys_jumpsOf.1 (List.mem_map_of_mem (f := Prod.fst) hjump)
    exact ⟨target, htarget, jump.1, hhop, hhas, hprotocol,
      (sshPort_jumpEntry (hported target htarget _ hhop)).1 hport⟩
  · intro ⟨target, htarget, hop, hhop, hhas, hprotocol, hport⟩
    obtain ⟨jump, hjump, rfl⟩ := List.mem_map.1 (mem_keys_jumpsOf.2 ⟨target, htarget, hhop⟩)
    exact ⟨_, List.mem_map_of_mem hjump, hhas, hprotocol,
      (sshPort_jumpEntry (hported target htarget _ hhop)).2 hport⟩

theorem exists_extra {extras : List Extra} :
    (∃ e ∈ extras.map fun e => ExtraEntry.mk e.target e.ports, TargetHas lookup e.target version a ∧
        ∀ ranges, e.ports = some ranges → protocol.isSome = true ∧ ∃ r ∈ ranges, r.Mem port) ↔
      ∃ e ∈ extras, e.Has lookup version a protocol port := by
  simp only [List.mem_map, exists_exists_and_eq_and]
  rfl

section

variable {ansible : Ansible} {t : Unicode} {graph : Graph} {groupName : Option Str}
  {extraVars : Option Vars} {extras : Option (List Extra)}

theorem specOf_ok {targets : List EgressTarget} {spec : Spec}
    (h : specOf extras targets = .ok spec) :
    (∀ target ∈ targets, target.status ≠ .unknown) ∧
      spec.hosts = targets.filterMap EgressTarget.entry? ∧
      spec.jumpHosts = (jumpsOf targets).entries.map jumpEntry ∧
      spec.extras = (extras.getD []).map fun e => ⟨e.target, e.ports⟩ := by
  unfold specOf at h
  dsimp only at h
  split at h
  · cases h
  next hunknown =>
  cases h
  refine ⟨fun target hmem hstatus => ?_, rfl, rfl, rfl⟩
  exact List.filter_eq_nil_iff.1 (not_not.1 hunknown) target hmem (decide_eq_true hstatus)

theorem specOf_error {targets : List EgressTarget} {e : JobError}
    (h : specOf extras targets = .error e) : ∃ message, e = .unknown message ∧
      ∃ target ∈ targets, target.status = .unknown := by
  unfold specOf at h
  dsimp only at h
  split at h
  · next hunknown =>
    obtain ⟨target, hmem⟩ := List.exists_mem_of_ne_nil _ hunknown
    obtain ⟨hmem, hstatus⟩ := List.mem_filter.1 hmem
    exact ⟨_, (Except.error.inj h).symm, target, hmem, of_decide_eq_true hstatus⟩
  · cases h

/-- The job that there is for hosts of these targets. -/
theorem jobEgress_ok {spec : Spec}
    (h : jobEgress ansible t graph groupName extraVars extras = .ok spec) :
    (∀ group, groupName = some group → graph.groups.contains group = true) ∧
      ∃ targets, specOf extras targets = .ok spec ∧
        (∃ merged, mergedHostVars ansible graph = .ok merged) ∧
        ∀ {target}, target ∈ targets ↔ TargetOfRun ansible t graph groupName extraVars target := by
  have hgroup : ∀ group, groupName = some group → graph.groups.contains group = true := by
    rintro group rfl
    by_contra hgone
    rw [jobEgress, runHosts_gone (Bool.eq_false_iff.2 hgone)] at h
    cases h
  obtain ⟨hosts, hhosts, hof⟩ := runHosts_spec hgroup
  simp only [jobEgress, hhosts] at h
  split at h
  · cases h
  · next targets htargets =>
    obtain ⟨merged, hmerged, -⟩ := Lib.Except.bind_eq_ok.1 htargets
    refine ⟨hgroup, targets, h, ⟨merged, hmerged⟩, (mem_egressTargets htargets).trans ?_⟩
    simp only [hof, TargetOfRun]

theorem jobEgress_permits {spec : Spec}
    (h : jobEgress ansible t graph groupName extraVars extras = .ok spec) (lookup : Lookup)
    (version : Family) (a : Nat) (protocol : Option Protocol) (port : Nat) :
    spec.Permits lookup version a protocol port ↔
      MayReach ansible t graph lookup version a protocol port groupName extraVars
        (extras.getD []) := by
  obtain ⟨-, targets, hspec, -, htarget⟩ := jobEgress_ok h
  obtain ⟨-, hhosts, hjumps, hextras⟩ := specOf_ok hspec
  have hported : ∀ target ∈ targets, ∀ hop, target.jump = some hop → hop.Ported := by
    intro target hmem hop hhop
    obtain ⟨merged, -, host, -, rfl⟩ := htarget.1 hmem
    exact ported_of_jump hhop
  rw [Spec.Permits, hhosts, hjumps, hextras, exists_entry, exists_jump hported, exists_extra,
    ← or_assoc]
  refine or_congr_left ?_
  rw [← exists_or]
  refine exists_congr fun target => ?_
  rw [← and_or_left, htarget]
  rfl

theorem jobEgress_error {e : JobError}
    (h : jobEgress ansible t graph groupName extraVars extras = .error e) :
    match e with
    | .noGroup group => groupName = some group ∧ graph.groups.contains group = false
    | .raised error => mergedHostVars ansible graph = .error error
    | .unknown _ => ∃ target, TargetOfRun ansible t graph groupName extraVars target ∧
        target.status = .unknown := by
  by_cases hgroup : ∃ group, groupName = some group ∧ graph.groups.contains group = false
  · obtain ⟨group, rfl, hgone⟩ := hgroup
    rw [jobEgress, runHosts_gone hgone] at h
    obtain rfl := Except.error.inj h
    exact ⟨rfl, hgone⟩
  have hgroup' : ∀ group, groupName = some group → graph.groups.contains group = true :=
    fun group hsame => Bool.not_eq_false _ ▸ fun hgone => hgroup ⟨group, hsame, hgone⟩
  obtain ⟨hosts, hhosts, hof⟩ := runHosts_spec hgroup'
  simp only [jobEgress, hhosts] at h
  split at h
  · next error htargets =>
    obtain rfl := Except.error.inj h
    obtain hraised | ⟨merged, -, hpure⟩ := Lib.Except.bind_eq_error.1 htargets
    · exact hraised
    · cases hpure
  · next targets htargets =>
    obtain ⟨message, rfl, target, hmem, hstatus⟩ := specOf_error h
    obtain ⟨merged, hmerged, host, hhost, rfl⟩ := (mem_egressTargets htargets).1 hmem
    exact ⟨_, ⟨merged, hmerged, host, (hof host).1 hhost, rfl⟩, hstatus⟩

end

/-- **What a job says is what its inventory says**: a restricted run's job names every address that
its hosts' variables and the extra entries do, and no other. It is refused exactly if its group is
none of the inventory's, ansible doesn't take the inventory, or the address of one of the hosts that
it is for isn't known. -/
theorem jobEgress_spec (ansible : Ansible) (t : Unicode) (graph : Graph)
    (groupName : Option Str) (extraVars : Option Vars) (extras : Option (List Extra)) :
    match jobEgress ansible t graph groupName extraVars extras with
    | .ok spec =>
      (∀ group, groupName = some group → graph.groups.contains group = true) ∧
      (∃ merged, mergedHostVars ansible graph = .ok merged) ∧
      (∀ target, TargetOfRun ansible t graph groupName extraVars target →
        target.status ≠ .unknown) ∧
      ∀ (lookup : Lookup) (version : Family) (a : Nat) (protocol : Option Protocol) (port : Nat),
        spec.Permits lookup version a protocol port ↔
          MayReach ansible t graph lookup version a protocol port groupName extraVars
            (extras.getD [])
    | .error (.noGroup group) => groupName = some group ∧ graph.groups.contains group = false
    | .error (.raised error) => mergedHostVars ansible graph = .error error
    | .error (.unknown _) => ∃ target, TargetOfRun ansible t graph groupName extraVars target ∧
        target.status = .unknown := by
  cases hjob : jobEgress ansible t graph groupName extraVars extras with
  | ok spec =>
    obtain ⟨hgroup, targets, hspec, hmerged, htarget⟩ := jobEgress_ok hjob
    exact ⟨hgroup, hmerged, fun target h => (specOf_ok hspec).1 _ (htarget.2 h),
      jobEgress_permits hjob⟩
  | error e =>
    have herror := jobEgress_error hjob
    cases e <;> exact herror

/-! ## What is stored of the extra entries -/

/-- What `parse_extra` makes of an entry. -/
def ExtraIn.parsed (t : Unicode) (entry : ExtraIn) : Except ExtraError Extra :=
  parseExtra t entry.target entry.ports entry.note

theorem same_iff {e e' : Extra} : e.same e' = true ↔ e.target = e'.target ∧ e.ports = e'.ports := by
  simp [Extra.same]

/-- A target on ports is stored if an entry says it; no two entries that are stored say the same. -/
structure Stored (t : Unicode) (entries : List ExtraIn) (parsed extras : List Extra) : Prop where
  named : ∀ target ports, (∃ e ∈ extras, e.target = target ∧ e.ports = ports) ↔
    (∃ e ∈ parsed, e.target = target ∧ e.ports = ports) ∨
      ∃ entry ∈ entries, ∃ e, entry.parsed t = .ok e ∧ e.target = target ∧ e.ports = ports
  apart : parsed.Pairwise (fun e e' => e.same e' = false) →
    extras.Pairwise fun e e' => e.same e' = false

/-- The entry is stored unless one that is stored says the same. -/
theorem stored_cons {entry : ExtraIn} {entries : List ExtraIn} {item : Extra}
    {parsed extras : List Extra} (hitem : entry.parsed t = .ok item)
    (h : Stored t entries (if parsed.any item.same then parsed else parsed ++ [item]) extras) :
    Stored t (entry :: entries) parsed extras := by
  refine ⟨fun target ports => ?_, fun hparsed => h.apart ?_⟩
  · rw [h.named, List.exists_mem_cons_iff, ← or_assoc]
    refine or_congr_left ?_
    have hentry : (∃ e, entry.parsed t = .ok e ∧ e.target = target ∧ e.ports = ports) ↔
        item.target = target ∧ item.ports = ports := by
      simp [hitem]
    rw [hentry]
    split
    · next hany =>
      obtain ⟨e, he, hsame⟩ := List.any_eq_true.1 hany
      obtain ⟨htarget, hports⟩ := same_iff.1 hsame
      exact (or_iff_left_of_imp fun hitem' =>
        ⟨e, he, htarget ▸ hitem'.1, hports ▸ hitem'.2⟩).symm
    · simp only [List.mem_append, List.mem_singleton, or_and_right, exists_or, exists_eq_left]
  · split
    · exact hparsed
    · next hnone =>
      rw [Bool.not_eq_true, List.any_eq_false] at hnone
      refine List.pairwise_append.2 ⟨hparsed, List.pairwise_singleton _ _, fun e he e' he' => ?_⟩
      obtain rfl := List.mem_singleton.1 he'
      refine Bool.eq_false_iff.2 fun hsame => hnone e he ?_
      obtain ⟨htarget, hports⟩ := same_iff.1 hsame
      exact same_iff.2 ⟨htarget.symm, hports.symm⟩

theorem readExtras_stored {entries : List ExtraIn} : ∀ {number : Nat} {parsed extras : List Extra},
    readExtras t number entries parsed = .ok extras → Stored t entries parsed extras := by
  induction entries with
  | nil =>
    intro number parsed extras h
    obtain rfl := Except.ok.inj h
    exact ⟨fun target ports => by simp, id⟩
  | cons entry entries ih =>
    intro number parsed extras h
    unfold readExtras at h
    split at h
    · cases h
    · next item hitem => exact stored_cons hitem (ih h)

theorem parseExtras_stored {entries : List ExtraIn} {extras : List Extra}
    (h : parseExtras t entries = .ok extras) : Stored t entries [] extras := by
  unfold parseExtras at h
  split at h
  · cases h
  · exact readExtras_stored h

/-- The entries as they were typed. -/
def typed (t : Unicode) (entries : List ExtraIn) : List Extra :=
  entries.filterMap fun entry => (entry.parsed t).toOption

theorem mem_typed {entries : List ExtraIn} {e : Extra} :
    e ∈ typed t entries ↔ ∃ entry ∈ entries, entry.parsed t = .ok e := by
  rw [typed, List.mem_filterMap]
  refine exists_congr fun entry => and_congr_right fun _ => ?_
  cases entry.parsed t with
  | error _ => simp [Except.toOption]
  | ok _ => simp [Except.toOption]

/-- What the entries that are stored let a run reach is what those that were typed do. -/
theorem Stored.has {entries : List ExtraIn} {extras : List Extra}
    (h : Stored t entries [] extras) :
    (∃ e ∈ extras, e.Has lookup version a protocol port) ↔
      ∃ e ∈ typed t entries, e.Has lookup version a protocol port := by
  have hnamed : ∀ target ports, (∃ e ∈ extras, e.target = target ∧ e.ports = ports) ↔
      ∃ entry ∈ entries, ∃ e, entry.parsed t = .ok e ∧ e.target = target ∧ e.ports = ports :=
    fun target ports => (h.named target ports).trans (or_iff_right (by simp))
  constructor
  · intro ⟨e, he, hhas⟩
    obtain ⟨entry, hentry, e', hparsed, htarget, hports⟩ :=
      (hnamed e.target e.ports).1 ⟨e, he, rfl, rfl⟩
    exact ⟨e', mem_typed.2 ⟨entry, hentry, hparsed⟩, by rwa [Extra.Has, htarget, hports]⟩
  · intro ⟨e, he, hhas⟩
    obtain ⟨entry, hentry, hparsed⟩ := mem_typed.1 he
    obtain ⟨e', he', htarget, hports⟩ :=
      (hnamed e.target e.ports).2 ⟨entry, hentry, e, hparsed, rfl, rfl⟩
    exact ⟨e', he', by rwa [Extra.Has, htarget, hports]⟩

theorem getD_setEgressExtras {entries : List ExtraIn} {column : Option (List Extra)}
    (h : setEgressExtras t entries = .ok column) : Stored t entries [] (column.getD []) := by
  unfold setEgressExtras at h
  cases hparsed : parseExtras t entries with
  | error e =>
    rw [hparsed] at h
    cases h
  | ok extras =>
    rw [hparsed] at h
    obtain rfl := Except.ok.inj h
    have hstored := parseExtras_stored hparsed
    cases extras with
    | nil => exact hstored
    | cons e extras => exact hstored

/-! ## What a process of the run reaches -/

/-- **From the inventory to the packets**: a packet of a process of a restricted run gets out
exactly if it isn't blocked for everybody and is a lookup, or to what the variables of the run's
hosts and the extra entries, as they were typed, say. -/
theorem run_reaches {cfg : Config} {s : State} (hreach : (system cfg).Reachable s) {n : Nat}
    (hn : n < cfg.slots) {job : Job} {grant : Option Grant}
    (hproc : Owner.job job grant ∈ (s.slots n).procs) (hrun : job.kind = .run)
    {entries : List ExtraIn} {column : Option (List Extra)}
    (hcolumn : setEgressExtras t entries = .ok column) {spec : Spec}
    (hjob : jobEgress ansible t graph groupName extraVars column = .ok spec)
    (hspec : job.egress = some spec) {p : Packet} (hversion : p.version ∈ versions cfg.ipv6) :
    ∃ g, grant = some g ∧ (s.net.passes (uidOf n) p = true ↔ s.net.rejects p = false ∧
      (Dns g.resolvers p ∨ MayReach ansible t graph (resolve g.getaddrinfo) p.version p.dst
        p.protocol p.port groupName extraVars (typed t entries))) := by
  obtain ⟨g, report, hg, -, hpasses⟩ := (inv_of_reachable hreach).restricted hn hproc hrun hspec
  refine ⟨g, hg, (hpasses p hversion).trans (and_congr_right fun _ => or_congr_right ?_)⟩
  exact (jobEgress_permits hjob _ _ _ _ _).trans (or_congr_right (getD_setEgressExtras hcolumn).has)

/-! ## An inventory with one host -/

/-- What is set of a host. -/
def hostVarsOf (address : String) : Vars :=
  (∅ : Dict Str Json).set (str "ansible_host") (.str (str address))

/-- Ansible, of hosts with texts for variables in groups without any: a host has the variables that
were set of it. -/
def plainAnsible : Ansible where
  Data := List Str × Dict Str Vars
  new := ([], ∅)
  addGroup data group := .ok (group :: data.1, data.2)
  addHost data host := .ok (data.1, if data.2.contains host then data.2 else data.2.set host ∅)
  setVariable data entity name value := .ok (data.1, match data.2.get? entity, value with
    | some vars, .str text => data.2.set entity (vars.set name (.str text.text))
    | _, _ => data.2)
  addChild data group child :=
    if child = group ∧ child ∈ data.1 then .error (.exception (str "can't add group to itself"))
    else .ok data
  reconcileInventory := .ok
  isGroup data name := data.1.contains name
  hosts := Prod.snd
  combineVars vars extraVars := vars.update extraVars
  hosts_new _ := rfl
  hosts_addGroup h _ := by
    obtain rfl := Except.ok.inj h
    rfl
  hosts_addHost {data _ host} h name := by
    obtain rfl := Except.ok.inj h
    dsimp only
    split
    · next hin =>
      by_cases hname : name = host
      · rw [hname, hin, Bool.or_true]
      · rw [decide_eq_false hname, Bool.false_or]
    · rw [Dict.contains_set]
  hosts_setVariable {data _ entity _ value} h host := by
    obtain rfl := Except.ok.inj h
    dsimp only
    split
    · next hget =>
      by_cases hname : host = entity
      · rw [Dict.contains_set, hname, decide_eq_true rfl, Bool.true_or]
        exact (Dict.contains_iff_get?.2 ⟨_, hget⟩).symm
      · rw [Dict.contains_set, decide_eq_false hname, Bool.false_or]
    · rfl
  hosts_addChild h _ := by
    split at h
    · cases h
    · obtain rfl := Except.ok.inj h
      rfl
  hosts_reconcileInventory h _ := by
    obtain rfl := Except.ok.inj h
    rfl

def webGraph (address : String) : Graph where
  vars := ∅
  hosts := (∅ : Dict Str InventoryRender.MergedVars).set (str "web1")
    (InventoryRender.markUnsafe (hostVarsOf address))
  groups := (∅ : Dict Str InventoryRender.Group).set (str "web") ⟨[str "web1"], [], ∅⟩

theorem jobEgress_web : jobEgress plainAnsible .ascii (webGraph "web1.lan")
    (some (str "web")) none none = .ok webSpec := rfl

/-- A host that has its group's name: ansible adds the group to itself, and the run is refused. -/
example : jobEgress plainAnsible .ascii
    { vars := ∅
      hosts := (∅ : Dict Str InventoryRender.MergedVars).set (str "web") ∅
      groups := (∅ : Dict Str InventoryRender.Group).set (str "web") ⟨[str "web"], [], ∅⟩ }
    none none none = .error (.raised (.exception (str "can't add group to itself"))) := rfl

theorem run_reaches_web : ∃ g, some webGrant = some g ∧
    (webRunning.net.passes (uidOf 0) ⟨.v4, 0x0a000005, some .tcp, 22, 22⟩ = true ↔
      webRunning.net.rejects ⟨.v4, 0x0a000005, some .tcp, 22, 22⟩ = false ∧
        (Dns g.resolvers ⟨.v4, 0x0a000005, some .tcp, 22, 22⟩ ∨
          MayReach plainAnsible .ascii (webGraph "web1.lan") (resolve g.getaddrinfo) .v4
            0x0a000005 (some .tcp) 22 (some (str "web")) none (typed .ascii []))) :=
  run_reaches webRunning_reachable Nat.zero_lt_one (webRunning_procs ▸ List.mem_cons_self) rfl rfl
    jobEgress_web rfl (mem_versions_v4 true)

end Egress

end AnsiDeck
