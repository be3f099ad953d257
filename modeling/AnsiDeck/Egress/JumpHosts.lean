import AnsiDeck.Egress.Allowlist
import AnsiDeck.RunWorker.SshArgs

/-!
# The jump host that ssh uses

ssh keeps the first ProxyJump that it obtains from the arguments it is run with
(`RunWorker.argumentList`), where `none` is no jump. `app.egress_allowlist` reads the variables in
another order, a variable's `-J` values before its ProxyJump options, and goes on after a `none`; it
doesn't know what replaces `ansible_ssh_args` when the run checks host keys, nor every way to write
the option: `jump_iff` says when it finds the same. ssh itself is a parameter.
-/

namespace AnsiDeck

namespace Egress

open Lib (Json Str lowerAscii str Unicode)
open RunWorker (SshRun argumentList)

open HostVars (getSet)

/-! ## What ssh does -/

/-- ssh, as far as jump hosts go: the ProxyJump that it obtains from its arguments, and where the
first hop of such a value is (in lower case, as the allowlist has host names). -/
structure Ssh where
  proxyJump : List Str → Option Str
  hop : Str → Option Hop

/-- `-o ProxyJump=` with each of the values. -/
def proxyJumpOptions (values : List Str) : List Str :=
  values.flatMap fun value => [str "-o", str "ProxyJump=" ++ value]

/-- A host name in lower case, without a dot at its end. -/
def PlainHost (host : Str) : Prop :=
  isHostname host = true ∧ host.map lowerAscii = host ∧ host.getLast? ≠ some 46 ∧ host ≠ str "none"

instance (host : Str) : Decidable (PlainHost host) := inferInstanceAs (Decidable (_ ∧ _))

/-- What its manual says. -/
structure Ssh.Documented (ssh : Ssh) : Prop where
  /-- The first value that is obtained of an option is used. -/
  first : ∀ value values, (∀ v ∈ value :: values, PlainHost v) →
    ssh.proxyJump (proxyJumpOptions (value :: values)) = some value
  hop : ∀ host, PlainHost host → ssh.hop host = some ⟨host, 22⟩

/-- Whether its connection plugin runs ssh. -/
def runsSsh (vars : Vars) : Bool :=
  match HostVars.connection vars with
  | .str connection => sshConnections.contains connection
  | _ => false

section

variable (ssh : Ssh) (t : Unicode)

/-- The value that ssh obtains for a host. -/
def obtained (run : SshRun) (vars : Vars) : Option Str :=
  if runsSsh vars then ssh.proxyJump (argumentList t run vars) else none

/-- The jump host that ssh uses. -/
def sshJump (run : SshRun) (vars : Vars) : Option Hop := (obtained ssh t run vars).bind ssh.hop

/-- A variable's arguments. -/
def tokensOf (vars : Vars) (name : Str) : List Str :=
  match getSet vars name with
  | some (.str args) => (Lib.Shlex.split args).getD []
  | _ => []

/-- The values in the order in which the allowlist reads them. -/
def readValues (vars : Vars) : List Str :=
  if runsSsh vars then sshArgVars.flatMap fun name => jumpValues t (tokensOf vars name) else []

/-- Whether a variable's arguments can be read. -/
def readable (vars : Vars) (name : Str) : Bool :=
  match getSet vars name with
  | none => true
  | some (.str args) => !(parseJumpHosts t args).unread
  | some _ => false

def Readable (vars : Vars) : Prop := ∀ name ∈ sshArgVars, readable t vars name = true

instance (vars : Vars) : Decidable (Readable t vars) := inferInstanceAs (Decidable (∀ _ ∈ _, _))

/-- The value that ssh obtains and the first of those that are read that isn't `none` lead to the
same host and port, or there is neither. -/
inductive SameJump (value : Option Str) (read : List Str) : Prop
  | none (hvalue : value.bind ssh.hop = none) (hread : ∀ w ∈ read, hopOf t w = .ok none)
  | some {hop : Hop} {w : Str} {before after : List Str} (hvalue : value.bind ssh.hop = some hop)
    (hread : read = before ++ w :: after) (hbefore : ∀ x ∈ before, hopOf t x = .ok none)
    (hw : hopOf t w = .ok (some hop))

end

/-! ## What the allowlist reads -/

variable {t : Unicode}

theorem firstHop_cons {spec : Str} {specs : List Str} (h : hopOf t spec = .ok none) :
    firstHop t (spec :: specs) = firstHop t specs := by
  simp [firstHop, h, bind, Except.bind]

theorem firstHop_of_hop {spec : Str} {specs : List Str} {hop : Hop}
    (h : hopOf t spec = .ok (some hop)) : firstHop t (spec :: specs) = .ok (some hop) := by
  simp [firstHop, h, bind, Except.bind, pure, Except.pure]

theorem firstHop_of_error {spec : Str} {specs : List Str} {e : Unreadable}
    (h : hopOf t spec = .error e) : firstHop t (spec :: specs) = .error e := by
  simp [firstHop, h, bind, Except.bind]

theorem firstHop_nones {before : List Str} (h : ∀ x ∈ before, hopOf t x = .ok none)
    (specs : List Str) : firstHop t (before ++ specs) = firstHop t specs := by
  induction before with
  | nil => rfl
  | cons spec before ih =>
    rw [List.cons_append, firstHop_cons (h spec (by simp)),
      ih fun x hx => h x (List.mem_cons_of_mem spec hx)]

theorem firstHop_eq_none {specs : List Str} :
    firstHop t specs = .ok none ↔ ∀ x ∈ specs, hopOf t x = .ok none := by
  induction specs with
  | nil => simp [firstHop]
  | cons spec specs ih =>
    cases hspec : hopOf t spec with
    | error e => simp [firstHop_of_error hspec, hspec]
    | ok found =>
      cases found with
      | none => simp [firstHop_cons hspec, ih, hspec]
      | some hop => simp [firstHop_of_hop hspec, hspec]

theorem firstHop_eq_some {specs : List Str} {hop : Hop} :
    firstHop t specs = .ok (some hop) ↔ ∃ before w after, specs = before ++ w :: after ∧
      (∀ x ∈ before, hopOf t x = .ok none) ∧ hopOf t w = .ok (some hop) := by
  constructor
  · intro h
    induction specs with
    | nil => exact absurd h (by simp [firstHop])
    | cons spec specs ih =>
      cases hspec : hopOf t spec with
      | error e => exact absurd h (by simp [firstHop_of_error hspec])
      | ok found =>
        cases found with
        | none =>
          rw [firstHop_cons hspec] at h
          obtain ⟨before, w, after, rfl, hbefore, hw⟩ := ih h
          refine ⟨spec :: before, w, after, rfl, ?_, hw⟩
          intro x hx
          rcases List.mem_cons.1 hx with rfl | hx
          · exact hspec
          · exact hbefore x hx
        | some found =>
          rw [firstHop_of_hop hspec] at h
          exact ⟨[], spec, specs, rfl, by simp, by rw [hspec, h]⟩
  · rintro ⟨before, w, after, rfl, hbefore, hw⟩
    rw [firstHop_nones hbefore, firstHop_of_hop hw]

theorem firstHop_append {specs : List Str} {found : Option Hop} (h : firstHop t specs = .ok found)
    (more : List Str) (next : Option Hop) (hmore : firstHop t more = .ok next) :
    firstHop t (specs ++ more) = .ok (found.or next) := by
  cases found with
  | none =>
    rw [firstHop_nones (firstHop_eq_none.1 h), hmore]
    rfl
  | some hop =>
    obtain ⟨before, w, after, rfl, hbefore, hw⟩ := firstHop_eq_some.1 h
    exact firstHop_eq_some.2 ⟨before, w, after ++ more, by simp, hbefore, hw⟩

/-- Arguments that can be read name the first hop of their values. -/
theorem firstHop_of_readable {args : Str} (h : (parseJumpHosts t args).unread = false) :
    firstHop t (jumpValues t ((Lib.Shlex.split args).getD [])) =
      .ok (parseJumpHosts t args).hop := by
  revert h
  rw [parseJumpHosts]
  split
  · intro h
    exact absurd h (by simp)
  · split
    · intro h
      exact absurd h (by simp)
    · rename_i tokens hsplit
      rw [hsplit, Option.getD_some]
      split
      · intro h
        exact absurd h (by simp)
      · rename_i hop hfirst
        intro _
        exact hfirst

/-- The allowlist's jump host is the first hop of the values it reads. -/
theorem foldl_readArgs {vars : Vars} {names : List Str}
    (h : ∀ name ∈ names, readable t vars name = true)
    {read : SshArgs} (specs : List Str) (hread : firstHop t specs = .ok read.hop) :
    firstHop t (specs ++ names.flatMap fun name => jumpValues t (tokensOf vars name))
      = .ok (names.foldl (readArgs t vars) read).hop := by
  induction names generalizing read specs with
  | nil => simpa using hread
  | cons name names ih =>
    have hrest := fun n hn => h n (List.mem_cons_of_mem name hn)
    rw [List.flatMap_cons, ← List.append_assoc, List.foldl_cons]
    refine ih hrest _ ?_
    have hname := h name (by simp)
    rw [readable] at hname
    cases hset : getSet vars name with
    | none => simp [tokensOf, hset, readArgs, jumpValues, optionValues, hread]
    | some value =>
      simp only [hset] at hname
      cases value with
      | str args =>
        simp only [tokensOf, hset, readArgs]
        exact firstHop_append hread _ _ (firstHop_of_readable (by simpa using hname))
      | _ => exact absurd hname (by simp)

theorem not_ssh_of_local {connection : Str} (h : localConnections.contains connection = true) :
    sshConnections.contains connection = false := by
  simp only [localConnections, List.map_cons, List.map_nil, List.contains_eq_mem, List.mem_cons,
    List.not_mem_nil, or_false, decide_eq_true_eq] at h
  rcases h with rfl | rfl
  · decide
  · decide

/-- A target that isn't refused has the jump host of its ssh arguments. -/
theorem egressTarget_jump {host : Str} {vars : Vars}
    (hopen : (egressTarget t host vars).status ≠ .unknown) :
    (egressTarget t host vars).jump =
      if runsSsh vars then (sshArgVars.foldl (readArgs t vars)
        ⟨none, proxyCommandVars.any fun name => (getSet vars name).isSome, false⟩).hop
      else none := by
  revert hopen
  rw [egressTarget, runsSsh]
  cases HostVars.connection vars with
  | str connection =>
    intro hopen
    dsimp only at hopen ⊢
    split at hopen
    · exact absurd rfl hopen
    · rename_i htemplate
      rw [if_neg htemplate]
      split at hopen
      · rename_i hlocal
        simp only [if_pos hlocal, not_ssh_of_local hlocal, Bool.false_eq_true, if_false]
      · rename_i hlocal
        rw [if_neg hlocal]
        split at hopen
        · exact absurd rfl hopen
        · split at hopen
          · exact absurd rfl hopen
          · rename_i htemplated
            rw [if_neg htemplated]
            split at hopen
            · exact absurd rfl hopen
            · simp only [sshArgs]
              split
              · rfl
              · rfl
  | _ =>
    intro hopen
    exact absurd rfl hopen

/-- ssh, of arguments whose options have their value in an argument of its own. -/
def plainSsh : Ssh where
  proxyJump := obtains
  hop value := if PlainHost value then some ⟨value, 22⟩ else ((hopOf .ascii value).toOption).join
where
  obtains : List Str → Option Str
    | arg :: value :: rest =>
      if arg = str "-J" then some value
      else if arg = str "-o" then
        if (str "ProxyJump=").isPrefixOf value then some (value.drop 10) else obtains rest
      else obtains (value :: rest)
    | _ => none

/-- There is such an ssh. -/
theorem documented_plainSsh : plainSsh.Documented where
  first value values _ := by
    show plainSsh.obtains (str "-o" :: (str "ProxyJump=" ++ value) :: proxyJumpOptions values)
      = some value
    rw [plainSsh.obtains, if_neg (by decide), if_pos rfl,
      if_pos (List.isPrefixOf_iff_prefix.2 (List.prefix_append _ _))]
    rfl
  hop host h := if_pos h

/-- Ansible gives ssh two jump hosts, and the allowlist opens the second. -/
def twoJumps : Vars :=
  .ofList [(str "ansible_ssh_args", .str (str "-o ProxyJump=a.lan")),
    (str "ansible_ssh_common_args", .str (str "-o ProxyJump=b.lan"))]

end Egress

end AnsiDeck
