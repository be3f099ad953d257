import AnsiDeck.HostVars
import AnsiDeck.Lib.IpAddress
import AnsiDeck.Lib.Shlex
import AnsiDeck.Lib.Unicode

/-!
# Where a host's connections go

`app.egress_allowlist`: the address that a host's connection plugin connects to and the jump host
that its ssh arguments name, as far as its variables say. A host whose address can't be known is
`unknown`, and a restricted run that reaches it is refused.
-/

namespace AnsiDeck

namespace Egress

open Lib (Dict IpAddress Json Str str decimal Unicode)

open HostVars (getSet lastSet templated)

/-! ## Connection plugins -/

def localConnections : List Str := ["local", "ansible.builtin.local"].map str

def sshVars : List Str := ["ansible_host", "ansible_ssh_host"].map str

/-- The plugins that the variables are given for, with the variables. -/
def plugins : List (List String × List Str) :=
  [(["ssh", "smart", "ansible.builtin.ssh"], sshVars),
    (["paramiko", "paramiko_ssh", "ansible.builtin.paramiko_ssh"], sshVars),
    (["winrm", "ansible.builtin.winrm"], ["ansible_host", "ansible_winrm_host"].map str),
    (["psrp", "ansible.builtin.psrp"], ["ansible_host", "ansible_psrp_host"].map str),
    (["network_cli", "netconf", "httpapi", "ansible.netcommon.network_cli",
      "ansible.netcommon.netconf", "ansible.netcommon.httpapi"], [str "ansible_host"]),
    (["libssh", "ansible.netcommon.libssh"], sshVars ++ [str "ansible_libssh_host"])]

/-- `ADDRESS_VARS.get(connection)`. -/
def addressVars (connection : Str) : Option (List Str) :=
  (plugins.find? fun p => (p.1.map str).contains connection).map Prod.snd

/-- Plugins that run ssh itself, whose arguments can name a jump host. -/
def sshConnections : List Str := ["ssh", "smart", "ansible.builtin.ssh"].map str

def sshArgVars : List Str :=
  ["ansible_ssh_common_args", "ansible_ssh_extra_args", "ansible_ssh_args"].map str

def proxyCommandVars : List Str :=
  ["ansible_paramiko_proxy_command", "ansible_netconf_proxy_command",
    "ansible_libssh_proxy_command"].map str

def templateMarks : List Str := ["\x7b\x7b", "\x7b%"].map str

/-! ## Addresses -/

/-- `[A-Za-z0-9_]`. -/
def labelStart (c : Nat) : Bool :=
  97 ≤ c && c ≤ 122 || 65 ≤ c && c ≤ 90 || 48 ≤ c && c ≤ 57 || c = 95

/-- A label of a host name: at most 63 characters, of which only the first may not be a hyphen. -/
def isLabel : Str → Bool
  | [] => false
  | c :: rest => labelStart c && rest.all (fun d => labelStart d || d = 45) && rest.length ≤ 62

/-- `_HOSTNAME.fullmatch(s)`: labels between dots, and perhaps one at the end. -/
def isHostname (s : Str) : Bool :=
  1 ≤ s.length && s.length ≤ 253 &&
    ((if s.getLast? = some 46 then s.dropLast else s).splitOn 46).all isLabel

section

variable (t : Unicode)

/-- `value` as an IP address or host name, or `none`. -/
def plainAddress : Json → Option Str
  | .str value =>
    let value := t.strip value
    match IpAddress.parse (Str.strip (fun c => c = 91 || c = 93) value) with
    | some address => some address.text
    | none => if isHostname value then some ((t.lower value).rdropWhile (· = 46)) else none
  | _ => none

/-! ## Jump hosts -/

structure Hop where
  host : Str
  port : Int := 22
  deriving DecidableEq

/-- `ValueError`. -/
structure Unreadable where
  spec : Str
  deriving DecidableEq

/-- The host and the port of a hop, `none` where the port isn't a number. -/
def hostPort (first : Str) : Option (Str × Int) :=
  if first.head? = some 91 then
    let inside := first.tail
    let (host, rest) := (Str.partition (str "]") inside).getD (inside, [])
    if rest.head? = some 58 then (t.int? rest.tail).map fun port => (host, port)
    else some (host, 22)
  else if first.count 58 = 1 then
    let (host, number) := (Str.partition (str ":") first).getD (first, [])
    (t.int? number).map fun port => (host, port)
  else some (first, 22)

/-- `_hop`: the first hop of the value of ProxyJump or `-J`. -/
def hopOf (spec : Str) : Except Unreadable (Option Hop) :=
  let first := t.strip ((Str.partition (str ",") spec).getD (spec, [])).1
  if first = [] || t.lower first = str "none" then .ok none
  else
    let first := if (str "ssh://").isPrefixOf first then first.drop 6 else first
    let first := ((Str.rsplit (str "@") first).getD ([], first)).2
    match hostPort t first with
    | none => .error ⟨spec⟩
    | some (host, port) =>
      match plainAddress t (.str host) with
      | none => .error ⟨spec⟩
      | some address => if 0 < port && port < 65536 then .ok (some ⟨address, port⟩)
          else .error ⟨spec⟩

/-- The values of `-J` and those of `-o` among arguments. -/
def optionValues : List Str → List Str × List Str
  | [] => ([], [])
  | [arg] => attached arg ([], [])
  | arg :: value :: rest =>
    if arg = str "-J" then
      let (jumps, options) := optionValues rest
      (value :: jumps, options)
    else if arg = str "-o" then
      let (jumps, options) := optionValues rest
      (jumps, value :: options)
    else attached arg (optionValues (value :: rest))
where
  /-- With the value in the argument itself. -/
  attached (arg : Str) : List Str × List Str → List Str × List Str
    | (jumps, options) =>
      if (str "-J").isPrefixOf arg && 2 < arg.length then (arg.drop 2 :: jumps, options)
      else if (str "-o").isPrefixOf arg && 2 < arg.length then (jumps, arg.drop 2 :: options)
      else (jumps, options)

/-- `option.replace("=", " ", 1).partition(" ")`, the name in lower case without white space. -/
def optionOf (option : Str) : Str × Str :=
  let spaced := match Str.partition (str "=") option with
    | some (name, value) => name ++ str " " ++ value
    | none => option
  let (name, value) := (Str.partition (str " ") spaced).getD (spaced, [])
  (t.lower (t.strip name), t.strip value)

/-- The value of a ProxyJump option. -/
def proxyJump (option : Str) : Option Str :=
  let (name, value) := optionOf t option
  if name = str "proxyjump" then some value else none

def setsProxyCommand (option : Str) : Bool :=
  let (name, value) := optionOf t option
  name = str "proxycommand" && t.lower value ≠ str "none"

/-- `for spec in jumps: hop = hop or _hop(spec)`: what follows the first hop isn't read. -/
def firstHop : List Str → Except Unreadable (Option Hop)
  | [] => .ok none
  | spec :: specs => do
    match ← hopOf t spec with
    | some hop => pure (some hop)
    | none => firstHop specs

/-- What ssh arguments say: the first jump hop, whether a ProxyCommand is set, whether they
couldn't be read. -/
structure SshArgs where
  hop : Option Hop
  proxy : Bool
  unread : Bool

/-- The values that name jump hosts, in the order they are read in: those of `-J` first. -/
def jumpValues (tokens : List Str) : List Str :=
  (optionValues tokens).1 ++ (optionValues tokens).2.filterMap (proxyJump t)

def parseJumpHosts (args : Str) : SshArgs :=
  if templated templateMarks (.str args) then ⟨none, false, true⟩
  else match Lib.Shlex.split args with
  | none => ⟨none, false, true⟩
  | some tokens =>
    let proxy := (optionValues tokens).2.any (setsProxyCommand t)
    match firstHop t (jumpValues t tokens) with
    | .error _ => ⟨none, proxy, true⟩
    | .ok hop => ⟨hop, proxy, false⟩

/-! ## A host's target -/

inductive TargetStatus
  | ok
  /-- `local`: no network. -/
  | onWorker
  | indirect
  | unknown
  deriving DecidableEq, Repr

structure EgressTarget where
  host : Str
  connection : Str
  status : TargetStatus
  address : Option Str := none
  jump : Option Hop := none
  reason : Option Str := none
  warnings : List Str := []

/-- One variable's arguments, after those of the variables before it. -/
def readArgs (vars : Vars) (read : SshArgs) (name : Str) : SshArgs :=
  match getSet vars name with
  | none => read
  | some (.str args) =>
    let parsed := parseJumpHosts t args
    ⟨read.hop.or parsed.hop, read.proxy || parsed.proxy, read.unread || parsed.unread⟩
  | some _ => { read with unread := true }

def sshArgs (vars : Vars) (connection : Str) : SshArgs :=
  let read : SshArgs := ⟨none, proxyCommandVars.any fun name => (getSet vars name).isSome, false⟩
  if sshConnections.contains connection then sshArgVars.foldl (readArgs t vars) read else read

def egressTarget (host : Str) (vars : Vars) : EgressTarget :=
  match HostVars.connection vars with
  | .str connection =>
    if templated templateMarks (.str connection) then
      { host, connection := str "?", status := .unknown,
        reason := some (str "its connection is set by a template") }
    else if localConnections.contains connection then { host, connection, status := .onWorker }
    else match addressVars connection with
    | none =>
      { host, connection, status := .unknown,
        reason := some (str "connects with " ++ connection
          ++ str ", whose address AnsiDeck can't tell") }
    | some names =>
      let value := (lastSet vars names none).getD (.str host)
      if templated templateMarks value then
        { host, connection, status := .unknown,
          reason := some (str "its address is set by a template") }
      else match plainAddress t value with
      | none =>
        { host, connection, status := .unknown,
          reason := some (str "its address isn't a plain host name") }
      | some address =>
        let args := sshArgs t vars connection
        let why := if args.proxy then "a proxy command" else "ssh arguments AnsiDeck can't read"
        { host, connection, address := some address, jump := args.hop,
          status := if args.hop.isSome || args.proxy || args.unread then .indirect else .ok,
          warnings := if args.proxy || args.unread then
              [host ++ str " connects with " ++ str why
                ++ str ": its connections are refused unless the proxy is among the extra entries"]
            else [] }
  | _ =>
    { host, connection := str "?", status := .unknown,
      reason := some (str "its connection is set by a template") }

end

end Egress

end AnsiDeck
