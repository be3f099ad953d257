import AnsiDeck.HostVars
import AnsiDeck.Lib.Shlex
import AnsiDeck.Lib.Unicode

/-!
# The arguments that ssh is run with

ansible's ssh plugin hands ssh the arguments of three of its options, `ssh_args` first, each from a
variable of the host or else from ansible.cfg. A run that checks host keys gives the first of them
as an extra variable (`run_worker.host_key_ssh_args`), so what the inventory says there is lost.
-/

namespace AnsiDeck

namespace RunWorker

open Lib (Str Unicode str)
open Lib.Shlex (quote split)

/-- How a run checks host keys. -/
inductive HostKeyMode
  | acceptNew
  | strict
  deriving DecidableEq

def defaultSshArgs : Str := str "-C -o ControlMaster=auto -o ControlPersist=60s"

/-- `host_key_options`, of a run's directory. -/
def hostKeyOptions (pdd : Str) (mode : HostKeyMode) : List (Str × Str) :=
  let known := pdd ++ str "/known_hosts"
  let files := match mode with
    | .acceptNew => [pdd ++ str "/learned_known_hosts", known]
    | .strict => [known]
  [(str "StrictHostKeyChecking", match mode with
      | .acceptNew => str "accept-new"
      | .strict => str "yes"),
    (str "UserKnownHostsFile", (str " ").intercalate files),
    (str "GlobalKnownHostsFile", str "/dev/null"),
    (str "KnownHostsCommand", str "none"),
    (str "UpdateHostKeys", str "no"),
    (str "CheckHostIP", str "no"),
    (str "VerifyHostKeyDNS", str "no"),
    (str "HashKnownHosts", str "no")]

def hostKeySshArgs (pdd : Str) (mode : HostKeyMode) (baseArgs : Option Str) : Str :=
  let ours := (hostKeyOptions pdd mode).map fun option =>
    str "-o " ++ quote (option.1 ++ str "=" ++ option.2)
  (str " ").intercalate ours ++ str " " ++ baseArgs.getD defaultSshArgs

/-- What ansible's arguments for ssh depend on besides the host's variables. -/
structure SshRun where
  /-- The run's directory and mode, where it checks host keys. -/
  hostKeys : Option (Str × HostKeyMode) := none
  /-- What the repository's ansible.cfg sets for the option of a variable. -/
  configured : Str → Option Str := fun _ => none

variable (t : Unicode)

/-- `_repo_ssh_args`. -/
def repoSshArgs (run : SshRun) : Option Str :=
  ((run.configured (str "ansible_ssh_args")).map t.strip).filter (· ≠ [])

/-- A host's variables under the extra variable that `_set_up_host_keys` adds. -/
def withHostKeys (run : SshRun) (vars : Vars) : Vars :=
  match run.hostKeys with
  | none => vars
  | some (pdd, mode) =>
    vars.set (str "ansible_ssh_args") (.str (hostKeySshArgs pdd mode (repoSshArgs t run)))

/-- The text of an option: the variable's, or the one of ansible.cfg, or ansible's own. -/
def optionText (run : SshRun) (vars : Vars) (name : Str) : Str :=
  match vars.get? name with
  | some (.str args) => args
  | none | some .null =>
    (run.configured name).getD (if name = str "ansible_ssh_args" then defaultSshArgs else [])
  | some _ => []

/-- ansible's `_split_ssh_args`. -/
def splitSshArgs (args : Str) : List Str :=
  (((split args).getD []).map t.strip).filter (· ≠ [])

/-- The arguments that ansible hands to ssh, but for options of its own, which name no jump host. -/
def argumentList (run : SshRun) (vars : Vars) : List Str :=
  (["ansible_ssh_args", "ansible_ssh_common_args", "ansible_ssh_extra_args"].map str).flatMap
    fun name => splitSshArgs t (optionText run (withHostKeys t run vars) name)

end RunWorker

end AnsiDeck
