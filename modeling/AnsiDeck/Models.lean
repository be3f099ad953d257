import AnsiDeck.Lib.Dict
import AnsiDeck.Lib.Json
import Mathlib.Data.Finset.Insert
import Mathlib.Data.Finset.Lattice.Basic

/-!
# The database's rows

`app.models`: the columns the modelled code reads or writes, under the source's names. A
nullable column is an `Option`, a time is a number of seconds (`now()` is the time its
transaction began), and a token only ever reaches a row as its digest.

Columns nothing modelled reads (host counts, artifact listings, who triggered a run) are left
out.
-/

namespace AnsiDeck

open Lib (Dict Json Str)

/-- Seconds on the database's clock. -/
abbrev Time := Nat

/-- A claim or job token, as its holder has it. -/
abbrev Token := String

/-- `hash_token(token)`, as a row has it. -/
abbrev Digest := String

abbrev RunId := Nat
abbrev InventoryId := Nat
abbrev RefreshId := Nat
abbrev SnapshotId := Nat
abbrev SourceId := Nat
abbrev LintId := Nat
abbrev GitSourceId := Nat
abbrev GitSnapshotId := Nat
abbrev InstallId := Nat
abbrev ScanId := Nat
abbrev ChannelId := Nat
abbrev DeliveryId := Nat

/-- `models.RunStatus`: also the status of a refresh, a check and a galaxy install. -/
inductive RunStatus
  | queued
  | running
  | success
  | failed
  | cancelled
  | timedOut
  deriving DecidableEq, Repr

namespace RunStatus

/-- The column's text. -/
def value : RunStatus → String
  | queued => "queued"
  | running => "running"
  | success => "success"
  | failed => "failed"
  | cancelled => "cancelled"
  | timedOut => "timed_out"

/-- `queue._ACTIVE`. -/
def active : RunStatus → Bool
  | queued | running => true
  | _ => false

/-- `models.FINISHED_STATUSES`. -/
def finished (s : RunStatus) : Bool := !s.active

@[simp] theorem finished_eq_false {s : RunStatus} :
    s.finished = false ↔ s = queued ∨ s = running := by cases s <;> simp [finished, active]

@[simp] theorem finished_eq_true {s : RunStatus} :
    s.finished = true ↔ s ≠ queued ∧ s ≠ running := by cases s <;> simp [finished, active]

end RunStatus

/-- `text[:n]`. -/
def clip (n : Nat) (text : String) : String := String.ofList (text.toList.take n)

/-- `f"{value}"`. -/
def shown (value : Option String) : String := value.getD "None"

/-- Host, group or inventory variables. -/
abbrev Vars := Dict Str Json

/-- The inventory's own hosts and groups, as a run pins them when it is triggered
(`inventory_render.static_data`): each host's variables and each group's members. -/
structure StaticData where
  hosts : Dict Str Vars
  groups : Dict Str (List Str)

/-- A row of `runs`. -/
structure Run where
  inventoryId : Option InventoryId
  status : RunStatus := .queued
  statusReason : Option String := none
  returnCode : Option Int := none
  /-- When it entered the queue; a claim or a requeue leaves it. -/
  queuedAt : Time
  claimedAt : Option Time := none
  startedAt : Option Time := none
  finishedAt : Option Time := none
  workerId : Option String := none
  -- the claiming worker's lease, always from the database's clock
  leaseExpiresAt : Option Time := none
  heartbeatAt : Option Time := none
  claimTokenHash : Option Digest := none
  /-- The one-time token that fetches the job's secrets. -/
  jobTokenHash : Option Digest := none
  jobTokenExpiresAt : Option Time := none
  cancelRequestedAt : Option Time := none
  cancelRequestedBy : Option String := none
  timeoutSeconds : Nat := 7200
  /-- Its inventory's modes when it was claimed. -/
  hostKeyChecking : Option String := none
  egressRestricted : Option Bool := none
  egressAllowlist : Option String := none
  -- what it was triggered with; deleting an item sets its reference to null
  playbookSnapshot : Option String := none
  playbookId : Option Nat := none
  credentialId : Option Nat := none
  envCredentialIds : List Nat := []
  groupId : Option Nat := none
  groupName : Option String := none
  vaultPasswordId : Option Nat := none
  vaultPasswordName : Option String := none
  gitCommit : Option String := none
  gitSnapshotId : Option GitSnapshotId := none
  /-- "Refresh the inventory first": the refresh it waits for. -/
  waitingRefreshId : Option RefreshId := none
  inventoryStatic : Option StaticData := none
  /-- The sources' snapshot it runs with, and what that was. -/
  inventorySnapshotId : Option SnapshotId := none
  inventorySnapshotAt : Option Time := none
  inventorySnapshotHosts : Option Nat := none
  /-- The last event sequence number written to its log. -/
  logSeq : Nat := 0
  /-- The log file's committed length. -/
  logBytes : Nat := 0

/-- What decides which inventory a run sees. -/
structure Pin where
  waiting : Option RefreshId
  snapshot : Option SnapshotId
  static : Option StaticData
  groupName : Option String

def Run.pin (run : Run) : Pin :=
  ⟨run.waitingRefreshId, run.inventorySnapshotId, run.inventoryStatic, run.groupName⟩

/-- A row of `inventory_refreshes`. -/
structure InventoryRefresh where
  inventoryId : InventoryId
  status : RunStatus := .queued
  queuedAt : Time
  claimedAt : Option Time := none
  startedAt : Option Time := none
  finishedAt : Option Time := none
  timeoutSeconds : Nat := 300
  workerId : Option String := none
  leaseExpiresAt : Option Time := none
  heartbeatAt : Option Time := none
  claimTokenHash : Option Digest := none
  jobTokenHash : Option Digest := none
  jobTokenExpiresAt : Option Time := none
  error : Option String := none
  /-- The snapshot it stored. -/
  snapshotId : Option SnapshotId := none
  /-- The sources it runs; `none` is all of them. -/
  scope : Option (Finset SourceId) := none
  stage : Option String := none
  /-- The ids of the sources it was built from. -/
  sources : List SourceId := []

/-- A group of a source's graph. -/
structure SourceGroup where
  hosts : List Str
  children : List Str
  vars : Vars

/-- What a refresh found, normalised. -/
structure SnapshotData where
  vars : Vars
  hosts : Dict Str Vars
  groups : Dict Str SourceGroup
  /-- The inventory's own hosts as they were fed to the plugins. -/
  staticHosts : List Str

/-- A source's kind: a plugin's config, or an inventory file or script in a git source. -/
inductive SourceKind
  | plugin
  | gitFile
  | gitScript
  deriving DecidableEq, Repr

/-- What a source's output depends on: what `input_sha256` hashes. -/
structure SourceInput where
  kind : SourceKind := .plugin
  plugin : String
  config : Option String := none
  credentialId : Option Nat := none
  gitSourceId : Option GitSourceId := none
  path : Option String := none
  deriving DecidableEq

/-- A row of `inventory_sources`. -/
structure InventorySource extends SourceInput where
  inventoryId : InventoryId
  name : String
  enabled : Bool := true
  position : Int := 0
  /-- When a refresh was last queued to run it; `none` runs it in the next, whatever its scope. -/
  lastQueuedAt : Option Time := none
  /-- Why it failed the last time it ran. -/
  lastError : Option String := none
  lastFinishedAt : Option Time := none

/-- A source's output, parsed. -/
structure SourceGraph where
  vars : Vars
  hosts : Dict Str Vars
  groups : Dict Str SourceGroup

/-- A row of `inventory_source_outputs`: a source's last good output. -/
structure InventorySourceOutput where
  inventoryId : InventoryId
  refreshId : Option RefreshId
  data : SourceGraph
  hostCount : Nat
  groupCount : Nat
  outputBytes : Nat
  warnings : List String
  /-- What the source was when the output's job was built. -/
  inputSha256 : Option Digest
  refreshedAt : Time

/-- A row of `inventory_snapshots`. -/
structure InventorySnapshot where
  inventoryId : InventoryId
  /-- The refresh that stored it. -/
  refreshId : Option RefreshId
  data : SnapshotData
  /-- The ids of the sources it was made from. -/
  sources : List SourceId
  createdAt : Time
  /-- When a newer one replaced it. -/
  supersededAt : Option Time := none

def InventorySnapshot.hostCount (s : InventorySnapshot) : Nat := s.data.hosts.size

inductive SourceStatus
  | success
  | failed
  /-- Its config changed meanwhile: the output was discarded. -/
  | stale
  deriving DecidableEq, Repr

/-- A row of `inventory_refresh_sources`: what one source did in one refresh. -/
structure InventoryRefreshSource where
  /-- `none` once the source is deleted. -/
  sourceId : Option SourceId
  name : String
  /-- Whether the refresh runs it: it is no constructed source and in its scope. -/
  ran : Bool := true
  status : Option SourceStatus := none
  error : Option String := none
  inputSha256 : Option Digest := none
  hostCount : Option Nat := none

/-- A row of `lint_jobs`: a playbook check. -/
structure LintJob where
  requestedByUserId : Nat
  gitSnapshotId : Option GitSnapshotId := none
  gitCommit : Option String := none
  status : RunStatus := .queued
  queuedAt : Time
  claimedAt : Option Time := none
  workerId : Option String := none
  leaseExpiresAt : Option Time := none
  heartbeatAt : Option Time := none
  claimTokenHash : Option Digest := none
  jobTokenHash : Option Digest := none
  jobTokenExpiresAt : Option Time := none

/-- A row of `git_sources`. -/
structure GitSource where
  currentSnapshotId : Option GitSnapshotId := none

/-- A row of `git_snapshots`: a commit of a source, with its tree in a tar file. -/
structure GitSnapshot where
  sourceId : GitSourceId
  commit : String
  /-- When a newer commit replaced it. -/
  supersededAt : Option Time := none

/-- A row of `galaxy_installs`. -/
structure GalaxyInstall where
  status : RunStatus := .queued
  returnCode : Option Int := none
  statusReason : Option String := none
  startedAt : Option Time := none
  finishedAt : Option Time := none
  /-- Installs run in the API process; the lease is renewed while one runs. -/
  leaseExpiresAt : Option Time := none

/-- A row of `inventories`: its current snapshot, and how its runs reach its hosts. -/
structure Inventory where
  hostKeyChecking : String := "off"
  egressRestricted : Bool := false
  currentSnapshotId : Option SnapshotId := none

/-- A row of `credentials`: its kind, and where its secret is when the store has it. -/
structure Credential where
  kind : String
  storePath : Option String := none

/-- A row of `vault_passwords`. -/
structure VaultPassword where
  storePath : Option String := none

/-- The row of `secret_store_outage`. -/
structure SecretStoreOutage where
  since : Time
  holdUntil : Time

/-- What a scan connects to, under its known_hosts name. -/
structure ScanTarget where
  name : String
  host : String
  port : Nat

/-- A key that a target presented. -/
structure ScannedKey where
  name : String
  keyType : String
  keyB64 : String
  fingerprint : String

/-- A row of `host_key_scans`. -/
structure HostKeyScan where
  inventoryId : InventoryId
  requestedBy : String
  targets : List ScanTarget
  status : RunStatus := .queued
  queuedAt : Time
  claimedAt : Option Time := none
  finishedAt : Option Time := none
  timeoutSeconds : Nat
  workerId : Option String := none
  leaseExpiresAt : Option Time := none
  heartbeatAt : Option Time := none
  claimTokenHash : Option Digest := none
  jobTokenHash : Option Digest := none
  jobTokenExpiresAt : Option Time := none
  results : Option (List ScannedKey) := none
  error : Option String := none

/-- A row of `notification_channels`. -/
structure NotificationChannel where
  enabled : Bool := true

inductive DeliveryStatus
  | pending
  | sending
  | sent
  | failed
  deriving DecidableEq, Repr

/-- A row of `notification_deliveries`: one event for one channel. -/
structure NotificationDelivery where
  channelId : ChannelId
  event : String
  payload : Dict String Json
  status : DeliveryStatus := .pending
  attempts : Nat := 0
  nextAttemptAt : Time
  lastStatusCode : Option Int := none
  lastError : Option String := none
  createdAt : Time
  sentAt : Option Time := none

end AnsiDeck
