import AnsiDeck.Lib.System
import AnsiDeck.Lib.Table
import AnsiDeck.Lib.Dict
import AnsiDeck.Lib.Json
import AnsiDeck.Models
import AnsiDeck.RunLog
import AnsiDeck.Queue
import AnsiDeck.InternalApi.Runs
import AnsiDeck.Reaper
import AnsiDeck.Worker.EventSender
import AnsiDeck.EventLog.System
import AnsiDeck.EventLog.Numbering
import AnsiDeck.EventLog.Api
import AnsiDeck.EventLog.Safety
import AnsiDeck.StoreOutage
import AnsiDeck.RunQueue.System
import AnsiDeck.RunQueue.Moves
import AnsiDeck.RunQueue.Locks
import AnsiDeck.RunQueue.Order
import AnsiDeck.RunQueue.Handout
import AnsiDeck.RunQueue.Waits
import AnsiDeck.InventorySources
import AnsiDeck.RefreshQueue.System
import AnsiDeck.RefreshQueue.Coverage
import AnsiDeck.RefreshFirst.Pinned
import AnsiDeck.Lease.Fencing
import AnsiDeck.Galaxy.Final
import AnsiDeck.GitSync.Alone
import AnsiDeck.GitSync.Retention
import AnsiDeck.RefreshReport.Accepted
import AnsiDeck.GitSync.Symlinks
import AnsiDeck.Accounts.LastAdmin
import AnsiDeck.Accounts.Binding
import AnsiDeck.Accounts.LastFactor
import AnsiDeck.Scrub.WholeWords
import AnsiDeck.Scrub.Cuts
import AnsiDeck.LiveLog.Viewer
import AnsiDeck.Uploads.Acked
import AnsiDeck.InternalApi.Complete
import AnsiDeck.StoreWait.Deadline
import AnsiDeck.HostKeyScans.Running
import AnsiDeck.Notifications.Outbox
import AnsiDeck.SecretStore.Paths
import AnsiDeck.SecretStore.Kept
import AnsiDeck.Egress.Firewall
import AnsiDeck.Egress.JumpHosts
import AnsiDeck.HostKeys.Addresses
import AnsiDeck.InventoryRender.Merge
import AnsiDeck.JsonLimits.Bounded
import AnsiDeck.Egress.Ports
import AnsiDeck.InventoryRender.Target
import AnsiDeck.Lib.CycleSearch
import AnsiDeck.Scrub.Masking
import AnsiDeck.Scrub.Shape
import AnsiDeck.Scrub.Again
import AnsiDeck.Notifications.Recovered
import AnsiDeck.Notifications.Episodes
import AnsiDeck.Galaxy.Remote
import AnsiDeck.HostKeys.Learned
import AnsiDeck.InventorySources.Strict
import AnsiDeck.InventorySources.LegacyRead
import AnsiDeck.Egress.Extras
import AnsiDeck.RunWorker.Fits
import AnsiDeck.Hardening.Throttle
import AnsiDeck.Access.Confined
import AnsiDeck.Access.Revoked
import AnsiDeck.RunTemplates.Secrets
import AnsiDeck.Egress.Restricted
import AnsiDeck.Access.SignedOut
import AnsiDeck.Egress.Jobs
