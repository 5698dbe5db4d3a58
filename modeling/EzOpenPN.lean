import EzOpenPN.Profiles.Provisioning
import EzOpenPN.Profiles.Records
import EzOpenPN.Profiles.Subscriptions
import EzOpenPN.Supervisor.Invariants
import EzOpenPN.Security.ResetRace
import EzOpenPN.Security.Throttle
import EzOpenPN.Web.PreAuth
import EzOpenPN.Web.HysteriaAuth
import EzOpenPN.Web.RuntimeHealth
import EzOpenPN.Installer.BackupRoundTrip
import EzOpenPN.Installer.PanelChanges
import EzOpenPN.Installer.UpgradeSteps
import EzOpenPN.Installer.Preflight
import EzOpenPN.Installer.Snapshots
import EzOpenPN.Certsync.Atomic
import EzOpenPN.Installer.CurrentLink
import EzOpenPN.Installer.WriteAhead
import EzOpenPN.Installer.Rollback
import EzOpenPN.Lib.FileSystem
import EzOpenPN.Installer.Extraction
import EzOpenPN.Installer.ManifestChecks
import EzOpenPN.Installer.ApplyPayload
import EzOpenPN.Installer.TreeExchange
import EzOpenPN.Installer.Restore
import EzOpenPN.Installer.Firewall
import EzOpenPN.Installer.Layout
import EzOpenPN.Certsync.Selection
import EzOpenPN.Lib.SlidingWindow
import EzOpenPN.Supervisor.CrashBudget
import EzOpenPN.Profiles.Binding
import EzOpenPN.Lib.Uri
import EzOpenPN.Profiles.LinkRoundTrip
import EzOpenPN.Lib.Redaction
import EzOpenPN.Installer.SanitizeLogs
import EzOpenPN.Lib.Bits
import EzOpenPN.Profiles.Identifiers
import EzOpenPN.Lib.Loop
import EzOpenPN.Integrations.Readiness
import EzOpenPN.Lib.IpAddress
import EzOpenPN.Release.Evidence
import EzOpenPN.Release.Sanitization
import EzOpenPN.Lib.Interruption
import EzOpenPN.Installer.Recovery
import EzOpenPN.Installer.Crashes
import EzOpenPN.Lib.Component
import EzOpenPN.Installer.Install
import EzOpenPN.Installer.Interrupted
import EzOpenPN.Installer.InstallParts
import EzOpenPN.Installer.InstallCrashes
import EzOpenPN.Installer.StuckInstall
import EzOpenPN.Lib.Clients
import EzOpenPN.Web.Panel
import EzOpenPN.Web.PanelAccess
import EzOpenPN.Web.PanelLogins
import EzOpenPN.Web.PanelThrottle
import EzOpenPN.Supervisor.Control
import EzOpenPN.JsonText
import EzOpenPN.Lib.LooseBase64
import EzOpenPN.Installer.RuntimeMaterial
