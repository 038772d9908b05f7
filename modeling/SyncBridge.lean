import SyncBridge.AwaitPrograms
import SyncBridge.ThreadPools
import SyncBridge.ChunkTransforms
import SyncBridge.EnvelopeCrypto
import SyncBridge.GaloisCounter
import SyncBridge.Database
import SyncBridge.Calls
import SyncBridge.Ingestion
import SyncBridge.Routing
import SyncBridge.Worker
import SyncBridge.Management
import SyncBridge.Orchestrator
import SyncBridge.TableInvariants
import SyncBridge.Footprints
import SyncBridge.Finality
import SyncBridge.OutboxSafety
import SyncBridge.Announcements
import SyncBridge.FailureNotices
import SyncBridge.Metering
import SyncBridge.Authentication
import SyncBridge.SoloRuns
import SyncBridge.TenantIsolation
import SyncBridge.JobOutcome
import SyncBridge.Downloads
import SyncBridge.PathSandbox
import SyncBridge.UserSeparation
import SyncBridge.RowShapes
import SyncBridge.ManualRetry
import SyncBridge.SourceReads
import SyncBridge.AttemptBudget
import SyncBridge.RecoverySweep
import SyncBridge.DuplicateJobs
import SyncBridge.QuotaBounds
import SyncBridge.QuotaSchedules
import SyncBridge.ObjectKeys
import SyncBridge.IdempotencyKeys
import SyncBridge.DownloadHeaders
import SyncBridge.ClamdClient
import SyncBridge.SingleRelay
import SyncBridge.JsValues
import SyncBridge.Configuration
import SyncBridge.CombinedCalls
import SyncBridge.GrowingKnowledge
import SyncBridge.JsonText
import SyncBridge.SimpleArrays
import SyncBridge.Outbound
import SyncBridge.EventPrivacy
import SyncBridge.EventFormat
import SyncBridge.DeliveryRuns
import SyncBridge.Accounts
import SyncBridge.AccountAuthority
import SyncBridge.Gateway
import SyncBridge.RoleEnforcement
import SyncBridge.TenantConfinement
import SyncBridge.AuditTrail
import SyncBridge.StoredObjects
import SyncBridge.RestingRuns
import SyncBridge.Quiescence
import SyncBridge.ObjectContents
import SyncBridge.Refusals
import SyncBridge.CallRefinement
import SyncBridge.Instruments
import SyncBridge.ThreadLedgers
import SyncBridge.ProcessMetrics
