import Jasil.Relational.Table
import Jasil.Relational.Growth
import Jasil.Relational.Sorting
import Jasil.Relational.Uncommitted
import Jasil.Intervals.Adjacent
import Jasil.Transition.Reachability
import Jasil.Transition.Trace
import Jasil.Fencing.GrantLog
import Jasil.Leases.Custody
import Jasil.Leases.Tickets
import Jasil.Core.Limits
import Jasil.Core.Timestamps
import Jasil.Core.AfterCommit
import Jasil.Jobs.Backoff
import Jasil.Jobs.Models
import Jasil.Jobs.Queues
import Jasil.Jobs.Attempts
import Jasil.Jobs.Crud
import Jasil.Jobs.DeadLetters
import Jasil.Jobs.Calls
import Jasil.Jobs.RowInvariant
import Jasil.Jobs.Ledger
import Jasil.Jobs.Budget
import Jasil.Jobs.Fencing
import Jasil.Jobs.AttemptRows
import Jasil.Jobs.AttemptHistory
import Jasil.Jobs.LateSettles
import Jasil.Jobs.Claiming
import Jasil.Jobs.Eligibility
import Jasil.Jobs.Heartbeat
import Jasil.Jobs.Runner
import Jasil.Jobs.Envelopes
import Jasil.Jobs.CallbackRaces
import Jasil.Jobs.Sweeps
import Jasil.Jobs.Deliveries
import Jasil.Jobs.CallbackLeases
import Jasil.Jobs.Routing
import Jasil.Jobs.Rotation
import Jasil.Jobs.Outbox
import Jasil.Jobs.Batches
import Jasil.Text.Numbers
import Jasil.Text.Doubles
import Jasil.Text.JsonString
import Jasil.Text.Json
import Jasil.Text.JsonKeys
import Jasil.Text.Base64
import Jasil.Text.Uris
import Jasil.Core.IsoFormat
import Jasil.Core.Cursors
import Jasil.Paging.Keyset
import Jasil.Paging.Pages
import Jasil.Audit.Models
import Jasil.Audit.Query
import Jasil.Audit.CanonicalRows
import Jasil.Audit.Settings
import Jasil.Audit.Checkpoints
import Jasil.Audit.Verification
import Jasil.Audit.ConsecutiveRanges
import Jasil.Core.Pruning
import Jasil.Audit.Sink
import Jasil.Audit.Maintenance
import Jasil.Audit.History
import Jasil.Audit.Chain
import Jasil.Audit.Retention
import Jasil.Audit.SinkCopies
import Jasil.Audit.SealedRows
import Jasil.Audit.SinkLockstep
import Jasil.Audit.SignedMessages
import Jasil.Audit.FalseAlarms
import Jasil.Audit.HalfEmpty
import Jasil.Audit.TamperEvidence
import Jasil.Jobs.WorkerRegistry
import Jasil.Paging.Listings
import Jasil.Jobs.Retention
import Jasil.Jobs.FanOut
import Jasil.Platform.Reloading
import Jasil.Deployment.Capabilities
import Jasil.Deployment.MailProblems
import Jasil.Deployment.Container
import Jasil.FiniteMaps.Retained
import Jasil.Text.Utf8Prefixes
import Jasil.State.Provider
import Jasil.State.Memory
import Jasil.State.Redis
import Jasil.State.Agreement
import Jasil.State.Tiers
import Jasil.Storage.LocalRaces
import Jasil.Transition.Failing
import Jasil.Storage.Keys
import Jasil.Storage.Chunks
import Jasil.Text.FixedHex
import Jasil.Core.Uuid7
import Jasil.Storage.Streams
import Jasil.Jobs.Trouble
import Jasil.Jobs.Silence
import Jasil.Mail.SmtpMail
import Jasil.Jobs.Payloads
import Jasil.Jobs.Staging
import Jasil.Text.CodePoints
import Jasil.Text.Floats
import Jasil.Text.PyJson
import Jasil.Text.PyJsonReader
import Jasil.Realtime.Envelope
import Jasil.Realtime.Delivery
import Jasil.Jobs.Settings
import Jasil.Core.RedisClients
import Jasil.Transition.WriteOnce
import Jasil.Audit.FileSink
import Jasil.Audit.StorageSink
import Jasil.Trees.FileTree
import Jasil.Storage.LocalPaths
import Jasil.Storage.LocalObjects
import Jasil.Storage.LocalStorage
import Jasil.Storage.Absence
import Jasil.Transition.Faults
import Jasil.Storage.LocalUploads
import Jasil.Storage.UploadRuns
import Jasil.Storage.Uploads
import Jasil.Events.ClaimOrder
import Jasil.Events.EventRows
import Jasil.Events.Outcomes
import Jasil.Locks.AdvisoryLock
