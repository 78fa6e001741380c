import ActantDb.Core.HlcLaw
import ActantDb.Core.IdPreimage
import ActantDb.Core.CanonicalForm
import ActantDb.Ffi.Transfer
import ActantDb.Flow.Order
import ActantDb.Storage.Accounting
import ActantDb.Storage.IngestClock
import ActantDb.Storage.Backup
import ActantDb.Storage.ApplyWal
import ActantDb.Cli.ImportFailure
import ActantDb.Command.Chain
import ActantDb.Command.ApprovalGate
import ActantDb.Command.Atomicity
import ActantDb.Command.Replayed
import ActantDb.Command.Cache
import ActantDb.Command.Candidates
import ActantDb.Command.Isolation
import ActantDb.Effects.Heartbeat
import ActantDb.Effects.Retries
import ActantDb.Effects.Drain
import ActantDb.Ledger.Approvals
import ActantDb.Ledger.HashedRuns
import ActantDb.Ledger.Canonical
import ActantDb.Policy.DenyRules
import ActantDb.Context.Budget
import ActantDb.Reliability.Lock
import ActantDb.Reliability.Circuit
import ActantDb.Reliability.Throttle
import ActantDb.Reliability.Ingress
import ActantDb.Replay.Soundness
import ActantDb.Replay.Conflict
import ActantDb.Server.Tenancy
import ActantDb.Server.SyncSince
import ActantDb.Server.GraphQl
import ActantDb.Server.Guarded
import ActantDb.Subscribe.Delivery
import ActantDb.Subscribe.PredicatePanic
import ActantDb.Subscribe.PredicateRead
import ActantDb.Subscribe.Trichotomy
import ActantDb.Sync.Completeness
import ActantDb.Sync.Keys
import ActantDb.Sync.Resume
import ActantDb.Sync.Retention
import ActantDb.Workflow.InTurn
import ActantDb.Workflow.Sticky
import ActantDb.Contracts.Soundness
import ActantDb.Contracts.Trust
import ActantDb.CloudKit.Outbox
import ActantDb.CloudKit.Inbound
import ActantDb.ObjectStore.Filesystem
import ActantDb.ObjectStore.Layered
import ActantDb.Server.Link
import ActantDb.Mastra.WithActant
import ActantDb.Box.Armed
import ActantDb.Mcp.PredicateAgreement
import ActantDb.Storage.Migrations
import ActantDb.Embedders.Sparse
import ActantDb.Audit.Window
import ActantDb.Workflow.Payload
import ActantDb.Trigger.Scheduler
import ActantDb.Server.Principal
import ActantDb.Cli.Csv
import ActantDb.Box.Snapshots
import ActantDb.Box.Interval
import ActantDb.Box.Output
import ActantDb.Mcp.Stdio
import ActantDb.Mcp.Summary
import ActantDb.Contracts.Prompt
import ActantDb.Templates.Substitution
import ActantDb.Ledger.UlidOrder
import ActantDb.Ledger.ChainAssertion
import ActantDb.Memory.Conflicts
import ActantDb.Drift.Score
import ActantDb.Workers.Cdp
import ActantDb.Subscribe.Hub
import ActantDb.Command.Descent
import ActantDb.Server.Tokens
import ActantDb.Server.Oidc
import ActantDb.Server.Sessions
import ActantDb.Server.RateLimit
import ActantDb.Flow.Drive
import ActantDb.Storage.Artifacts
