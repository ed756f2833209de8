import ExAgent.Lib.Transition
import ExAgent.Lib.Table
import ExAgent.Lib.Durable
import ExAgent.Lib.History
import ExAgent.Lib.Locking
import ExAgent.Values
import ExAgent.Worker.Contracts
import ExAgent.Worker.Store
import ExAgent.Worker.Dispatcher
import ExAgent.Worker.System
import ExAgent.Worker.Inbox
import ExAgent.Worker.Routing
import ExAgent.Worker.Ordering
import ExAgent.Worker.Delivery
import ExAgent.Worker.CatchUp
import ExAgent.Effects.Store
import ExAgent.Effects.Journal
import ExAgent.Effects.Files
import ExAgent.Effects.Sending
import ExAgent.Graph.Contracts
import ExAgent.Graph.State
import ExAgent.Graph.Store
import ExAgent.Graph.Services
import ExAgent.Graph.Nodes
import ExAgent.Graph.Topology
import ExAgent.Graph.History
import ExAgent.Graph.Transactions
import ExAgent.Graph.Invariant
import ExAgent.Graph.Steps
import ExAgent.Graph.Planning
import ExAgent.Graph.Execution
import ExAgent.Graph.Reachable
import ExAgent.Graph.Guarantees
import ExAgent.Graph.Frame
import ExAgent.Graph.Kept
import ExAgent.Graph.Reports
import ExAgent.Graph.Decisions
import ExAgent.Session.Runtime
import ExAgent.Session.Admission
import ExAgent.Session.Adapter
import ExAgent.Session.System
import ExAgent.Session.Frame
import ExAgent.Session.Steps
import ExAgent.Session.Ownership
import ExAgent.Session.Application
import ExAgent.Session.Consumption
import ExAgent.Lib.Fallible
import ExAgent.Lib.Binary64
import ExAgent.Lib.Number
import ExAgent.Lib.Json
import ExAgent.Lib.Sha256
import ExAgent.Lib.DecimalText
import ExAgent.Lib.Streams
import ExAgent.Lib.StreamGroups
import ExAgent.Worker.Consumer
import ExAgent.Worker.Retention
import ExAgent.Transport.StreamMaintenance
import ExAgent.Transport.SafeTrim
import ExAgent.Storage.Effects
import ExAgent.Storage.Texts
import ExAgent.Storage.Requests
import ExAgent.Stores.Tables
import ExAgent.Stores.Requests
import ExAgent.Stores.Cleanups
import ExAgent.Stores.Tasks
import ExAgent.Stores.System
import ExAgent.Stores.Commits
import ExAgent.Stores.Contracts
import ExAgent.Stores.Admission
import ExAgent.Stores.Finished
import ExAgent.Stores.Terminal
import ExAgent.Stores.Fence
import ExAgent.Lib.Isolation
import ExAgent.Api.Events
import ExAgent.Api.Tasks
import ExAgent.Api.Replay
import ExAgent.Api.Turns
import ExAgent.Api.Isolation
import ExAgent.Api.Identity
import ExAgent.Workflows.Tables
import ExAgent.Workflows.Lifecycle
import ExAgent.Workflows.Changes
import ExAgent.Workflows.Contracts
import ExAgent.Workflows.Versions
import ExAgent.Workflows.Idempotency
import ExAgent.Graph.Commits
import ExAgent.Session.Succession
import ExAgent.Failure.Graph
import ExAgent.Failure.Convergence
import ExAgent.Failure.Targets
import ExAgent.Graph.Bindings
import ExAgent.Plans.Revisions
import ExAgent.Lib.Paging
import ExAgent.Worker.Sweep
import ExAgent.Lib.PyJson
import ExAgent.Storage.Inbox
import ExAgent.Storage.Ingress
import ExAgent.Graph.Items
import ExAgent.Graph.Idle
import ExAgent.Graph.Handover
import ExAgent.Graph.Recorded
import ExAgent.Transport.StreamIds
import ExAgent.Maintenance.Jobs
import ExAgent.Maintenance.Attempts
import ExAgent.Transport.ProductEvents
import ExAgent.Transport.Publication
import ExAgent.Failure.Operations
import ExAgent.Failure.Idempotency
import ExAgent.Session.Visibility
import ExAgent.Transport.DeadLetters
import ExAgent.Transport.DeadLetterActions
import ExAgent.Transport.SingleAction
import ExAgent.Pages.Cursors
import ExAgent.Pages.Newest
import ExAgent.Pages.Recovery
import ExAgent.Lib.Excerpts
import ExAgent.Lib.Paths
import ExAgent.Executor.Results
import ExAgent.Lib.Dictionary
import ExAgent.Workflows.Templates
import ExAgent.Workflows.Restoring
import ExAgent.Lib.Delimited
import ExAgent.Tools.Registry
import ExAgent.Tools.Compiler
import ExAgent.Tools.Lineage
import ExAgent.Tools.Selection
import ExAgent.Tools.Snapshot
import ExAgent.Tools.Replay
import ExAgent.Lib.Lease
import ExAgent.Worker.Guard
import ExAgent.Worker.Exclusion
import ExAgent.Workers.ExecutorEvents
import ExAgent.Workers.Ingestion
import ExAgent.Workers.Progress
