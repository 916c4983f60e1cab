import CodeForge.Lib.Table
import CodeForge.Lib.Fallible
import CodeForge.Lib.Json
import CodeForge.Lib.PurePath
import CodeForge.Lib.Sha256
import CodeForge.Contracts
import CodeForge.StateMachine
import CodeForge.Persistence.Content
import CodeForge.Persistence.Schema
import CodeForge.Persistence.Store
import CodeForge.Persistence.Sessions
import CodeForge.Persistence.Runs
import CodeForge.Persistence.Tools
import CodeForge.Persistence.Changes
import CodeForge.Persistence.Growth
import CodeForge.Persistence.Operations
import CodeForge.Persistence.System
import CodeForge.Persistence.Leases
import CodeForge.Lib.Lease
import CodeForge.Persistence.Ownership
import CodeForge.BindingLayout
import CodeForge.Lib.Cursor
import CodeForge.Lib.Interleaving
import CodeForge.Lib.Numbering
import CodeForge.Lib.Trace
import CodeForge.Persistence.Acceptance
import CodeForge.Persistence.Bindings
import CodeForge.Persistence.Lifecycle
import CodeForge.Persistence.Queue
import CodeForge.Persistence.Requests
import CodeForge.Persistence.SessionLog
import CodeForge.Service
import CodeForge.Transport.Binding
import CodeForge.Transport.Directories
import CodeForge.Transport.Events
import CodeForge.Transport.SessionState
import CodeForge.Transport.Stream
import CodeForge.Persistence.Transitions
import CodeForge.Persistence.Cancellation
import CodeForge.Lib.JsonText
import CodeForge.Lib.JsonRoundTrip
import CodeForge.Persistence.Reading
import CodeForge.Persistence.References
import CodeForge.Persistence.Writes
import CodeForge.Persistence.Access
import CodeForge.Persistence.Replies
import CodeForge.Persistence.Integrity
import CodeForge.Persistence.Answers
import CodeForge.Persistence.Offers
import CodeForge.Persistence.Frozen
import CodeForge.Persistence.Revisions
import CodeForge.Persistence.Timestamps
import CodeForge.Lib.History
import CodeForge.Impala.Config
import CodeForge.Impala.Results
import CodeForge.Impala.Execution
import CodeForge.Impala.Outcomes
import CodeForge.Impala.Sizes
import CodeForge.Impala.Gates
import CodeForge.Impala.Cells
import CodeForge.Impala.Evidence
import CodeForge.Impala.Adapter
import CodeForge.Impala.Budgets
import CodeForge.Impala.Control
import CodeForge.Impala.Filters
import CodeForge.Lib.FileTree
import CodeForge.Skills.Digest
import CodeForge.Skills.Bundles
import CodeForge.Skills.Packages
import CodeForge.Skills.Resolution
import CodeForge.Workspace.Manifest
import CodeForge.Workspace.Legacy
import CodeForge.Workspace.Bound
import CodeForge.Lib.Window
import CodeForge.Harness.Context
import CodeForge.Lib.Scan
import CodeForge.Lib.Regex
import CodeForge.Harness.Blocks
import CodeForge.Lib.Utf8
import CodeForge.Execution.Capture
import CodeForge.Lib.Grouping
import CodeForge.Integrations.DeepSeek
import CodeForge.Lib.Paging
import CodeForge.Transport.Listing
import CodeForge.Transport.Replay
import CodeForge.Lib.Links
import CodeForge.Transport.SessionFiles
import CodeForge.Lib.DepthFirst
import CodeForge.Skills.Dependencies
import CodeForge.Skills.Confinement
import CodeForge.Lib.Ranking
import CodeForge.Persistence.Migrations
import CodeForge.Persistence.MigratedEpochs
import CodeForge.Persistence.ContentLog
import CodeForge.Lib.Segments
import CodeForge.Workspace.Transcript
import CodeForge.Harness.CodeTools
import CodeForge.Lib.JsonSame
import CodeForge.Lib.Verdicts
import CodeForge.Persistence.Damage
import CodeForge.Workspace.Publishing
import CodeForge.Workspace.Evidence
import CodeForge.Workspace.Ahead
import CodeForge.Persistence.Ledger
import CodeForge.Impala.Dispatcher
import CodeForge.Impala.Dispatches
import CodeForge.Persistence.Isolation
import CodeForge.Lib.Machine
import CodeForge.Execution.Operations
import CodeForge.Execution.Supervision
import CodeForge.Execution.Reports
import CodeForge.Harness.LocalCourse
import CodeForge.Lib.Client
import CodeForge.Persistence.Beside
import CodeForge.Harness.LocalRun
import CodeForge.Persistence.RunTools
import CodeForge.Harness.LocalLedger
import CodeForge.Harness.LocalBlocks
