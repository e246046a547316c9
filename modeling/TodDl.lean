import TodDl.Lib.Sha256
import TodDl.Lib.Linked
import TodDl.Lib.Guarded
import TodDl.Lib.Posix
import TodDl.Lib.Table
import TodDl.Lib.SplitOn
import TodDl.Lib.Summary
import TodDl.Lib.Prog
import TodDl.Lib.FileTree
import TodDl.Lib.Batch
import TodDl.Lib.Like
import TodDl.Lib.Transaction
import TodDl.Provenance.Value
import TodDl.Provenance.Schema
import TodDl.Provenance.Writer
import TodDl.Provenance.Verify
import TodDl.Provenance.Valid
import TodDl.Provenance.Chain
import TodDl.Provenance.Decode
import TodDl.Provenance.Reports
import TodDl.Provenance.Canonical
import TodDl.Provenance.Tamper
import TodDl.Provenance.JsonSchema
import TodDl.Provenance.Sorting
import TodDl.Provenance.Emitted
import TodDl.Provenance.Genuine
import TodDl.Provenance.SignatureText
import TodDl.Provenance.Honest
import TodDl.Provenance.Summary
import TodDl.Provenance.Accepted
import TodDl.Provenance.Overlooked
import TodDl.Store.Row
import TodDl.Store.Db
import TodDl.Store.Control
import TodDl.Store.Projection
import TodDl.Store.Mutation
import TodDl.Store.Incremental
import TodDl.Store.Interleaved
import TodDl.Store.History
import TodDl.Controller.Config
import TodDl.Controller.Queue
import TodDl.Controller.World
import TodDl.Controller.Startup
import TodDl.Controller.Transfer
import TodDl.Controller.Control
import TodDl.Controller.Footprint
import TodDl.Controller.Steps
import TodDl.Controller.History
import TodDl.Controller.Selection
import TodDl.Controller.DryRun
import TodDl.Controller.Session
import TodDl.Controller.Closing
import TodDl.Controller.Confined
import TodDl.Controller.Scope
import TodDl.Controller.Renewal
import TodDl.Controller.Connection
import TodDl.Inventory.Readback
import TodDl.Lib.Paging
import TodDl.Inspection.Queue
import TodDl.Inspection.Cursor
import TodDl.Inspection.Records
import TodDl.Inspection.Revision
import TodDl.Inspection.Attempts
import TodDl.Inspection.Worker
import TodDl.Controller.Resume
import TodDl.Controller.Validators
import TodDl.Controller.Naming
import TodDl.Controller.Recheck
import TodDl.Controller.Server
import TodDl.Monitor.QueuePane
import TodDl.Monitor.Poll
import TodDl.Controller.Pending
import TodDl.Lib.Agenda
import TodDl.Controller.Waiting
import TodDl.Controller.Replay
import TodDl.Telemetry.Metrics
import TodDl.Lib.Marking
import TodDl.Inventory.Diff
import TodDl.Inventory.Lines
import TodDl.Inventory.Grammar
import TodDl.Lib.Answers
import TodDl.Controller.Remediation
import TodDl.Monitor.Wrap
import TodDl.Evaluation.DeterministicBytes
import TodDl.Lib.Latest
import TodDl.Controller.Reimport
import TodDl.Controller.ResponseLog
import TodDl.Lib.Amid
import TodDl.Controller.Progress
import TodDl.Lib.Phases
import TodDl.Controller.Moves
import TodDl.Controller.Ownership
import TodDl.Controller.Retired
import TodDl.Controller.Ledger
import TodDl.Controller.Pool
