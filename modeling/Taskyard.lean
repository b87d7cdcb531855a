import Taskyard.Bus.Topic
import Taskyard.Catalog.Archive
import Taskyard.Catalog.Basic
import Taskyard.Catalog.Prune
import Taskyard.Catalog.Service
import Taskyard.Console.Arguments
import Taskyard.Console.Command
import Taskyard.Console.Disk
import Taskyard.Console.Identifier
import Taskyard.Console.Plan
import Taskyard.Console.Report
import Taskyard.Console.Trigger
import Taskyard.Decimal.Binary
import Taskyard.Decimal.Literal
import Taskyard.Decimal.Notation
import Taskyard.Decimal.Shortest
import Taskyard.Dict
import Taskyard.Event
import Taskyard.Fault
import Taskyard.Handler.Builtin
import Taskyard.Handler.Log
import Taskyard.Handler.Prune
import Taskyard.Handler.Rehearsal
import Taskyard.Handler.Script
import Taskyard.Handler.Shell
import Taskyard.Handler.Sleep
import Taskyard.Handler.Template
import Taskyard.Handler.Webhook
import Taskyard.Job.Action
import Taskyard.Job.Basic
import Taskyard.Job.Task
import Taskyard.Job.Transition
import Taskyard.Json.Change
import Taskyard.Json.Decoder
import Taskyard.Json.Printer
import Taskyard.Json.Reader
import Taskyard.Json.Value
import Taskyard.Main
import Taskyard.Message
import Taskyard.Net.Address
import Taskyard.Proofs.Bus.Delivery
import Taskyard.Proofs.Bus.Unread
import Taskyard.Proofs.Catalog.Calls
import Taskyard.Proofs.Catalog.History
import Taskyard.Proofs.Catalog.Readable
import Taskyard.Proofs.Catalog.Separation
import Taskyard.Proofs.Decimal.Rounding
import Taskyard.Proofs.Decimal.Shortest
import Taskyard.Proofs.Job.Expansion
import Taskyard.Proofs.Job.Snapshots
import Taskyard.Proofs.Json.Canonical
import Taskyard.Proofs.Json.Float
import Taskyard.Proofs.Json.Layout
import Taskyard.Proofs.Json.RoundTrip
import Taskyard.Proofs.Json.Scaling
import Taskyard.Proofs.Json.Spelling
import Taskyard.Proofs.Scheduler.Changes
import Taskyard.Proofs.Scheduler.Conclusion
import Taskyard.Proofs.Scheduler.Confinement
import Taskyard.Proofs.Scheduler.Convergence
import Taskyard.Proofs.Scheduler.Course
import Taskyard.Proofs.Scheduler.Duties
import Taskyard.Proofs.Scheduler.Evaluation
import Taskyard.Proofs.Scheduler.Finality
import Taskyard.Proofs.Scheduler.Genealogy
import Taskyard.Proofs.Scheduler.Handover
import Taskyard.Proofs.Scheduler.Ledger
import Taskyard.Proofs.Scheduler.Limits
import Taskyard.Proofs.Scheduler.Moves
import Taskyard.Proofs.Scheduler.Pipeline
import Taskyard.Proofs.Scheduler.Provenance
import Taskyard.Proofs.Scheduler.References
import Taskyard.Proofs.Scheduler.Reports
import Taskyard.Proofs.Scheduler.Shutdown
import Taskyard.Proofs.Scheduler.Staffing
import Taskyard.Proofs.Scheduler.Steps
import Taskyard.Proofs.Scheduler.Storage
import Taskyard.Proofs.Wire.Decoding
import Taskyard.Proofs.Wire.Forms
import Taskyard.Proofs.Wire.Inverse
import Taskyard.Query.Clause
import Taskyard.Query.Glob
import Taskyard.Query.Match
import Taskyard.Scheduler.Clockwork
import Taskyard.Scheduler.Dispatcher
import Taskyard.Scheduler.Execution
import Taskyard.Scheduler.Floor
import Taskyard.Scheduler.Machine
import Taskyard.Scheduler.Runnable
import Taskyard.Scheduler.Solo
import Taskyard.Scheduler.Writer
import Taskyard.Selector
import Taskyard.Settings.Basic
import Taskyard.Settings.Text
import Taskyard.Shell.Arithmetic
import Taskyard.Shell.Parser
import Taskyard.Shell.Pattern
import Taskyard.Shell.Run
import Taskyard.Shell.Session
import Taskyard.Shell.Source
import Taskyard.Shell.Syntax
import Taskyard.Shell.Tools
import Taskyard.Text.Blank
import Taskyard.Text.Columns
import Taskyard.Text.Letters
import Taskyard.Text.Numeral
import Taskyard.Text.Path
import Taskyard.Text.Quoted
import Taskyard.Text.Split
import Taskyard.Text.Uppercase
import Taskyard.Text.Utf8
import Taskyard.Toml.Document
import Taskyard.Toml.Printer
import Taskyard.Toml.Quoting
import Taskyard.Toml.Scalar
import Taskyard.Toml.Value
import Taskyard.Tree.Listing
import Taskyard.Tree.Node
import Taskyard.User
import Taskyard.Wire.Event
import Taskyard.Wire.Job
import Taskyard.Wire.Query
import Taskyard.Proofs.Catalog.Replay
import Taskyard.Proofs.Scheduler.Attention
import Taskyard.Proofs.Scheduler.Service
import Taskyard.Proofs.Scheduler.Launches
import Taskyard.Proofs.Scheduler.Hearing
import Taskyard.Proofs.Text.Replacement
import Taskyard.Proofs.Handler.Template
import Taskyard.Proofs.Job.Filters
import Taskyard.Proofs.Catalog.Pruning
import Taskyard.Proofs.Scheduler.Executions
import Taskyard.Proofs.Scheduler.Recording
import Taskyard.Proofs.Split
import Taskyard.Proofs.Query.Laws
import Taskyard.Proofs.Text.Ends
import Taskyard.Proofs.Query.Glob
import Taskyard.Proofs.Tree.Listing
import Taskyard.Proofs.Decimal.Order
import Taskyard.Proofs.Job.Progress
import Taskyard.Proofs.Query.Extension
import Taskyard.Proofs.Text.Truncation
import Taskyard.Proofs.Net.Forms
import Taskyard.Proofs.Net.Masks
