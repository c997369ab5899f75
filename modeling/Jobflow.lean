import Jobflow.Browser.Discovery
import Jobflow.Browser.Exchange
import Jobflow.Browser.Launch
import Jobflow.Browser.Script
import Jobflow.Cli.Arguments
import Jobflow.Cli.Handle
import Jobflow.Cli.Help
import Jobflow.Cli.Process
import Jobflow.Cli.Report
import Jobflow.Cookie.Basic
import Jobflow.Cookie.Store
import Jobflow.Decimal.Binary64
import Jobflow.Decimal.Shortest
import Jobflow.Dict
import Jobflow.Files.Filing
import Jobflow.Files.Path
import Jobflow.Files.Tree
import Jobflow.Job.Basic
import Jobflow.Job.Outcome
import Jobflow.Job.Route
import Jobflow.Job.Seed
import Jobflow.Job.Store
import Jobflow.Json.Document
import Jobflow.Json.Error
import Jobflow.Json.Lenient
import Jobflow.Json.Print
import Jobflow.Json.Read
import Jobflow.Json.Scan
import Jobflow.Json.Value
import Jobflow.Main
import Jobflow.Page.Call
import Jobflow.Page.Together
import Jobflow.Program.Basic
import Jobflow.Proofs.Atomicity
import Jobflow.Proofs.Browser.Exchange
import Jobflow.Proofs.Browser.Literals
import Jobflow.Proofs.Browser.Scripts
import Jobflow.Proofs.Cookie.Concurrency
import Jobflow.Proofs.Cookie.Faults
import Jobflow.Proofs.Cookie.File
import Jobflow.Proofs.Cookie.Isolation
import Jobflow.Proofs.Cookie.Merging
import Jobflow.Proofs.Cookie.Overlay
import Jobflow.Proofs.Cookie.Sites
import Jobflow.Proofs.Cookie.Visits
import Jobflow.Proofs.Confinement
import Jobflow.Proofs.Coupling
import Jobflow.Proofs.Decimal.Rounding
import Jobflow.Proofs.Decimal.Shortest
import Jobflow.Proofs.Decimal.Whole
import Jobflow.Proofs.Dict
import Jobflow.Proofs.Files.Extensions
import Jobflow.Proofs.Files.Faults
import Jobflow.Proofs.Files.Interleaving
import Jobflow.Proofs.Files.Paths
import Jobflow.Proofs.Files.Places
import Jobflow.Proofs.Files.Replacing
import Jobflow.Proofs.Files.Sharing
import Jobflow.Proofs.Files.Undisturbed
import Jobflow.Proofs.Job.Concurrency
import Jobflow.Proofs.Job.Faults
import Jobflow.Proofs.Job.File
import Jobflow.Proofs.Job.Hosts
import Jobflow.Proofs.Job.Namesakes
import Jobflow.Proofs.Job.Operation
import Jobflow.Proofs.Job.Processes
import Jobflow.Proofs.Job.Rearming
import Jobflow.Proofs.Job.Recording
import Jobflow.Proofs.Job.Reentry
import Jobflow.Proofs.Job.Refinement
import Jobflow.Proofs.Job.Routes
import Jobflow.Proofs.Job.Selection
import Jobflow.Proofs.Job.Stored
import Jobflow.Proofs.Json.Members
import Jobflow.Proofs.Json.Names
import Jobflow.Proofs.Json.Range
import Jobflow.Proofs.Json.Reals
import Jobflow.Proofs.Json.Whole
import Jobflow.Proofs.Page.Overlap
import Jobflow.Proofs.Program
import Jobflow.Proofs.Run.Cancellation
import Jobflow.Proofs.Run.Chronicle
import Jobflow.Proofs.Run.Course
import Jobflow.Proofs.Run.Independence
import Jobflow.Proofs.Run.Mirroring
import Jobflow.Proofs.Run.Seclusion
import Jobflow.Proofs.Run.Sessions
import Jobflow.Proofs.Run.SideBySide
import Jobflow.Proofs.Run.Sources
import Jobflow.Proofs.Run.Stopping
import Jobflow.Proofs.Run.Transparency
import Jobflow.Proofs.Run.Unfolding
import Jobflow.Proofs.Schedule.Draining
import Jobflow.Proofs.Schedule.Independence
import Jobflow.Proofs.Schedule.Keeping
import Jobflow.Proofs.Schedule.Messages
import Jobflow.Proofs.Schedule.Namesakes
import Jobflow.Proofs.Schedule.Polling
import Jobflow.Proofs.Schedule.Sessions
import Jobflow.Proofs.Schedule.Settlement
import Jobflow.Proofs.Schedule.Shutdown
import Jobflow.Proofs.Schedule.Verdict
import Jobflow.Proofs.Text.Digits
import Jobflow.Proofs.Text.Pieces
import Jobflow.Proofs.Text.Trimming
import Jobflow.Proofs.Time.Calendar
import Jobflow.Proofs.Time.Timestamp
import Jobflow.Proofs.Uuid
import Jobflow.Proofs.Workflow.Acceptance
import Jobflow.Proofs.Workflow.Clicks
import Jobflow.Proofs.Workflow.Compilation
import Jobflow.Proofs.Workflow.Execution
import Jobflow.Proofs.Workflow.Exits
import Jobflow.Proofs.Workflow.Failures
import Jobflow.Proofs.Workflow.FatalCalls
import Jobflow.Proofs.Workflow.Fields
import Jobflow.Proofs.Workflow.Filling
import Jobflow.Proofs.Workflow.FirstFault
import Jobflow.Proofs.Workflow.Forms
import Jobflow.Proofs.Workflow.Grammar
import Jobflow.Proofs.Workflow.Heeding
import Jobflow.Proofs.Workflow.InTurn
import Jobflow.Proofs.Workflow.Interpolation
import Jobflow.Proofs.Workflow.LastNode
import Jobflow.Proofs.Workflow.Leftovers
import Jobflow.Proofs.Workflow.Library
import Jobflow.Proofs.Workflow.Names
import Jobflow.Proofs.Workflow.Nodes
import Jobflow.Proofs.Workflow.Outline
import Jobflow.Proofs.Workflow.Pages
import Jobflow.Proofs.Workflow.Positions
import Jobflow.Proofs.Workflow.Readers
import Jobflow.Proofs.Workflow.RoundTrip
import Jobflow.Proofs.Workflow.Sequencing
import Jobflow.Proofs.Workflow.Texts
import Jobflow.Proofs.Workflow.Uncancelled
import Jobflow.Proofs.Workflow.Verdicts
import Jobflow.Rehearsal.Description
import Jobflow.Rehearsal.Script
import Jobflow.Rehearsal.Stage
import Jobflow.Rehearsal.Transcript
import Jobflow.Run.Session
import Jobflow.Run.Timeline
import Jobflow.Schedule.Loop
import Jobflow.Schedule.Poll
import Jobflow.Settings.Basic
import Jobflow.Settings.Document
import Jobflow.Text.Basic
import Jobflow.Text.Quote
import Jobflow.Text.Utf8
import Jobflow.Time.Duration
import Jobflow.Time.Instant
import Jobflow.Time.Timestamp
import Jobflow.Url.Host
import Jobflow.Url.Idna
import Jobflow.Url.Parse
import Jobflow.Url.Punycode
import Jobflow.Uuid
import Jobflow.Workflow.Codec
import Jobflow.Workflow.Command
import Jobflow.Workflow.Compile
import Jobflow.Workflow.Context
import Jobflow.Workflow.Error
import Jobflow.Workflow.Execute
import Jobflow.Workflow.Form
import Jobflow.Workflow.Interpolate
import Jobflow.Workflow.Library
import Jobflow.Yaml.Cursor
import Jobflow.Yaml.Node
import Jobflow.Yaml.Read
import Jobflow.Yaml.Scalar
import Jobflow.Yaml.Token
