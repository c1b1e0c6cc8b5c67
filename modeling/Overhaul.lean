import Overhaul.Actor
import Overhaul.Calendar
import Overhaul.CommandLine.Caller
import Overhaul.CommandLine.FileTree
import Overhaul.CommandLine.Invocation
import Overhaul.CommandLine.Options
import Overhaul.CommandLine.Run
import Overhaul.CommandLine.ScheduleFile
import Overhaul.Conflict
import Overhaul.Decimal.Binary64
import Overhaul.Decimal.Shortest
import Overhaul.Dependency
import Overhaul.Error
import Overhaul.Id
import Overhaul.Id.Fresh
import Overhaul.Id.Seen
import Overhaul.Json.Node
import Overhaul.Json.Number
import Overhaul.Json.Printer
import Overhaul.Json.Token
import Overhaul.Json.Value
import Overhaul.LockTable
import Overhaul.Main
import Overhaul.Outbox
import Overhaul.Proofs.Answers
import Overhaul.Proofs.Atomic
import Overhaul.Proofs.BeyondUtc
import Overhaul.Proofs.Calls
import Overhaul.Proofs.CommandLine.Aftermath
import Overhaul.Proofs.CommandLine.Savable
import Overhaul.Proofs.CommandLine.Sitting
import Overhaul.Proofs.CommandLine.Turns
import Overhaul.Proofs.Concurrency.Approach
import Overhaul.Proofs.Concurrency.Balanced
import Overhaul.Proofs.Concurrency.Concerns
import Overhaul.Proofs.Concurrency.Fences
import Overhaul.Proofs.Concurrency.Guards
import Overhaul.Proofs.Concurrency.Interleaving
import Overhaul.Proofs.Concurrency.Progress
import Overhaul.Proofs.Concurrency.Sections
import Overhaul.Proofs.Concurrency.Serializable
import Overhaul.Proofs.Conflicts
import Overhaul.Proofs.Conflicts.Report
import Overhaul.Proofs.Course
import Overhaul.Proofs.Demand
import Overhaul.Proofs.Dependencies.Acyclic
import Overhaul.Proofs.Dependencies.Decided
import Overhaul.Proofs.Dependencies.Search
import Overhaul.Proofs.GivenUp
import Overhaul.Proofs.History
import Overhaul.Proofs.Isolation.Administration
import Overhaul.Proofs.Isolation.Confined
import Overhaul.Proofs.Isolation.Noninterference
import Overhaul.Proofs.Json.Documents
import Overhaul.Proofs.Json.Scan
import Overhaul.Proofs.Landing
import Overhaul.Proofs.Operations
import Overhaul.Proofs.Outbox.Announced
import Overhaul.Proofs.Outbox.Delivered
import Overhaul.Proofs.Outbox.Heedless
import Overhaul.Proofs.Parts
import Overhaul.Proofs.Quiet
import Overhaul.Proofs.Record.Reading
import Overhaul.Proofs.Record.RoundTrip
import Overhaul.Proofs.Record.Text
import Overhaul.Proofs.Reschedule.AllOrNothing
import Overhaul.Proofs.Reschedule.Cascade
import Overhaul.Proofs.Reschedule.Composition
import Overhaul.Proofs.Reschedule.Draft
import Overhaul.Proofs.Reschedule.Independence
import Overhaul.Proofs.Reschedule.Order
import Overhaul.Proofs.Reschedule.Outcome
import Overhaul.Proofs.Reschedule.Permitted
import Overhaul.Proofs.Reschedule.Postponed
import Overhaul.Proofs.Reschedule.Refused
import Overhaul.Proofs.Reschedule.Stopped
import Overhaul.Proofs.Reschedule.Walk
import Overhaul.Proofs.Reschedule.Writing
import Overhaul.Proofs.Session
import Overhaul.Proofs.Store.Alike
import Overhaul.Proofs.Store.Durable
import Overhaul.Proofs.Store.Edits
import Overhaul.Proofs.Store.Index
import Overhaul.Proofs.Store.Linked
import Overhaul.Proofs.Store.Loading
import Overhaul.Proofs.Store.Order
import Overhaul.Proofs.Store.Saving
import Overhaul.Proofs.Store.Sessions
import Overhaul.Proofs.Store.Times
import Overhaul.Proofs.Table
import Overhaul.Proofs.Task.Lifecycle
import Overhaul.Proofs.Task.Permission
import Overhaul.Proofs.Task.Records
import Overhaul.Proofs.Task.Window
import Overhaul.Proofs.Timestamp.Written
import Overhaul.Proofs.Timestamp.Years
import Overhaul.Proofs.Transcript
import Overhaul.Proofs.Viewers
import Overhaul.Proofs.Visits
import Overhaul.Record.Basic
import Overhaul.Record.Scalar
import Overhaul.Record.Schedule
import Overhaul.ScheduleChange
import Overhaul.Service.Conflicts
import Overhaul.Service.Context
import Overhaul.Service.Dependencies
import Overhaul.Service.Operation
import Overhaul.Service.Program
import Overhaul.Service.Reschedule
import Overhaul.Service.Transitions
import Overhaul.Settings
import Overhaul.Settings.File
import Overhaul.Store.Basic
import Overhaul.Store.Links
import Overhaul.Store.Snapshot
import Overhaul.Table
import Overhaul.Task
import Overhaul.Task.Transition
import Overhaul.Task.Window
import Overhaul.Text.Blank
import Overhaul.Text.Digits
import Overhaul.Text.Name
import Overhaul.Timestamp
import Overhaul.Timestamp.Rfc3339
import Overhaul.Toml.Document
import Overhaul.Toml.Printer
import Overhaul.Toml.Quoted
import Overhaul.Toml.Scalar
import Overhaul.Toml.Tree
import Overhaul.World
