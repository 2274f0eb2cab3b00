import Holdfast.Binder
import Holdfast.Bytes
import Holdfast.Cli
import Holdfast.Cli.Arguments
import Holdfast.Datasets
import Holdfast.Decimal.Binary
import Holdfast.Decimal.Digits
import Holdfast.Decimal.Shortest
import Holdfast.Device
import Holdfast.Disk
import Holdfast.Disk.Edit
import Holdfast.Disk.Route
import Holdfast.Document
import Holdfast.Document.Printer
import Holdfast.Document.Reader
import Holdfast.Engine.Calls
import Holdfast.Engine.Full
import Holdfast.Engine.Loop
import Holdfast.Engine.Restore
import Holdfast.Engine.Start
import Holdfast.Engine.State
import Holdfast.Engine.Tasks
import Holdfast.Engine.Upkeep
import Holdfast.Fault
import Holdfast.Journal
import Holdfast.Journal.Written
import Holdfast.Main
import Holdfast.NameSet
import Holdfast.Operation
import Holdfast.Operation.Table
import Holdfast.Package
import Holdfast.Pass
import Holdfast.Pass.Lifecycle
import Holdfast.Pending
import Holdfast.Policy
import Holdfast.Processed
import Holdfast.Record
import Holdfast.Record.Field
import Holdfast.Schedule
import Holdfast.Settings
import Holdfast.Settings.Layer
import Holdfast.Settings.Load
import Holdfast.Site
import Holdfast.Sorting
import Holdfast.Store
import Holdfast.Text.Blank
import Holdfast.Text.Shown
import Holdfast.Text.Unseen
import Holdfast.Toml.DateTime
import Holdfast.Toml.Defect
import Holdfast.Toml.Marked
import Holdfast.Toml.Moment
import Holdfast.Toml.Number
import Holdfast.Toml.Quoted
import Holdfast.Toml.Reader
import Holdfast.Toml.Table
import Holdfast.Transport
import Holdfast.Transport.Registry
import Holdfast.Utf8
import Holdfast.Wire
import Holdfast.Proofs.Utf8
import Holdfast.Proofs.Bytes
import Holdfast.Proofs.Record
import Holdfast.Proofs.Record.Fields
import Holdfast.Proofs.Record.Texts
import Holdfast.Proofs.Disk
import Holdfast.Proofs.Disk.Crash
import Holdfast.Proofs.Disk.Files
import Holdfast.Proofs.Journal
import Holdfast.Proofs.Pending.Staging
import Holdfast.Proofs.Pending.Durability
import Holdfast.Proofs.Pending.Refused
import Holdfast.Proofs.Pending.Handover
import Holdfast.Proofs.Operation.Outcome
import Holdfast.Proofs.Operation.Deadline
import Holdfast.Proofs.Operation.Tokens
import Holdfast.Proofs.Pass
import Holdfast.Proofs.Schedule
import Holdfast.Proofs.Schedule.File
import Holdfast.Proofs.Processed
import Holdfast.Proofs.Datasets
import Holdfast.Proofs.Engine.Outcomes
import Holdfast.Proofs.Engine.Footprint
import Holdfast.Proofs.Engine.FootprintWork
import Holdfast.Proofs.Engine.Accounts
import Holdfast.Proofs.Engine.Calls
import Holdfast.Proofs.Engine.Requests
import Holdfast.Proofs.Engine.Resources
import Holdfast.Proofs.Engine.Chronicle
import Holdfast.Proofs.Engine.Course
import Holdfast.Proofs.Engine.Rounds
import Holdfast.Proofs.Engine.KeyValue
import Holdfast.Proofs.Engine.Drained
import Holdfast.Proofs.Pending.Union
import Holdfast.Proofs.Engine.Desk
import Holdfast.Proofs.Engine.Matters
import Holdfast.Proofs.Engine.Alarms
import Holdfast.Proofs.Engine.Confinement
import Holdfast.Proofs.Engine.Expiry
import Holdfast.Proofs.Engine.Agenda
import Holdfast.Proofs.Engine.Errands
import Holdfast.Proofs.Engine.Selection
import Holdfast.Proofs.Engine.AgendaWork
import Holdfast.Proofs.Engine.Affairs
import Holdfast.Proofs.Engine.Slot
import Holdfast.Proofs.Engine.Participation
import Holdfast.Proofs.Engine.Arming
import Holdfast.Proofs.Disk.Preserved
import Holdfast.Proofs.Engine.Preserved
import Holdfast.Proofs.Engine.PreservedWork
import Holdfast.Proofs.Engine.Filed
import Holdfast.Proofs.Disk.Changes
import Holdfast.Proofs.Disk.Ways
import Holdfast.Proofs.Disk.Replaced
import Holdfast.Proofs.Transport.Marks
import Holdfast.Proofs.Engine.Wiping
import Holdfast.Proofs.Engine.Roster
import Holdfast.Proofs.Engine.RosterWork
import Holdfast.Proofs.Engine.Duties
import Holdfast.Proofs.Engine.WipesDue
import Holdfast.Proofs.Engine.Canceled
import Holdfast.Proofs.Engine.Trail
import Holdfast.Proofs.Engine.Halting
import Holdfast.Proofs.Engine.DueTimes
import Holdfast.Proofs.Engine.Stock
import Holdfast.Proofs.Engine.StockWork
import Holdfast.Proofs.Engine.Offers
import Holdfast.Proofs.Engine.Unheard
import Holdfast.Proofs.Engine.Stranded
import Holdfast.Proofs.Engine.Choice
import Holdfast.Proofs.Engine.Sessions
import Holdfast.Proofs.Engine.Front
import Holdfast.Proofs.Engine.FrontWork
import Holdfast.Proofs.Engine.FrontCalls
import Holdfast.Proofs.Engine.Binds
import Holdfast.Proofs.Binder
import Holdfast.Proofs.Engine.PushedBack
