import Intake.AddressBook
import Intake.Binary64
import Intake.Config
import Intake.Config.Check
import Intake.Config.Decode
import Intake.Config.Load
import Intake.Config.Override
import Intake.DeletePolicy
import Intake.Delivery
import Intake.Failure
import Intake.Json
import Intake.Json.Reader
import Intake.LeaseStore
import Intake.LeaseStore.Counter
import Intake.LeaseStore.LongPoll
import Intake.Lifecycle
import Intake.Listener.Basic
import Intake.Listener.Build
import Intake.Listener.Call
import Intake.Listener.Job
import Intake.Listener.Poller
import Intake.Listener.React
import Intake.Main
import Intake.Notice
import Intake.Outbox
import Intake.Proofs.Config.Check
import Intake.Proofs.Config.Load
import Intake.Proofs.Config.Override
import Intake.Proofs.Config.Sizing
import Intake.Proofs.DeletePolicy
import Intake.Proofs.Keyed
import Intake.Proofs.LeaseStore.Conserved
import Intake.Proofs.LeaseStore.Contents
import Intake.Proofs.LeaseStore.Counter
import Intake.Proofs.LeaseStore.Delay
import Intake.Proofs.LeaseStore.Errand
import Intake.Proofs.LeaseStore.Lease
import Intake.Proofs.LeaseStore.LongPoll
import Intake.Proofs.LeaseStore.Origin
import Intake.Proofs.LeaseStore.Punctual
import Intake.Proofs.LeaseStore.Receipt
import Intake.Proofs.LeaseStore.Resolution
import Intake.Proofs.LeaseStore.Scan
import Intake.Proofs.LeaseStore.Stay
import Intake.Proofs.LeaseStore.Traffic
import Intake.Proofs.Lifecycle.History
import Intake.Proofs.Listener.Alike
import Intake.Proofs.Listener.Apart
import Intake.Proofs.Listener.Bystander
import Intake.Proofs.Listener.Calls
import Intake.Proofs.Listener.Course
import Intake.Proofs.Listener.Deletion
import Intake.Proofs.Listener.Elsewhere
import Intake.Proofs.Listener.Enrolment
import Intake.Proofs.Listener.Epoch
import Intake.Proofs.Listener.Fate
import Intake.Proofs.Listener.Frame
import Intake.Proofs.Listener.Incumbent
import Intake.Proofs.Listener.Inputs
import Intake.Proofs.Listener.Letter
import Intake.Proofs.Listener.Moves
import Intake.Proofs.Listener.Onward
import Intake.Proofs.Listener.Pace
import Intake.Proofs.Listener.Prompt
import Intake.Proofs.Listener.Room
import Intake.Proofs.Listener.Shutdown
import Intake.Proofs.Listener.SlotBalance
import Intake.Proofs.Listener.SlotWait
import Intake.Proofs.Listener.Sound
import Intake.Proofs.Listener.Staffing
import Intake.Proofs.Listener.Standing
import Intake.Proofs.Listener.Stop
import Intake.Proofs.Listener.Turn
import Intake.Proofs.Listener.Undisturbed
import Intake.Proofs.Listener.View
import Intake.Proofs.Listener.Waiting
import Intake.Proofs.Listener.WindDown
import Intake.Proofs.Outbox
import Intake.Proofs.Site.Custody
import Intake.Proofs.Slots.Await
import Intake.Proofs.Slots.Waits
import Intake.Proofs.Sqs.Receive
import Intake.Proofs.Text
import Intake.Proofs.Timeline
import Intake.Proofs.Workers
import Intake.Proofs.Workers.Discipline
import Intake.Proofs.Workers.Drain
import Intake.Proofs.Workers.Prompt
import Intake.Proofs.Workers.Shift
import Intake.QueueOptions
import Intake.Rehearsal.Broker
import Intake.Rehearsal.Conduct
import Intake.Rehearsal.FileTree
import Intake.Rehearsal.Program
import Intake.Rehearsal.Scene
import Intake.Rehearsal.Script
import Intake.Service
import Intake.Service.EnvFile
import Intake.Service.Heartbeat
import Intake.Service.LogFilter
import Intake.Service.Report
import Intake.Slots
import Intake.Slots.Waits
import Intake.Source
import Intake.Sqs.Client
import Intake.Sqs.Dialogue
import Intake.Sqs.Message
import Intake.Table
import Intake.Text.Blank
import Intake.Text.Decimal
import Intake.Text.Hex
import Intake.Text.Quoted
import Intake.Text.Search
import Intake.Text.Upper
import Intake.Text.Visible
import Intake.Timeline
import Intake.Toml.Blank
import Intake.Toml.Document
import Intake.Toml.Entry
import Intake.Toml.Moment
import Intake.Toml.Node
import Intake.Toml.Number
import Intake.Toml.Quotation
import Intake.Toml.Value
import Intake.Word
import Intake.Workers
import Intake.Workers.Shift
