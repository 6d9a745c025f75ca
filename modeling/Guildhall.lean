import Guildhall.Assoc
import Guildhall.Chat.Action
import Guildhall.Chat.Bot
import Guildhall.Chat.Message
import Guildhall.Chat.Reply
import Guildhall.Cli.Arguments
import Guildhall.Cli.Run
import Guildhall.Cli.Usage
import Guildhall.Command.Definition
import Guildhall.Command.Description
import Guildhall.Command.Help
import Guildhall.Command.Path
import Guildhall.Command.Registry
import Guildhall.Command.Token
import Guildhall.Command.Tree
import Guildhall.Config.EnvFile
import Guildhall.Config.Place
import Guildhall.Config.Settings
import Guildhall.Dispatch.Cache
import Guildhall.Dispatch.Context
import Guildhall.Dispatch.Dispatcher
import Guildhall.Dispatch.Script
import Guildhall.Failure
import Guildhall.Failure.Details
import Guildhall.Feature.Jobs
import Guildhall.Feature.Mention
import Guildhall.Feature.Permissions
import Guildhall.Feature.Uptime
import Guildhall.Hook.Bus
import Guildhall.Hook.Delivery
import Guildhall.Hook.Event
import Guildhall.Http.AccessLog
import Guildhall.Http.Api
import Guildhall.Http.Exchange
import Guildhall.Job.Job
import Guildhall.Job.Listing
import Guildhall.Job.Scheduler
import Guildhall.Json.Reader
import Guildhall.Json.Writer
import Guildhall.Main
import Guildhall.Number.Double
import Guildhall.Number.Numeral
import Guildhall.Permission.Document
import Guildhall.Permission.File
import Guildhall.Permission.Grants
import Guildhall.Permission.Node
import Guildhall.Permission.Request
import Guildhall.Permission.Resolver
import Guildhall.Permission.Store
import Guildhall.Proofs.Base
import Guildhall.Proofs.Chat.Arguments
import Guildhall.Proofs.Command.Calls
import Guildhall.Proofs.Command.Forest
import Guildhall.Proofs.Command.Order
import Guildhall.Proofs.Command.Registry
import Guildhall.Proofs.Command.Token
import Guildhall.Proofs.Dispatch.Ending
import Guildhall.Proofs.Dispatch.Gate
import Guildhall.Proofs.Dispatch.Journal
import Guildhall.Proofs.Dispatch.Raising
import Guildhall.Proofs.Feature.Permissions
import Guildhall.Proofs.Hook.Account
import Guildhall.Proofs.Hook.Run
import Guildhall.Proofs.Hook.Timeline
import Guildhall.Proofs.Job.Clockwork
import Guildhall.Proofs.Job.Conservation
import Guildhall.Proofs.Job.Exclusion
import Guildhall.Proofs.Job.Grid
import Guildhall.Proofs.Job.History
import Guildhall.Proofs.Job.Lifetime
import Guildhall.Proofs.Job.Orderly
import Guildhall.Proofs.Job.Pending
import Guildhall.Proofs.Job.Scheduler
import Guildhall.Proofs.Job.Stop
import Guildhall.Proofs.Permission.Alike
import Guildhall.Proofs.Permission.Document
import Guildhall.Proofs.Permission.Grants
import Guildhall.Proofs.Permission.Node
import Guildhall.Proofs.Permission.Reading
import Guildhall.Proofs.Permission.Removal
import Guildhall.Proofs.Permission.Replay
import Guildhall.Proofs.Permission.Shared
import Guildhall.Proofs.Permission.Store
import Guildhall.Proofs.Schedule.At
import Guildhall.Proofs.Schedule.Interval
import Guildhall.Proofs.Text.Case
import Guildhall.Proofs.Time.Calendar
import Guildhall.Proofs.Time.Zone
import Guildhall.Proofs.Value
import Guildhall.Proofs.Yaml.Writer
import Guildhall.Schedule.At
import Guildhall.Schedule.Cron
import Guildhall.Schedule.Cron.Field
import Guildhall.Schedule.Cron.Search
import Guildhall.Schedule.Description
import Guildhall.Schedule.Interval
import Guildhall.Schedule.Schedule
import Guildhall.Service.Archive
import Guildhall.Service.Body
import Guildhall.Service.Service
import Guildhall.Service.Setup
import Guildhall.Simulation.Behaviour
import Guildhall.Simulation.Clockwork
import Guildhall.Simulation.Heartbeat
import Guildhall.Simulation.Together
import Guildhall.Simulation.Watched
import Guildhall.Text.Blank
import Guildhall.Text.Case
import Guildhall.Text.CaseRuns
import Guildhall.Text.Lines
import Guildhall.Text.Quoted
import Guildhall.Text.Ranges
import Guildhall.Text.Utf8
import Guildhall.Time.Calendar
import Guildhall.Time.Duration
import Guildhall.Time.Moment
import Guildhall.Time.Stamp
import Guildhall.Time.TimeOfDay
import Guildhall.Time.Zone
import Guildhall.Value
import Guildhall.Yaml.Reader
import Guildhall.Yaml.Scalar
import Guildhall.Yaml.Scanner
import Guildhall.Yaml.Writer
import Guildhall.Proofs.Permission.Coverage
import Guildhall.Proofs.Permission.Effective
import Guildhall.Proofs.Command.Lookup
import Guildhall.Proofs.Job.Claiming
import Guildhall.Proofs.Schedule.Earliest
import Guildhall.Proofs.Schedule.Succession
import Guildhall.Proofs.Job.Failing
import Guildhall.Proofs.Schedule.Cron
import Guildhall.Proofs.Job.Forward
import Guildhall.Proofs.Permission.RoundTrip
import Guildhall.Proofs.Permission.Shape
import Guildhall.Proofs.Permission.Meeting
import Guildhall.Proofs.Permission.Rejected
import Guildhall.Proofs.Permission.Unsaved
import Guildhall.Proofs.Dispatch.Lookups
import Guildhall.Proofs.Feature.Orders
import Guildhall.Proofs.Feature.Report
import Guildhall.Proofs.Chat.Discretion
import Guildhall.Proofs.Dispatch.Resolving
import Guildhall.Proofs.Config.EnvFile
import Guildhall.Proofs.Text.Lines
import Guildhall.Proofs.Config.Settings
import Guildhall.Proofs.Permission.Interleaving
import Guildhall.Proofs.Hook.Closing
import Guildhall.Proofs.Command.Quotation
import Guildhall.Proofs.Command.Traversal
import Guildhall.Proofs.Schedule.Times
import Guildhall.Proofs.Http.Guard
