import ClaimQueue.Broker.Address
import ClaimQueue.Broker.Calls
import ClaimQueue.Broker.Clients
import ClaimQueue.Broker.Command
import ClaimQueue.Broker.Entry
import ClaimQueue.Broker.Frame
import ClaimQueue.Broker.Link
import ClaimQueue.Broker.Reply
import ClaimQueue.Broker.Results
import ClaimQueue.Broker.Scripted
import ClaimQueue.Broker.Server
import ClaimQueue.CommandLine.Errand
import ClaimQueue.CommandLine.Grammar
import ClaimQueue.CommandLine.Invocation
import ClaimQueue.CommandLine.Refusal
import ClaimQueue.CommandLine.Rehearsal
import ClaimQueue.CommandLine.Surroundings
import ClaimQueue.CommandLine.Usage
import ClaimQueue.Failure
import ClaimQueue.Files.Directory
import ClaimQueue.Files.Name
import ClaimQueue.Files.Results
import ClaimQueue.Fleet.Launching
import ClaimQueue.Fleet.Patrol
import ClaimQueue.Fleet.Reaper
import ClaimQueue.Fleet.Spawner
import ClaimQueue.Handler.Basic
import ClaimQueue.Handler.Child
import ClaimQueue.Handler.Registry
import ClaimQueue.Handler.Rehearsal
import ClaimQueue.Handler.Sandbox
import ClaimQueue.Handler.Scripted
import ClaimQueue.Index
import ClaimQueue.Json.Decoder
import ClaimQueue.Json.Fault
import ClaimQueue.Json.Printer
import ClaimQueue.Json.Reader
import ClaimQueue.Json.Record
import ClaimQueue.Json.Scan
import ClaimQueue.Json.Value
import ClaimQueue.Local.Audience
import ClaimQueue.Local.Callers
import ClaimQueue.Local.Calls
import ClaimQueue.Local.Contents
import ClaimQueue.Local.Crowd
import ClaimQueue.Local.Wakeup
import ClaimQueue.Main
import ClaimQueue.Number.Binary64
import ClaimQueue.Number.Digits
import ClaimQueue.Number.Power
import ClaimQueue.Number.Shortest
import ClaimQueue.Program
import ClaimQueue.Proofs.Agreement.Calls
import ClaimQueue.Proofs.Agreement.Letters
import ClaimQueue.Proofs.Agreement.Listing
import ClaimQueue.Proofs.Agreement.Mirror
import ClaimQueue.Proofs.Agreement.Reclaim
import ClaimQueue.Proofs.Agreement.Runs
import ClaimQueue.Proofs.Agreement.Turns
import ClaimQueue.Proofs.Agreement.Waiting
import ClaimQueue.Proofs.Broker.Acts
import ClaimQueue.Proofs.Broker.Answers
import ClaimQueue.Proofs.Broker.Burial
import ClaimQueue.Proofs.Broker.Claims
import ClaimQueue.Proofs.Broker.Contest
import ClaimQueue.Proofs.Broker.Copies
import ClaimQueue.Proofs.Broker.Course
import ClaimQueue.Proofs.Broker.Delivery
import ClaimQueue.Proofs.Broker.Holders
import ClaimQueue.Proofs.Broker.Hygiene
import ClaimQueue.Proofs.Broker.Jobs
import ClaimQueue.Proofs.Broker.Lateness
import ClaimQueue.Proofs.Broker.Letters
import ClaimQueue.Proofs.Broker.Listing
import ClaimQueue.Proofs.Broker.Offers
import ClaimQueue.Proofs.Broker.Outcomes
import ClaimQueue.Proofs.Broker.Pruning
import ClaimQueue.Proofs.Broker.Questions
import ClaimQueue.Proofs.Broker.Refusals
import ClaimQueue.Proofs.Broker.Replay
import ClaimQueue.Proofs.Broker.Replies
import ClaimQueue.Proofs.Broker.Rivals
import ClaimQueue.Proofs.Broker.Scanning
import ClaimQueue.Proofs.Broker.Sifting
import ClaimQueue.Proofs.Broker.Stock
import ClaimQueue.Proofs.Broker.Stream
import ClaimQueue.Proofs.Broker.Taking
import ClaimQueue.Proofs.Broker.TakingBack
import ClaimQueue.Proofs.Broker.Treatment
import ClaimQueue.Proofs.CommandLine.Acceptance
import ClaimQueue.Proofs.CommandLine.Export
import ClaimQueue.Proofs.Files.Copies
import ClaimQueue.Proofs.Files.Crashes
import ClaimQueue.Proofs.Files.Listing
import ClaimQueue.Proofs.Files.Names
import ClaimQueue.Proofs.Files.Reading
import ClaimQueue.Proofs.Files.Results
import ClaimQueue.Proofs.Files.Saved
import ClaimQueue.Proofs.Fleet.Convergence
import ClaimQueue.Proofs.Handler.Child
import ClaimQueue.Proofs.Handler.Registry
import ClaimQueue.Proofs.Index
import ClaimQueue.Proofs.Json.Decimals
import ClaimQueue.Proofs.Json.Decoding
import ClaimQueue.Proofs.Json.Depth
import ClaimQueue.Proofs.Json.Documents
import ClaimQueue.Proofs.Json.Doubles
import ClaimQueue.Proofs.Json.Fields
import ClaimQueue.Proofs.Json.Forms
import ClaimQueue.Proofs.Json.Grammar
import ClaimQueue.Proofs.Json.Integral
import ClaimQueue.Proofs.Json.Layout
import ClaimQueue.Proofs.Json.Legible
import ClaimQueue.Proofs.Json.Numbers
import ClaimQueue.Proofs.Json.Plain
import ClaimQueue.Proofs.Json.Reading
import ClaimQueue.Proofs.Json.Records
import ClaimQueue.Proofs.Json.Reread
import ClaimQueue.Proofs.Json.Strings
import ClaimQueue.Proofs.Json.Tokens
import ClaimQueue.Proofs.Json.Unknown
import ClaimQueue.Proofs.Local.Announcements
import ClaimQueue.Proofs.Local.Attempts
import ClaimQueue.Proofs.Local.Awaiting
import ClaimQueue.Proofs.Local.Deeds
import ClaimQueue.Proofs.Local.History
import ClaimQueue.Proofs.Local.Listing
import ClaimQueue.Proofs.Local.Overdue
import ClaimQueue.Proofs.Local.Places
import ClaimQueue.Proofs.Local.Polls
import ClaimQueue.Proofs.Local.Records
import ClaimQueue.Proofs.Local.Results
import ClaimQueue.Proofs.Local.Rings
import ClaimQueue.Proofs.Local.Runs
import ClaimQueue.Proofs.Local.Waits
import ClaimQueue.Proofs.Local.Wakeups
import ClaimQueue.Proofs.Local.Watch
import ClaimQueue.Proofs.Number.Decimal
import ClaimQueue.Proofs.Number.Rounding
import ClaimQueue.Proofs.Number.Shortest
import ClaimQueue.Proofs.Program
import ClaimQueue.Proofs.Simulation.Alone
import ClaimQueue.Proofs.Simulation.Asked
import ClaimQueue.Proofs.Simulation.Claims
import ClaimQueue.Proofs.Simulation.Errands
import ClaimQueue.Proofs.Simulation.Leaving
import ClaimQueue.Proofs.Simulation.Passing
import ClaimQueue.Proofs.Task.Capability
import ClaimQueue.Proofs.Task.Depth
import ClaimQueue.Proofs.Task.Document
import ClaimQueue.Proofs.Task.Exact
import ClaimQueue.Proofs.Task.Latest
import ClaimQueue.Proofs.Task.Legible
import ClaimQueue.Proofs.Task.Schema
import ClaimQueue.Proofs.Task.Unknown
import ClaimQueue.Proofs.Task.Work
import ClaimQueue.Proofs.Text.Order
import ClaimQueue.Proofs.Text.Pieces
import ClaimQueue.Proofs.Text.Utf8
import ClaimQueue.Proofs.Time.Elapsed
import ClaimQueue.Proofs.Time.Rfc3339
import ClaimQueue.Proofs.Ulid
import ClaimQueue.Proofs.Worker.Dealings
import ClaimQueue.Proofs.Worker.Ledger
import ClaimQueue.Proofs.Worker.Limits
import ClaimQueue.Proofs.Worker.Readiness
import ClaimQueue.Proofs.Worker.Routing
import ClaimQueue.Proofs.Worker.Runs
import ClaimQueue.Queue.Call
import ClaimQueue.Queue.DeadLetter
import ClaimQueue.Queue.Error
import ClaimQueue.Queue.Observed
import ClaimQueue.Simulation.Answer
import ClaimQueue.Simulation.Fleet
import ClaimQueue.Simulation.Run
import ClaimQueue.Simulation.Shift
import ClaimQueue.Simulation.World
import ClaimQueue.Task.Basic
import ClaimQueue.Task.Capability
import ClaimQueue.Task.Kind
import ClaimQueue.Task.Result
import ClaimQueue.Task.Retry
import ClaimQueue.Task.Wire
import ClaimQueue.Text.Blank
import ClaimQueue.Text.Concealed
import ClaimQueue.Text.Pieces
import ClaimQueue.Text.Quoted
import ClaimQueue.Text.Utf8
import ClaimQueue.Time.Date
import ClaimQueue.Time.Instant
import ClaimQueue.Time.Rfc3339
import ClaimQueue.Time.Span
import ClaimQueue.Ulid
import ClaimQueue.Worker.Config
import ClaimQueue.Worker.Observed
import ClaimQueue.Worker.Run
