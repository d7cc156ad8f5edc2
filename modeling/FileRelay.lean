import FileRelay.Identifier
import FileRelay.Decimal
import FileRelay.Duration
import FileRelay.IdPool
import FileRelay.Failure
import FileRelay.TimeSpan
import FileRelay.TimeSpan.Text
import FileRelay.OpenMode
import FileRelay.Provider.Request
import FileRelay.Provider.Reply
import FileRelay.Provider.Message
import FileRelay.Mount.Settings
import FileRelay.Mount.OpenFiles
import FileRelay.Mount.Operation
import FileRelay.Engine.Call
import FileRelay.Engine.Ledger
import FileRelay.Engine.Clock
import FileRelay.Engine.Notice
import FileRelay.Engine.Event
import FileRelay.Engine.Link
import FileRelay.Engine.Task
import FileRelay.Engine.State
import FileRelay.Engine.Requests
import FileRelay.Engine.Transport
import FileRelay.Engine.Completion
import FileRelay.Engine.Routing
import FileRelay.Engine.PoolCall
import FileRelay.Engine.Serve
import FileRelay.Engine.Step
import FileRelay.Wire.Json
import FileRelay.Wire.Provider
import FileRelay.Wire.Message
import FileRelay.Wire.Settings
import FileRelay.Session.Start
import FileRelay.Session.View
import FileRelay.Session.Tables
import FileRelay.Toml.Table
import FileRelay.Toml.Reader
import FileRelay.Toml.Quoted
import FileRelay.Toml.Number
import FileRelay.Toml.Document
import FileRelay.Mount.Document
import FileRelay.Proofs.Run
import FileRelay.Proofs.Change
import FileRelay.Proofs.Change.Tasks
import FileRelay.Proofs.Upkeep
import FileRelay.Proofs.Ids
import FileRelay.Proofs.Ownership
import FileRelay.Proofs.Trace
import FileRelay.Proofs.Fate
import FileRelay.Proofs.Completion
import FileRelay.Proofs.Facade
import FileRelay.Proofs.MountIds
import FileRelay.Proofs.Course
import FileRelay.Proofs.Calm
import FileRelay.Proofs.Deed
import FileRelay.Proofs.HandOver
import FileRelay.Proofs.Parts
import FileRelay.Proofs.Streams
import FileRelay.Proofs.Debt
import FileRelay.Proofs.Filing
import FileRelay.Proofs.Joined
import FileRelay.Proofs.Closing
import FileRelay.Proofs.Registry
import FileRelay.Proofs.Handles
import FileRelay.Proofs.Marks
import FileRelay.Proofs.Steady
import FileRelay.Proofs.Nesting
import FileRelay.Proofs.Shutdown
import FileRelay.Proofs.Unmount
import FileRelay.Proofs.Expiry
import FileRelay.Proofs.Deadlines
import FileRelay.Proofs.Timekeeping
import FileRelay.Proofs.Telling
import FileRelay.Proofs.Shelter
import FileRelay.Proofs.Rounds
import FileRelay.Proofs.Observers
import FileRelay.Proofs.Cancelling
import FileRelay.Proofs.Slots
import FileRelay.Proofs.Authority
import FileRelay.Proofs.Tolerance
import FileRelay.Proofs.Wire
import FileRelay.Proofs.Sweep
import FileRelay.Proofs.Behind
import FileRelay.Proofs.Mirror
import FileRelay.Proofs.Replay
import FileRelay.Proofs.Lane
import FileRelay.Proofs.Driver
import FileRelay.Proofs.Search
import FileRelay.Proofs.Laps
import FileRelay.Proofs.Verdict
import FileRelay.Proofs.Contract
import FileRelay.Proofs.Replying
import FileRelay.Proofs.Independence
import FileRelay.Proofs.Lengths
import FileRelay.Proofs.Spelling
import FileRelay.Proofs.Settings
