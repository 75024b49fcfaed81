import StateEngine.Callback
import StateEngine.Definition.Basic
import StateEngine.Definition.Compile
import StateEngine.Definition.Declaration
import StateEngine.Definition.Error
import StateEngine.Definition.Reading
import StateEngine.Definition.Record
import StateEngine.History.Basic
import StateEngine.History.Calendar
import StateEngine.History.Timestamp
import StateEngine.Json.Basic
import StateEngine.Json.Reader
import StateEngine.Json.Token
import StateEngine.Json.Writer
import StateEngine.Machine.Basic
import StateEngine.Machine.Build
import StateEngine.Machine.Change
import StateEngine.Machine.Dispatch
import StateEngine.Machine.Driver
import StateEngine.Machine.Error
import StateEngine.Machine.Operation
import StateEngine.Machine.Perform
import StateEngine.Machine.Program
import StateEngine.Machine.Resolve
import StateEngine.Machine.Roster
import StateEngine.Machine.World
import StateEngine.Number.Double
import StateEngine.Number.Literal
import StateEngine.Number.Shortest
import StateEngine.Phase
import StateEngine.Proofs.Abort
import StateEngine.Proofs.Commit
import StateEngine.Proofs.Course
import StateEngine.Proofs.Driving
import StateEngine.Proofs.Interpret
import StateEngine.Proofs.Known
import StateEngine.Proofs.Points
import StateEngine.Proofs.Reading
import StateEngine.Proofs.Rejection
import StateEngine.Proofs.Scripts
import StateEngine.Proofs.Status
import StateEngine.Proofs.Story
import StateEngine.Proofs.Turns
import StateEngine.Proofs.Walk
import StateEngine.Script.Answer
import StateEngine.Script.Basic
import StateEngine.Script.Host
import StateEngine.StateName
import StateEngine.Target
import StateEngine.Text.Camel
import StateEngine.Text.Quoted
import StateEngine.Text.Uppercase
import StateEngine.Text.Visible
import StateEngine.Transition.Basic
import StateEngine.Transition.Rejection
import StateEngine.Proofs.History
import StateEngine.Machine.Performance
import StateEngine.Proofs.Performance
import StateEngine.Definition.Acceptance
import StateEngine.Proofs.Acceptance
import StateEngine.Proofs.ErrorEvent
import StateEngine.Machine.Selection
import StateEngine.Proofs.Selection
import StateEngine.Proofs.Listening
import StateEngine.Proofs.Failing
import StateEngine.Machine.Entering
import StateEngine.Proofs.Entering
import StateEngine.Proofs.Passing
import StateEngine.Proofs.Sending
import StateEngine.Machine.Polling
import StateEngine.Proofs.Polling
import StateEngine.Machine.Plan
import StateEngine.Proofs.Plan
import StateEngine.Proofs.Schedule
import StateEngine.Machine.Book
import StateEngine.Proofs.Crowd
import StateEngine.Proofs.Book
import StateEngine.Proofs.Index
import StateEngine.Proofs.Accessors
import StateEngine.Machine.Interference
import StateEngine.Proofs.Interference
import StateEngine.Proofs.Blindness
import StateEngine.Proofs.Bookkeeping
import StateEngine.Proofs.Writing
import StateEngine.Proofs.Keeping
import StateEngine.Proofs.Lifecycle
import StateEngine.Proofs.Nulls
import StateEngine.Proofs.Namespaces
import StateEngine.Proofs.Identifiers
import StateEngine.Proofs.Calendar
import StateEngine.Proofs.Text
import StateEngine.Proofs.Storing
import StateEngine.Proofs.Camel
import StateEngine.Proofs.Meaning
