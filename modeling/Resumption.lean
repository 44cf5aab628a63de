import Resumption.Value
import Resumption.Datum
import Resumption.Failure
import Resumption.Program
import Resumption.Closure
import Resumption.Task.Moment
import Resumption.Session
import Resumption.Run
import Resumption.Property
import Resumption.Picture
import Resumption.Raise
import Resumption.Label
import Resumption.Future
import Resumption.Context
import Resumption.Promise
import Resumption.Awaiter
import Resumption.Await
import Resumption.Construct.Sequence
import Resumption.Construct.Loop
import Resumption.Construct.Recovery
import Resumption.Construct.Cleanup
import Resumption.Construct.Iteration
import Resumption.Task.Event
import Resumption.Task.Driver
import Resumption.Task.Start
import Resumption.Probe
import Resumption.Evaluate
import Resumption.Jobs
import Resumption.Script.Expr
import Resumption.Script.Vocabulary
import Resumption.Script.Reading
import Resumption.Script.Meaning
import Resumption.Script.Transcript
import Resumption.Proofs.Ensures
import Resumption.Proofs.World.Values
import Resumption.Proofs.World.Futures
import Resumption.Proofs.World.Library
import Resumption.Proofs.World.Drivers
import Resumption.Proofs.World.Advances
import Resumption.Proofs.Task.Course
import Resumption.Proofs.Task.Alternation
import Resumption.Proofs.Task.Conclusion
import Resumption.Proofs.Task.Driving
import Resumption.Proofs.Task.Tables
import Resumption.Proofs.Task.Constructs
import Resumption.Proofs.Task.Notices
import Resumption.Proofs.Task.Work
import Resumption.Proofs.Task.Ends
import Resumption.Proofs.Task.HandOff
import Resumption.Proofs.Task.Launch
import Resumption.Proofs.Task.Service
import Resumption.Proofs.Task.Reachable
import Resumption.Proofs.Task.Guarantees
import Resumption.Proofs.Task.Waiting
import Resumption.Proofs.Task.Returning
import Resumption.Proofs.Task.Isolation
import Resumption.Proofs.Routine
import Resumption.Proofs.Routine.Reading
import Resumption.Proofs.Leads
import Resumption.Proofs.Routine.Footprint
import Resumption.Proofs.Routine.Labels
import Resumption.Proofs.Routine.Delivers
import Resumption.Proofs.Network.Futures
import Resumption.Proofs.Network.Driver
import Resumption.Proofs.Network.Starts
import Resumption.Proofs.Network.Cascade
import Resumption.Proofs.Network.Defects
import Resumption.Proofs.Network.Detachment
import Resumption.Proofs.Network.Determinism
import Resumption.Proofs.Network.Following
import Resumption.Proofs.Network.HandOffs
import Resumption.Proofs.Network.MalformedSteps
import Resumption.Proofs.Veil.Guarantees
import Resumption.Proofs.Order
import Resumption.Proofs.Order.World
import Resumption.Proofs.Order.Tasks
import Resumption.Proofs.Order.Bodies
import Resumption.Proofs.Order.Cleanups
import Resumption.Proofs.Order.Recoveries
import Resumption.Proofs.Order.Natives
import Resumption.Proofs.Order.Labels
import Resumption.Proofs.Order.Futures
import Resumption.Proofs.Stay
import Resumption.Proofs.Stay.Driver
import Resumption.Proofs.Stay.Tasks
import Resumption.Proofs.Stay.Guarantees
import Resumption.Proofs.Stretches
import Resumption.Proofs.Stretches.Cleanups
import Resumption.Proofs.Stretches.Nesting
import Resumption.Proofs.Stretches.Iterations
import Resumption.Proofs.Likeness
import Resumption.Proofs.Likeness.Overt
import Resumption.Proofs.Likeness.Units
import Resumption.Proofs.Likeness.Loops
import Resumption.Proofs.Contexts
import Resumption.Proofs.Promises.Courses
import Resumption.Proofs.Accounts
import Resumption.Proofs.Accounts.Binds
import Resumption.Proofs.Accounts.Cleanups
import Resumption.Proofs.Accounts.Courses
import Resumption.Proofs.Accounts.Drivers
import Resumption.Proofs.Accounts.Labels
import Resumption.Proofs.Accounts.Uses
import Resumption.Proofs.Care.Guarantees
