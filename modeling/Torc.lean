import Torc.Lib.Transition
import Torc.Lib.Fairness
import Torc.Lib.Update
import Torc.Lib.Ledger
import Torc.Lib.Framing
import Torc.Lib.Labels
import Torc.Lib.Mailbox
import Torc.Lib.NestedStacks
import Torc.Descriptor
import Torc.Comm
import Torc.PayloadSchedule
import Torc.Lib.Relocation
import Torc.Lib.ByteHeap
import Torc.FunctionTable
import Torc.RegistrationHistory
import Torc.Create
import Torc.Route
import Torc.TaskIdentity
import Torc.TaskCounts
import Torc.Statistics
import Torc.Queue
import Torc.SchedulingOrder
import Torc.RemoteEnqueue
import Torc.ForkJoin.Machine
import Torc.ForkJoin.Invariant
import Torc.ForkJoin.Termination
import Torc.Lib.Consecutive
import Torc.Numbering
import Torc.Cluster.Machine
import Torc.Cluster.Places
import Torc.Cluster.Tags
import Torc.Cluster.Streams
import Torc.Cluster.Location
import Torc.Execute
import Torc.Payload
import Torc.Capture
import Torc.Journey
import Torc.Transparency
import Torc.EmptyArguments
import Torc.Registration.Machine
import Torc.Registration.Tokens
import Torc.Registration.EveryNode
import Torc.Messages.Machine
import Torc.Messages.Supply
import Torc.Messages.Routines
import Torc.Messages.Matching
import Torc.Messages.Delivery
import Torc.Waiting.Tasks
import Torc.Waiting.Counting
import Torc.Waiting.Pools
import Torc.Waiting.Steps
import Torc.Waiting.NewTasks
import Torc.Waiting.Completion
import Torc.Waiting.Machine
import Torc.Waiting.Answers
import Torc.Waiting.Safety
import Torc.Waiting.EveryRun
import Torc.Lib.DoublyLinked
import Torc.IntrusiveQueue
import Torc.Arguments
import Torc.CurrentTask
import Torc.WaitExit
import Torc.Block2
import Torc.Limits
import Torc.Lib.Cyclic
import Torc.StealingFlag
import Torc.StealRound
import Torc.RoundRobin
import Torc.Lib.Blocks
import Torc.ArgumentBuffers
import Torc.Landing
import Torc.TypeHandles
import Torc.ByAddress
import Torc.TransferSizes
import Torc.Broadcast
import Torc.Pool.Machine
import Torc.Pool.Conservation
import Torc.Lib.Rings
import Torc.ServerRing
import Torc.CommLock
import Torc.Shutdown.Machine
import Torc.Shutdown.Barrier
import Torc.Shutdown.NoneLost
import Torc.Shutdown.Exit
import Torc.Parallel.Program
import Torc.Parallel.Tasks
import Torc.Parallel.Results
import Torc.Parallel.Work
import Torc.Parallel.Machine
import Torc.Parallel.Moves
import Torc.Parallel.Places
import Torc.Parallel.Ranges
import Torc.Parallel.Outcome
import Torc.Parallel.Channels
import Torc.Parallel.Order
import Torc.Parallel.Requests
import Torc.Parallel.Targets
import Torc.Parallel.Settling
import Torc.Parallel.Progress
import Torc.Parallel.Frames
import Torc.Parallel.Frozen
import Torc.Parallel.Fair
import Torc.Parallel.Nesting
import Torc.Parallel.DepthFirst
import Torc.Parallel.Fibo
import Torc.Lib.Rounds
import Torc.Startup.Machine
import Torc.Startup.Steps
import Torc.Startup.Node
import Torc.Startup.Invariant
import Torc.Startup.Ready
import Torc.Startup.Rank
import Torc.Startup.Live
