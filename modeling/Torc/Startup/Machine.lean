import Torc.Lib.Transition
import Torc.Numbering
import Mathlib.Data.List.Range

/-!
# Initialisation

`torc_init` on all nodes, from the call of `_torc_env_init` on: the thread that has called it starts
the server and the other workers, exchanges the worker counts with the other nodes and becomes
worker 0.
-/

namespace Torc.Startup

open Transition

/-- The collective operations on `comm_out`: `MPI_Iallgather` with its `MPI_Wait` and the two
barriers of `_torc_comm_init`, the barrier of `_torc_worker`. -/
inductive Call
  | allgather
  | barrier
  | synchronize
  | ready
  deriving DecidableEq

/-- What is between `enter_comm_cs` and `leave_comm_cs`. -/
inductive Section
  | gather
  | synchronize
  | ready
  deriving DecidableEq

/-- Where worker 0 is.  With `startWorker` it is in the loop of `_torc_md_init`, with `fill` in that
of `_torc_comm_init`; `count` and what follows is in `_torc_worker`.  `loop` is
`_torc_scheduler_loop`, instead of which `torc_init` returns on node 0. -/
inductive MainCtl
  | rqInit
  | startServer
  | startWorker (i : Nat)
  | enterCs (sec : Section)
  | call (c : Call)
  | inside (c : Call)
  | leaveCs (sec : Section)
  | fill (i : Nat)
  | count
  | wait
  | loop
  deriving DecidableEq

/-- Where another worker is in `_torc_worker`. -/
inductive WorkerCtl
  | unborn
  | count
  | wait
  | loop
  deriving DecidableEq

/-- `holding`: in `MPI_Test`, with `comm_m`.  With a thread-safe MPI the server waits for a message
instead. -/
inductive ServerCtl
  | unborn
  | polling
  | holding
  deriving DecidableEq

/-- `gathered` is the array `workers` of `_torc_comm_init`, and `nodeInfo j` is
`node_info[j].nworkers`. -/
structure Node where
  main : MainCtl := .rqInit
  worker : Nat → WorkerCtl := fun _ ↦ .unborn
  server : ServerCtl := .unborn
  createdWorkers : Nat := 0
  commM : Bool := false
  gathered : Nat → Nat := fun _ ↦ 0
  nodeInfo : Nat → Nat := fun _ ↦ 0

/-- `calls i` are the collective operations that node `i` has started, and `sent i` is what it has
given to `MPI_Iallgather`. -/
structure State where
  node : Nat → Node := fun _ ↦ {}
  calls : Nat → List Call := fun _ ↦ []
  sent : Nat → Nat := fun _ ↦ 0

namespace State

def setNode (s : State) (i : Nat) (nd : Node) : State :=
  { s with node := Function.update s.node i nd }

def setMain (s : State) (i : Nat) (ctl : MainCtl) : State :=
  s.setNode i { s.node i with main := ctl }

def setWorker (s : State) (i v : Nat) (ctl : WorkerCtl) : State :=
  s.setNode i { s.node i with worker := Function.update (s.node i).worker v ctl }

/-- Node `i` starts a collective operation. -/
def start (s : State) (i : Nat) (c : Call) (sent : Nat) : State :=
  { s with
    calls := Function.update s.calls i (s.calls i ++ [c])
    sent := Function.update s.sent i sent }

end State

def Section.first : Section → Call
  | .gather => .allgather
  | .synchronize => .synchronize
  | .ready => .ready

/-- What follows `leave_comm_cs`. -/
def Section.after : Section → MainCtl
  | .gather => .fill 0
  | .synchronize => .count
  | .ready => .loop

def Call.after : Call → MainCtl
  | .allgather => .call .barrier
  | .barrier => .leaveCs .gather
  | .synchronize => .leaveCs .synchronize
  | .ready => .leaveCs .ready

variable (threadSafe : Bool) (workers : List Nat)

/-- Node `i` may complete the operation that it has started last: all nodes have started as many. -/
def Complete (s : State) (i : Nat) : Prop :=
  ∀ j < workers.length, (s.calls i).length ≤ (s.calls j).length

instance (s : State) (i : Nat) : Decidable (Complete workers s i) :=
  inferInstanceAs (Decidable (∀ j < workers.length, _))

/-- The next step of worker 0 of node `i`. -/
def mainStep (s : State) (i : Nat) : Option State :=
  let nd := s.node i
  let kthreads := workers.getD i 0
  match nd.main with
  | .rqInit => some (s.setMain i .startServer)
  | .startServer =>
      some (s.setNode i { nd with
        server := if 1 < workers.length then .polling else nd.server
        main := .startWorker 1 })
  | .startWorker v =>
      if v < kthreads then
        some (s.setNode i { nd with
          worker := Function.update nd.worker v .count
          main := .startWorker (v + 1) })
      else some (s.setMain i (.enterCs .gather))
  | .enterCs sec =>
      if threadSafe then some (s.setMain i (.call sec.first))
      else if nd.commM then none
      else some (s.setNode i { nd with commM := true, main := .call sec.first })
  | .call c =>
      some ((s.setMain i (.inside c)).start i c (if c = .allgather then kthreads else s.sent i))
  | .inside c =>
      if Complete workers s i then
        some (s.setNode i { nd with
          gathered := if c = .allgather then s.sent else nd.gathered
          main := c.after })
      else none
  | .leaveCs sec =>
      some (s.setNode i { nd with commM := nd.commM && threadSafe, main := sec.after })
  | .fill j =>
      if j < workers.length then
        some (s.setNode i { nd with
          nodeInfo := Function.update nd.nodeInfo j (nd.gathered j)
          main := .fill (j + 1) })
      else some (s.setMain i (.enterCs .synchronize))
  | .count =>
      some (s.setNode i { nd with createdWorkers := nd.createdWorkers + 1, main := .wait })
  | .wait =>
      if nd.createdWorkers < kthreads then some s else some (s.setMain i (.enterCs .ready))
  | .loop => none

/-- The next step of worker `v` of node `i`, another one than worker 0. -/
def workerStep (s : State) (i v : Nat) : Option State :=
  let nd := s.node i
  match nd.worker v with
  | .unborn => none
  | .count =>
      some (s.setNode i { nd with
        createdWorkers := nd.createdWorkers + 1
        worker := Function.update nd.worker v .wait })
  | .wait =>
      if nd.createdWorkers < workers.getD i 0 then some s else some (s.setWorker i v .loop)
  | .loop => none

/-- The server of node `i` polls for a message. -/
def serverStep (s : State) (i : Nat) : Option State :=
  let nd := s.node i
  match nd.server with
  | .unborn => none
  | .polling =>
      if threadSafe || nd.commM then none
      else some (s.setNode i { nd with commM := true, server := .holding })
  | .holding => some (s.setNode i { nd with commM := false, server := .polling })

/-- `idle` is anything that does not belong to the initialisation. -/
inductive Act
  | main (i : Nat)
  | worker (i v : Nat)
  | server (i : Nat)
  | idle
  deriving DecidableEq

def step (s : State) : Act → Option State
  | .main i => if i < workers.length then mainStep threadSafe workers s i else none
  | .worker i v => if i < workers.length then workerStep workers s i v else none
  | .server i => if i < workers.length then serverStep threadSafe s i else none
  | .idle => some s

def system : System State Act where
  init s := s = {}
  step a s := step threadSafe workers s a

/-- The threads: the workers of each node and its server. -/
def Act.thread : Act → Option (Nat × Option Nat)
  | .main i => some (i, some 0)
  | .worker i v => some (i, some v)
  | .server i => some (i, none)
  | .idle => none

end Torc.Startup
