import Torc.Parallel.Tasks
import Torc.Cluster.Machine
import Torc.RoundRobin
import Torc.Lib.Mailbox

/-!
# Fork-join programs on the cluster

Workers that run task bodies, nested wherever a body waits, and look for tasks in the queues of
their node and on other nodes; servers that receive tasks and answers and serve stealing requests.
This is the time before `torc_finalize`, with a thread-safe MPI library whose sends complete, so
that no thread waits for `comm_m`.  Functions have one address on all nodes and tasks at most 17
arguments, and the data of a message arrives with it: every payload gets to the receive it is for,
by `Torc.Parallel.Channels`.
-/

namespace Torc.Parallel

open Transition
open Cluster (Pos)

variable {β : Type}

inductive Content (β : Type)
  | enqueue (k : Nat)
  | request
  | answer (k : Nat) (result : β)
  | reply (work : Option Nat)
  deriving DecidableEq

/-- Messages with one sending thread, destination and tag; the id of a thread, `MAX_NVPS` for the
server, tells it from the others of its node. -/
structure Chan where
  src : Nat
  thread : Nat
  dst : Nat
  tag : Nat
  deriving DecidableEq

abbrev Msg (β : Type) :=
  Mailbox.Letter Chan (Content β)

/-- In a body or between two tasks; in `get_next_task`, called for the second time in
`_torc_scheduler_loop` if `again`; with a task to execute. -/
inductive WorkerCtl
  | body
  | next (again : Bool) (pos : Pos)
  | waitReply (again : Bool) (node : Nat)
  | got (k : Nat)
  deriving DecidableEq

/-- The tasks whose bodies have begun and not returned, the latest first. -/
structure Worker where
  stack : List Nat := []
  ctl : WorkerCtl := .body

inductive ServerCtl (β : Type)
  | loop
  | handling (src thread : Nat) (content : Content β)
  | scan (thief vpid : Nat) (k : Nat)
  | reply (thief vpid : Nat) (work : Option Nat)
  deriving DecidableEq

structure Node (β : Type) where
  queues : Queues Nat := {}
  internodeStealing : Bool := false
  internodeM : Bool := false
  roundRobin : RoundRobin.State := {}
  server : ServerCtl β := .loop
  stealAttempts : Nat := 0
  stealServed : Nat := 0
  stealHits : Nat := 0

structure State (β : Type) where
  tasks : Tasks β
  node : Nat → Node β
  worker : Nat → Nat → Worker
  net : List (Msg β)

namespace State

def start (root : Body β) : State β where
  tasks := .start root
  node := fun _ ↦ {}
  worker := fun i v ↦ if i = 0 ∧ v = 0 then { stack := [0] } else {}
  net := []

def setNode (s : State β) (i : Nat) (nd : Node β) : State β :=
  { s with node := Function.update s.node i nd }

def setQueues (s : State β) (i : Nat) (q : Queues Nat) : State β :=
  s.setNode i { s.node i with queues := q }

def setStealing (s : State β) (i : Nat) (on : Bool) : State β :=
  s.setNode i { s.node i with internodeStealing := on }

def lockInternode (s : State β) (i : Nat) (held : Bool) : State β :=
  s.setNode i { s.node i with internodeM := held }

def setServer (s : State β) (i : Nat) (ctl : ServerCtl β) : State β :=
  s.setNode i { s.node i with server := ctl }

def setWorker (s : State β) (i v : Nat) (w : Worker) : State β :=
  { s with worker := Function.update s.worker i (Function.update (s.worker i) v w) }

def setCtl (s : State β) (i v : Nat) (ctl : WorkerCtl) : State β :=
  s.setWorker i v { s.worker i v with ctl := ctl }

def setStack (s : State β) (i v : Nat) (stack : List Nat) : State β :=
  s.setWorker i v { stack := stack }

def send (s : State β) (c : Chan) (x : Content β) : State β :=
  { s with net := s.net ++ [⟨c, x⟩] }

end State

open State

/-! ## Bodies -/

/-- `torc_to_rq_end` moves its static variable on. -/
def turn (workers : List Nat) (s : State β) (i target : Nat) : State β :=
  s.setNode i { s.node i with
    roundRobin := ⟨true, (target + 1) % RoundRobin.torcNumWorkers workers i⟩ }

/-- `torc_to_rq_end` or `torc_to_lrq_end`, called by worker `v` of node `i` for task `k`; `target`
is what `torc_to_rq_end` reads from its static variable. -/
def insertTask (workers : List Nat) (s : State β) (i v k : Nat) (queue : Option Nat)
    (target : Nat) : Option (State β) :=
  let q := (s.node i).queues
  let level := (s.tasks.desc k).level
  -- one node: the target is not looked at
  if workers.length = 1 then some (s.setQueues i (q.torcToIRqEnd level k))
  else do
    let targetNode ← globalThreadIdToNodeId workers (queue.getD target)
    -- only `torc_to_rq_end` has the static variable
    let s := if queue.isNone then turn workers s i target else s
    if i ≠ targetNode then some (s.send ⟨i, v, targetNode, maxNvps⟩ (.enqueue k))
    else some (s.setQueues i (q.torcToIRqEnd level k))

/-- The body of task `k` on top of the stack of worker `v` makes its next step. -/
def bodyStep (workers : List Nat) (s : State β) (i v k : Nat) (rest : List Nat) (target : Nat) :
    Option (State β) :=
  match (s.tasks.frame k).ctl, (s.tasks.frame k).code with
  | .counted, .spawn queue child code =>
      insertTask workers { s with tasks := s.tasks.createChild k i child code } i v s.tasks.issued
        queue target
  | .running, .ret result =>
      let home := (s.tasks.desc k).homenode
      -- `_torc_cleanup` at home, or the answer to the home node
      if home = i then some ({ s with tasks := s.tasks.complete k result }.setStack i v rest)
      else some (({ s with tasks := s.tasks.answer k result }.send ⟨i, v, home, maxNvps⟩
        (.answer k result)).setStack i v rest)
  | .blocked, .waitall _ =>
      -- the test of `ndep` in `_torc_block`, and a poll where it fails
      if s.tasks.ndep k ≤ 0 then (s.tasks.bodyStep k i).map fun t ↦ { s with tasks := t }
      else some (s.setCtl i v (.next false .privateQueue))
  | _, _ => (s.tasks.bodyStep k i).map fun t ↦ { s with tasks := t }

/-! ## get_next_task -/

/-- `get_next_task` has returned NULL: `_torc_scheduler_loop` calls it once more. -/
def noTask (s : State β) (i v : Nat) (again : Bool) : State β :=
  s.setCtl i v (if again then .body else .next true .privateQueue)

/-- It moves on to ask `node`, unless the round is over. -/
def stealNext (s : State β) (i v : Nat) (again : Bool) (node : Nat) : State β :=
  if node ≠ i then s.setCtl i v (.next again (.steal node))
  -- nobody had a task: `internode_stealing` is cleared
  else noTask (s.setStealing i false) i v again

/-- It found nothing at `pos`. -/
def nothingAt (workers : List Nat) (s : State β) (i v : Nat) (again : Bool) : Pos → State β
  | .privateQueue => s.setCtl i v (.next again (.publicQueue 9))
  | .publicQueue (k + 1) => s.setCtl i v (.next again (.publicQueue k))
  | .publicQueue 0 =>
      -- without stealing the round ends here
      if (s.node i).internodeStealing then
        stealNext s i v again ((i + 1) % workers.length)
      else noTask s i v again
  | .steal node => stealNext s i v again ((node + 1) % workers.length)

/-- It looks at `pos`. -/
def lookAt (workers : List Nat) (s : State β) (i v : Nat) (again : Bool) (pos : Pos) :
    Option (State β) :=
  match pos with
  | .privateQueue =>
      match (s.node i).queues.torcIPqDequeue with
      | some (k, q) => some ((s.setQueues i q).setCtl i v (.got k))
      | none => some (nothingAt workers s i v again pos)
  | .publicQueue j =>
      match (s.node i).queues.torcIRqDequeue j with
      | some (k, q) => some ((s.setQueues i q).setCtl i v (.got k))
      | none => some (nothingAt workers s i v again pos)
  | .steal node =>
      -- `direct_synchronous_stealing_request` waits for `internode_m`
      if (s.node i).internodeM then none
      else some (((s.lockInternode i true).send ⟨i, v, node, maxNvps⟩ .request).setCtl i v
        (.waitReply again node))

/-- The reply of the node that was asked is received. -/
def receiveReply (workers : List Nat) (s : State β) (i v : Nat) (again : Bool) (node : Nat) :
    Option (State β) :=
  match Mailbox.take ⟨node, maxNvps, i, waitTag v⟩ s.net with
  | some (.reply none, net) =>
      some (nothingAt workers ({ s with net := net }.lockInternode i false) i v again (.steal node))
  | some (.reply (some k), net) =>
      -- `internode_m` is released and the steal counted
      let s := { s with net := net }.lockInternode i false
      some ((s.setNode i { s.node i with stealHits := (s.node i).stealHits + 1 }).setCtl i v
        (.got k))
  | _ => none

/-- `_torc_execute`: the body of task `k` begins. -/
def execute (s : State β) (i v k : Nat) : State β :=
  { s with tasks := s.tasks.execute k }.setStack i v (k :: (s.worker i v).stack)

/-- A worker without a task looks for one; worker 0 of node 0 has none only when the program has
returned. -/
def workerStep (workers : List Nat) (s : State β) (i v target : Nat) : Option (State β) :=
  match (s.worker i v).ctl, (s.worker i v).stack with
  | .body, k :: rest => bodyStep workers s i v k rest target
  | .body, [] =>
      -- worker 0 of node 0 leaves its loop with the program
      if i = 0 ∧ v = 0 then none else some (s.setCtl i v (.next false .privateQueue))
  | .next again pos, _ => lookAt workers s i v again pos
  | .waitReply again node, _ => receiveReply workers s i v again node
  | .got k, _ => some (execute s i v k)

/-! ## Servers -/

/-- `process_a_received_descriptor`, up to the stealing request. -/
def handle (s : State β) (i src thread : Nat) : Content β → State β
  | .enqueue k =>
      let q := (s.node i).queues
      let d := s.tasks.desc k
      -- a task that was stolen and comes home goes to the front
      (s.setQueues i (if d.homenode = i then q.torcToIRq d.level k
        else q.torcToIRqEnd d.level k)).setServer i .loop
  | .request =>
      (s.setNode i { s.node i with stealAttempts := (s.node i).stealAttempts + 1 }).setServer i
        (.scan src thread 0)
  | .answer k result => { s with tasks := s.tasks.complete k result }.setServer i .loop
  | .reply _ => s.setServer i .loop

def serverStep (s : State β) (i : Nat) : Option (State β) :=
  match (s.node i).server with
  | .loop => none
  | .handling src thread x => some (handle s i src thread x)
  | .scan thief vpid j =>
      match (s.node i).queues.torcIRqDequeue j with
      | some (k, q) => some ((s.setQueues i q).setServer i (.reply thief vpid (some k)))
      | none =>
          if j < 9 then some (s.setServer i (.scan thief vpid (j + 1)))
          else some (s.setServer i (.reply thief vpid none))
  | .reply thief vpid work =>
      -- the served requests are counted, not the refused ones
      let nd := s.node i
      some (((s.setNode i { nd with
          stealServed := nd.stealServed + if work.isSome then 1 else 0 }).send
        ⟨i, maxNvps, thief, replyTag vpid⟩ (.reply work)).setServer i .loop)

/-- `server_loop` receives from `thread` of node `src`. -/
def receiveMessage (s : State β) (i src thread : Nat) : Option (State β) :=
  match (s.node i).server, Mailbox.take ⟨src, thread, i, maxNvps⟩ s.net with
  | .loop, some (x, net) => some ({ s with net := net }.setServer i (.handling src thread x))
  | _, _ => none

/-! ## The system -/

/-- `target` is what a call of `torc_to_rq_end` in this step reads from its static variable, which
the workers of a node change without a lock. -/
inductive Act
  | work (i v target : Nat)
  | receive (i src thread : Nat)
  | serve (i : Nat)
  | setStealing (i : Nat) (on : Bool)

/-- A worker; the receive of a server from a thread of a node; a server with a message. -/
inductive Thread
  | worker (i v : Nat)
  | receiver (i src thread : Nat)
  | server (i : Nat)

def Act.thread : Act → Option Thread
  | .work i v _ => some (.worker i v)
  | .receive i src thread => some (.receiver i src thread)
  | .serve i => some (.server i)
  | .setStealing _ _ => none

def step (workers : List Nat) (s : State β) : Act → Option (State β)
  | .work i v target =>
      if Cluster.IsWorker workers i v ∧ target < torcTotalNumThreads workers then
        workerStep workers s i v target
      else none
  | .receive i src thread =>
      if 1 < workers.length ∧ i < workers.length then receiveMessage s i src thread else none
  | .serve i => if 1 < workers.length ∧ i < workers.length then serverStep s i else none
  | .setStealing i on => some (s.setStealing i on)

def system (workers : List Nat) (root : Body β) : System (State β) Act where
  init s := s = .start root
  step a s := step workers s a

/-- No two calls of `torc_to_rq_end` overlap on a node. -/
def Follows (workers : List Nat) : Act → State β → Bool
  | .work i v target, s => target == (s.node i).roundRobin.target workers i v
  | _, _ => true

/-- The body of the program has returned. -/
def State.returned (s : State β) : Bool :=
  (s.tasks.status 0).isDone

end Torc.Parallel
