import Torc.Lib.Transition
import Torc.Numbering
import Mathlib.Data.List.Range

/-!
# Termination

What the threads of the nodes do once `torc_finalize` was called: the flags `appl_finished`,
`termination_flag` and `internode_stealing`, the count `active_workers`, the barrier, and the
messages to the servers with the tasks they stand for.  A send is buffered, so a thread that goes on
late stands for one that is blocked.
-/

namespace Torc.Shutdown

open Transition

structure Task where
  homenode : Nat
  direct : Bool
  deriving DecidableEq

/-- The descriptors that servers receive. -/
inductive Message
  | torcAnswer
  | torcNormalEnqueue (t : Task)
  | directSynchronousStealingRequest (sourcevpid : Nat)
  | terminateWorkerThreads (node : Nat)
  | terminateLocalServerThread
  | internodeStealing (on : Bool)
  deriving DecidableEq

/-- Where a worker is.  `stack` are the tasks it is in the bodies of, the innermost first; with a
body that waits it is in the scheduler loop.

`round`: in `get_next_task`, with these nodes still to be asked; `awaiting`: in
`receive_descriptor`; `idle`: `get_next_task` has returned `NULL`; `terminating`: in
`terminate_workers`; `ended`: in `_torc_md_end`, which only worker 0 gets through. -/
inductive Phase
  | body (stack : List Task)
  | round (rest : List Nat) (stack : List Task)
  | awaiting (node : Nat) (rest : List Nat) (stack : List Task)
  | idle (stack : List Task)
  | terminating (rest : List Nat)
  | ended
  | barrier
  | passed
  | shutdown
  deriving DecidableEq

/-- `polling`: the receive is posted and `termination_flag` was not seen. -/
inductive ServerPhase
  | listening
  | polling
  | executing (t : Task)
  | exited
  deriving DecidableEq

structure State where
  applFinished : Nat → Nat := fun _ ↦ 0
  terminationFlag : Nat → Bool := fun _ ↦ false
  internodeStealing : Nat → Bool := fun _ ↦ false
  activeWorkers : Nat → Nat
  worker : Nat → Nat → Phase
  server : Nat → ServerPhase := fun _ ↦ .listening
  queue : Nat → List Task := fun _ ↦ []
  net : Nat → Nat → List Message := fun _ _ ↦ []
  replies : Nat → Nat → Nat → List (Option Task) := fun _ _ _ ↦ []
  finalized : Bool := false

namespace State

def setWorker (s : State) (k w : Nat) (p : Phase) : State :=
  { s with worker := Function.update s.worker k (Function.update (s.worker k) w p) }

def setServer (s : State) (i : Nat) (p : ServerPhase) : State :=
  { s with server := Function.update s.server i p }

def setNet (s : State) (src dst : Nat) (l : List Message) : State :=
  { s with net := Function.update s.net src (Function.update (s.net src) dst l) }

/-- `send_descriptor`. -/
def send (s : State) (src dst : Nat) (m : Message) : State :=
  s.setNet src dst (s.net src dst ++ [m])

def setQueue (s : State) (k : Nat) (l : List Task) : State :=
  { s with queue := Function.update s.queue k l }

def setReplies (s : State) (src k w : Nat) (l : List (Option Task)) : State :=
  let toNode := Function.update (s.replies src) k (Function.update (s.replies src k) w l)
  { s with replies := Function.update s.replies src toNode }

def setInternodeStealing (s : State) (k : Nat) (on : Bool) : State :=
  { s with internodeStealing := Function.update s.internodeStealing k on }

def setTerminationFlag (s : State) (k : Nat) : State :=
  { s with terminationFlag := Function.update s.terminationFlag k true }

end State

/-- A worker, or the server in the body of a task that it executes. -/
inductive Thread
  | worker (w : Nat)
  | server
  deriving DecidableEq

def inBody (s : State) (k : Nat) : Thread → Bool
  | .worker w => match s.worker k w with
    | .body (_ :: _) => true
    | _ => false
  | .server => match s.server k with
    | .executing _ => true
    | _ => false

/-- What a body does: a task for node `dst`; `torc_enable_stealing` or `torc_disable_stealing`, one
node at a time. -/
inductive BodyAct
  | spawn (dst : Nat) (direct : Bool)
  | control (dst : Nat) (on : Bool)

inductive WorkerAct
  | finish
  | finalize
  | take (t : Task)
  | miss
  | ask
  | reply
  | giveUp
  | resume
  | notify
  | leave

inductive Act
  | inBody (k : Nat) (thread : Thread) (a : BodyAct)
  | worker (k w : Nat) (a : WorkerAct)
  | enterBarrier (k : Nat)
  | leaveBarrier (k : Nat)
  | shutdown (k : Nat)
  | poll (i : Nat)
  | retry (i : Nat)
  | exit (i : Nat)
  | receive (i src : Nat) (work : Option Task)
  | complete (i : Nat)

def bodyStep (s : State) (k : Nat) : BodyAct → State
  | .spawn dst direct =>
      if dst = k then s.setQueue k (s.queue k ++ [⟨k, direct⟩])
      else s.send k dst (.torcNormalEnqueue ⟨k, direct⟩)
  | .control dst on =>
      if dst = k then s.setInternodeStealing k on else s.send k dst (.internodeStealing on)

/-- The nodes that `get_next_task` asks, in order. -/
def roundNodes (n k : Nat) : List Nat :=
  (List.range (n - 1)).map fun d ↦ (k + 1 + d) % n

/-- `_torc_md_end` up to the loop of worker 0. -/
def mdEnd (s : State) (k w : Nat) : State :=
  let s' := s.setWorker k w .ended
  if w = 0 then s'
  else { s' with activeWorkers := Function.update s.activeWorkers k (s.activeWorkers k - 1) }

/-- The initial task of the program does not return before `torc_finalize`. -/
def workerStep (threadSafe : Bool) (n : Nat) (s : State) (k w : Nat) : WorkerAct → Option State
  | .finish =>
      match s.worker k w with
      | .body (t :: stack) =>
          if k = 0 ∧ w = 0 ∧ stack = [] then none
          -- `_torc_cleanup`: the answer goes to the home node
          else if t.homenode = k then some (s.setWorker k w (.body stack))
          else some ((s.setWorker k w (.body stack)).send k t.homenode .torcAnswer)
      | _ => none
  | .finalize =>
      match s.worker k w with
      | .body (_ :: _) =>
          if s.finalized then none
          else some { s.setWorker k w (.terminating ((List.range n).filter fun j ↦ j ≠ k)) with
            applFinished := Function.update s.applFinished k 1, finalized := true }
      | _ => none
  | .take t =>
      match s.worker k w with
      | .body stack =>
          if t ∈ s.queue k then
            some ((s.setQueue k ((s.queue k).erase t)).setWorker k w (.body (t :: stack)))
          else none
      | _ => none
  | .miss =>
      match s.worker k w with
      | .body stack =>
          if s.queue k = [] then
            -- the other nodes are asked only while stealing is enabled
            some (s.setWorker k w
              (if s.internodeStealing k then .round (roundNodes n k) stack else .idle stack))
          else none
      | _ => none
  | .ask =>
      match s.worker k w with
      | .round (node :: rest) stack =>
          -- `direct_synchronous_stealing_request` returns `NULL` once the flag is set
          if s.terminationFlag k then some (s.setWorker k w (.round rest stack))
          else some ((s.setWorker k w (.awaiting node rest stack)).send k node
            (.directSynchronousStealingRequest w))
      | .round [] stack =>
          some ((s.setInternodeStealing k false).setWorker k w (.idle stack))
      | _ => none
  | .reply =>
      match s.worker k w with
      | .awaiting node rest stack =>
          match s.replies node k w with
          | [] => none
          | none :: l => some ((s.setReplies node k w l).setWorker k w (.round rest stack))
          | some t :: l => some ((s.setReplies node k w l).setWorker k w (.body (t :: stack)))
      | _ => none
  | .giveUp =>
      match s.worker k w with
      | .awaiting _ rest stack =>
          -- `receive_descriptor` looks at `appl_finished` only where it polls
          if threadSafe = false ∧ s.applFinished k = 1 then
            some (s.setWorker k w (.round rest stack))
          else none
      | _ => none
  | .resume =>
      match s.worker k w with
      | .idle stack => some (s.setWorker k w (.body stack))
      | _ => none
  | .notify =>
      match s.worker k w with
      | .terminating (node :: rest) =>
          some ((s.setWorker k w (.terminating rest)).send k node (.terminateWorkerThreads k))
      | _ => none
  | .leave =>
      match s.worker k w with
      | .idle _ => if s.applFinished k = 1 then some (mdEnd s k w) else none
      | .terminating [] => some (mdEnd s k w)
      | _ => none

/-- Worker 0 has entered the barrier. -/
def Phase.AtBarrier : Phase → Prop
  | .barrier | .passed | .shutdown => True
  | _ => False

instance : DecidablePred Phase.AtBarrier
  | .barrier | .passed | .shutdown => isTrue trivial
  | .body _ | .round _ _ | .awaiting _ _ _ | .idle _ | .terminating _ | .ended => isFalse id

/-- `process_a_received_descriptor` on node `i`; `work` is what the queues give for a stealing
request. -/
def process (s : State) (i src : Nat) (work : Option Task) : Message → Option State
  | .torcAnswer => some (s.setServer i .listening)
  | .torcNormalEnqueue t =>
      -- `rte_type` 20: the server executes the task before it listens again
      if t.homenode ≠ i ∧ t.direct then some (s.setServer i (.executing t))
      else some ((s.setQueue i (s.queue i ++ [t])).setServer i .listening)
  | .directSynchronousStealingRequest w =>
      match work with
      | none => some ((s.setReplies i src w (s.replies i src w ++ [none])).setServer i .listening)
      | some t =>
          if t ∈ s.queue i then
            some (((s.setQueue i ((s.queue i).erase t)).setReplies i src w
              (s.replies i src w ++ [some t])).setServer i .listening)
          else none
  | .terminateWorkerThreads node =>
      -- `node` is the `localarg[0]` of the descriptor
      some { (s.setTerminationFlag i).setServer i .listening with
        applFinished := Function.update s.applFinished i
          (if node ≠ i then s.applFinished i + 1 else s.applFinished i) }
  | .terminateLocalServerThread => some (s.setServer i .exited)
  | .internodeStealing on => some ((s.setInternodeStealing i on).setServer i .listening)

def IsThread (workers : List Nat) (k : Nat) : Thread → Prop
  | .worker w => w < workers.getD k 0
  | .server => k < workers.length

instance (workers : List Nat) (k : Nat) (t : Thread) : Decidable (IsThread workers k t) :=
  match t with
  | .worker w => inferInstanceAs (Decidable (w < workers.getD k 0))
  | .server => inferInstanceAs (Decidable (k < workers.length))

def step (threadSafe : Bool) (workers : List Nat) (s : State) : Act → Option State
  | .inBody k thread a =>
      let dst := match a with
        | .spawn dst _ | .control dst _ => dst
      if IsThread workers k thread ∧ inBody s k thread ∧ dst < workers.length then
        some (bodyStep s k a)
      else none
  | .worker k w a =>
      if w < workers.getD k 0 then workerStep threadSafe workers.length s k w a else none
  | .enterBarrier k =>
      if 0 < workers.getD k 0 ∧ s.worker k 0 = .ended ∧ s.activeWorkers k = 1 then
        some (s.setWorker k 0 .barrier)
      else none
  | .leaveBarrier k =>
      if s.worker k 0 = .barrier ∧ ∀ j < workers.length, (s.worker j 0).AtBarrier then
        some (s.setWorker k 0 .passed)
      else none
  | .shutdown k =>
      if s.worker k 0 = .passed ∧ 1 < workers.length then
        let s' := s.setWorker k 0 .shutdown
        -- a server that waits in `MPI_Wait` gets a message, one that polls sees the flag
        if threadSafe then some (s'.send k k .terminateLocalServerThread)
        else some (s'.setTerminationFlag k)
      else none
  | .poll i =>
      if i < workers.length ∧ s.server i = .listening ∧
          (threadSafe = true ∨ s.terminationFlag i = false) then
        some (s.setServer i .polling)
      else none
  | .retry i =>
      -- an `MPI_Test` that finds nothing, before `termination_flag` is looked at again
      if i < workers.length ∧ threadSafe = false ∧ s.server i = .polling then
        some (s.setServer i .listening)
      else none
  | .exit i =>
      if i < workers.length ∧ threadSafe = false ∧ s.server i = .listening ∧
          s.terminationFlag i = true then
        some (s.setServer i .exited)
      else none
  | .receive i src work =>
      if i < workers.length ∧ src < workers.length ∧ s.server i = .polling then
        match s.net src i with
        | [] => none
        | m :: l => process (s.setNet src i l) i src work m
      else none
  | .complete i =>
      match s.server i with
      | .executing t =>
          if i < workers.length then
            some ((s.setServer i .listening).send i t.homenode .torcAnswer)
          else none
      | _ => none

/-- The threads of nodes with these worker counts; the program is the initial task of worker 0 of
node 0. -/
def initial (workers : List Nat) : State where
  activeWorkers k := workers.getD k 0
  worker k w := if k = 0 ∧ w = 0 then .body [⟨0, false⟩] else .body []

def system (threadSafe : Bool) (workers : List Nat) : System State Act where
  init s := s = initial workers
  step a s := step threadSafe workers s a

/-! ## What shutdown must not lose -/

/-- The messages that somebody waits for the effect of. -/
def Message.Counts : Message → Prop
  | .torcAnswer | .torcNormalEnqueue _ | .directSynchronousStealingRequest _ => True
  | _ => False

instance : DecidablePred Message.Counts
  | .torcAnswer | .torcNormalEnqueue _ | .directSynchronousStealingRequest _ => isTrue trivial
  | .terminateWorkerThreads _ | .terminateLocalServerThread | .internodeStealing _ => isFalse id

/-- No message to a server that has exited is in flight, neither one that was there when it exited
nor one that was sent after. -/
def NoneLost (workers : List Nat) (s : State) : Prop :=
  ∀ i < workers.length, s.server i = .exited →
    ∀ src < workers.length, ∀ m ∈ s.net src i, ¬ m.Counts

/-- In the scheduler loop or in a body. -/
def Phase.Active : Phase → Prop
  | .body _ | .round _ _ | .awaiting _ _ _ | .idle _ => True
  | _ => False

def AllLeft (workers : List Nat) (s : State) : Prop :=
  ∀ k < workers.length, ∀ w < workers.getD k 0, ¬ (s.worker k w).Active

/-- An active worker that is in no body, on a node that sends no stealing requests. -/
def Phase.Unemployed (flag : Bool) : Phase → Prop
  | .body stack | .idle stack => stack = []
  | .round _ stack | .awaiting _ _ stack => stack = [] ∧ flag = true
  | _ => True

def Message.BringsWork : Message → Prop
  | .torcNormalEnqueue _ => True
  | .internodeStealing on => on = true
  | _ => False

/-- No task is anywhere and no active worker asks for one. -/
structure NoWork (workers : List Nat) (s : State) : Prop where
  worker : ∀ k < workers.length, ∀ w < workers.getD k 0,
    (s.worker k w).Unemployed (s.terminationFlag k) ∧
      ((s.worker k w).Active → s.internodeStealing k = true → s.terminationFlag k = true)
  queue : ∀ k, s.queue k = []
  net : ∀ src dst, ∀ m ∈ s.net src dst, ¬ m.BringsWork
  replies : ∀ src k w, ∀ r ∈ s.replies src k w, r = none

def ServerPhase.Executes : ServerPhase → Prop
  | .executing _ => True
  | _ => False

instance : DecidablePred ServerPhase.Executes
  | .executing _ => isTrue trivial
  | .listening | .polling | .exited => isFalse id

/-- The server of node `j` will execute it. -/
def Message.Direct (j : Nat) : Message → Prop
  | .torcNormalEnqueue t => t.homenode ≠ j ∧ t.direct = true
  | _ => False

instance (j : Nat) : DecidablePred (Message.Direct j)
  | .torcNormalEnqueue t => inferInstanceAs (Decidable (t.homenode ≠ j ∧ t.direct = true))
  | .torcAnswer | .directSynchronousStealingRequest _ | .terminateWorkerThreads _ |
    .terminateLocalServerThread | .internodeStealing _ => isFalse id

/-- No server executes a task and none is on the way to a server that will. -/
def NoDirect (workers : List Nat) (s : State) : Prop :=
  ∀ j < workers.length, ¬ (s.server j).Executes ∧
    ∀ src < workers.length, ∀ m ∈ s.net src j, ¬ m.Direct j

/-- Nothing is in flight to node `i`, and no server can send to it. -/
def Clear (workers : List Nat) (i : Nat) (s : State) : Prop :=
  (∀ src < workers.length, ∀ m ∈ s.net src i, ¬ m.Counts) ∧ NoDirect workers s

instance (workers : List Nat) (i : Nat) (s : State) : Decidable (Clear workers i s) :=
  inferInstanceAs (Decidable ((∀ src < workers.length, ∀ m ∈ s.net src i, ¬ m.Counts) ∧
    ∀ j < workers.length, ¬ (s.server j).Executes ∧
      ∀ src < workers.length, ∀ m ∈ s.net src j, ¬ m.Direct j))

/-- A server exits only when its node is clear, and before its worker 0 has passed the barrier only
when all workers have left or there is no work. -/
def Keeps (workers : List Nat) : Act → State → Prop
  | .receive i src _, s =>
      (s.net src i).head? = some .terminateLocalServerThread → Clear workers i s
  | .exit i, s =>
      Clear workers i s ∧ (s.worker i 0 ≠ .shutdown → AllLeft workers s ∨ NoWork workers s)
  | _, _ => True

end Torc.Shutdown
