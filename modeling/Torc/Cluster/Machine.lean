import Torc.Create
import Torc.Route
import Torc.Queue
import Torc.Numbering
import Torc.Lib.Transition
import Mathlib.Data.List.GetD

/-!
# The cluster

Nodes with ready queues, workers and a server thread, and the messages in flight between them,
descriptors and payloads.  A message keeps its place behind earlier ones of the same sending thread,
destination and tag; which sender is received from first is open.  A thread makes its MPI calls one
by one and does nothing else before the last of them.  A wait may return at any poll: the counter
that ends it has no part in where a task is.
-/

namespace Torc.Cluster

open Transition

/-- A descriptor of a task, which the reply without work is not. -/
structure Work where
  desc : TorcT
  isTask : desc.type ≠ .torcNoWork

def Work.taskId (w : Work) : Nat :=
  w.desc.taskId

def Work.place (roundRobin : Bool) (targetQueue : Int) (w : Work) : Work :=
  ⟨Torc.place roundRobin targetQueue w.desc, by rw [place_type]; exact w.isTask⟩

def Work.readArguments (w : Work) : Work :=
  ⟨Torc.readArguments w.desc, w.isTask⟩

def Work.receiveStolen (me vpid : Nat) (mem : Nat → Int) (w : Work) : Work :=
  ⟨(Torc.receiveStolen me vpid mem w.desc).1, by rw [receiveStolen_type]; exact w.isTask⟩

def Work.setVp (vpid : Nat) (w : Work) : Work :=
  ⟨{ w.desc with vpId := vpid }, w.isTask⟩

inductive Thread
  | worker (v : Nat)
  | server
  deriving DecidableEq

/-- `_torc_thread_id`. -/
def Thread.id : Thread → Nat
  | .worker v => v
  | .server => maxNvps

/-- Messages with one sending thread, destination and tag. -/
structure Chan where
  src : Nat
  thread : Thread
  dst : Nat
  tag : Nat
  deriving DecidableEq

inductive Packet
  | desc (desc : TorcT)
  | payload (t : Transfer)
  deriving DecidableEq

def transferBytes (t : Transfer) : Nat :=
  t.count * mpiTypeSize t.dtype

/-- The bytes of a message; a descriptor has `torc_size`. -/
def Packet.bytes (torcSize : Nat) : Packet → Nat
  | .desc _ => torcSize
  | .payload t => transferBytes t

/-- The caller of `get_next_task`: `_torc_scheduler_loop` or `torc_fetch_work`. -/
inductive Why
  | loop
  | fetch

/-- Where `get_next_task` looks next. -/
inductive Pos
  | privateQueue
  | publicQueue (k : Nat)
  | steal (node : Nat)
  deriving DecidableEq

inductive WorkerCtl
  | body
  | created (work : Work) (roundRobin : Bool) (target : Nat)
  | next (why : Why) (pos : Pos)
  | waitReply (why : Why) (node : Nat)
  | receiving (why : Why) (work : Work)
  | got (why : Why) (work : Work)

/-- `stack` lists the tasks whose bodies have begun and not returned, the latest first. -/
structure Worker where
  stack : List Work := []
  ctl : WorkerCtl := .body

inductive ServerCtl
  | loop
  | handling (desc : TorcT)
  | scan (request : TorcT) (k : Nat)
  | reply (request : TorcT) (work : Option Work)
  | direct (work : Work)

structure Node where
  queues : Queues Work := {}
  internodeStealing : Bool := false
  internodeM : Bool := false
  server : ServerCtl := .loop

/-- `calls` are those that a thread has still to make in the routine it is in.  `issued` tasks have
been created, with the ids below it; `started` lists the bodies begun and `finished` those
returned. -/
structure State where
  node : Nat → Node := fun _ ↦ {}
  worker : Nat → Nat → Worker := fun _ _ ↦ {}
  net : Chan → List Packet := fun _ ↦ []
  calls : Nat → Thread → List Effect := fun _ _ ↦ []
  issued : Nat := 0
  started : List Nat := []
  finished : List Nat := []
  aborted : Bool := false

def State.setNode (s : State) (i : Nat) (nd : Node) : State :=
  { s with node := Function.update s.node i nd }

def State.setQueues (s : State) (i : Nat) (q : Queues Work) : State :=
  s.setNode i { s.node i with queues := q }

def State.setStealing (s : State) (i : Nat) (on : Bool) : State :=
  s.setNode i { s.node i with internodeStealing := on }

def State.lockInternode (s : State) (i : Nat) (held : Bool) : State :=
  s.setNode i { s.node i with internodeM := held }

def State.setServer (s : State) (i : Nat) (ctl : ServerCtl) : State :=
  s.setNode i { s.node i with server := ctl }

def State.setWorker (s : State) (i v : Nat) (w : Worker) : State :=
  { s with worker := Function.update s.worker i (Function.update (s.worker i) v w) }

def State.setCtl (s : State) (i v : Nat) (ctl : WorkerCtl) : State :=
  s.setWorker i v { s.worker i v with ctl := ctl }

def State.setNet (s : State) (c : Chan) (l : List Packet) : State :=
  { s with net := Function.update s.net c l }

def State.send (s : State) (c : Chan) (p : Packet) : State :=
  s.setNet c (s.net c ++ [p])

def State.setCalls (s : State) (i : Nat) (th : Thread) (l : List Effect) : State :=
  { s with calls := Function.update s.calls i (Function.update (s.calls i) th l) }

/-- The body of task `t` begins. -/
def State.begin (s : State) (t : Nat) : State :=
  { s with started := s.started ++ [t] }

/-- The body of task `t` has returned. -/
def State.retire (s : State) (t : Nat) : State :=
  { s with finished := s.finished ++ [t] }

/-! ## Messages -/

/-- `send_descriptor` by a thread of node `i`, up to the payloads. -/
def State.sendDescriptor (s : State) (i : Nat) (th : Thread) (node : Nat) (desc : TorcT)
    (type : MsgType) : State :=
  (s.send ⟨i, th, node, maxNvps⟩ (.desc (stampSource i th.id desc type))).setCalls i th
    (Torc.sendDescriptor i th.id node desc type)

/-- `direct_send_descriptor` by the server of node `i`, up to the payloads. -/
def State.directSendDescriptor (s : State) (i sourcenode sourcevpid : Nat) (desc : TorcT) : State :=
  (s.send ⟨i, .server, sourcenode, replyTag sourcevpid⟩ (.desc (stampReply i desc))).setCalls i
    .server (Torc.directSendDescriptor i sourcenode sourcevpid desc)

/-- The next call of a thread.  A receive takes a message of the thread `sender` of its source node,
whatever that is; one that is too long for it ends the program. -/
def callStep (torcSize : Nat) (s : State) (i : Nat) (th sender : Thread) : Option State :=
  match s.calls i th with
  | [] => none
  | .calloc _ _ :: rest | .free _ :: rest => some (s.setCalls i th rest)
  | .isend dst tag t :: rest =>
      some ((s.send ⟨i, th, dst, tag⟩ (.payload t)).setCalls i th rest)
  -- the source has no check that the message is the one the receive is for
  | .irecv src tag t :: rest =>
      match s.net ⟨src, sender, i, tag⟩ with
      | [] => none
      | p :: l =>
          if p.bytes torcSize ≤ transferBytes t then
            some ((s.setNet ⟨src, sender, i, tag⟩ l).setCalls i th rest)
          else some { s with aborted := true }

/-! ## Workers -/

/-- `torc_to_rq_end` or `torc_to_lrq_end` with worker `target`, called by thread `v` of node `i`. -/
def insertTask (workers : List Nat) (s : State) (i v : Nat) (work : Work) (roundRobin : Bool)
    (target : Nat) : Option State :=
  let q := (s.node i).queues
  -- on one node both routines put the task into the node's own queue
  if workers.length = 1 then some (s.setQueues i (q.torcToIRqEnd work.desc.level work))
  else do
    let targetNode ← globalThreadIdToNodeId workers target
    let targetQueue ← globalThreadIdToLocalThreadId workers target
    let work := work.place roundRobin targetQueue
    if i ≠ targetNode then
      some (s.sendDescriptor i (.worker v) targetNode work.desc .torcNormalEnqueue)
    else
      some (s.setQueues i (q.torcToIRqEnd work.desc.level work.readArguments))

/-- `get_next_task` moves on to ask `node`, unless the round is over. -/
def stealNext (s : State) (i v : Nat) (why : Why) (node : Nat) : State :=
  if node ≠ i then s.setCtl i v (.next why (.steal node))
  -- one refused round turns stealing off
  else (s.setStealing i false).setCtl i v .body

/-- `get_next_task` found nothing at `pos`. -/
def nothingAt (workers : List Nat) (s : State) (i v : Nat) (why : Why) : Pos → State
  | .privateQueue => s.setCtl i v (.next why (.publicQueue 9))
  | .publicQueue (k + 1) => s.setCtl i v (.next why (.publicQueue k))
  | .publicQueue 0 =>
      if (s.node i).internodeStealing then stealNext s i v why ((i + 1) % workers.length)
      -- without stealing the round ends after the queues
      else s.setCtl i v .body
  | .steal node => stealNext s i v why ((node + 1) % workers.length)

/-- `get_next_task` looks at `pos`. -/
def lookAt (workers : List Nat) (s : State) (i v : Nat) (why : Why) (pos : Pos) : Option State :=
  match pos with
  | .privateQueue =>
      match (s.node i).queues.torcIPqDequeue with
      | some (work, q) => some ((s.setQueues i q).setCtl i v (.got why work))
      | none => some (nothingAt workers s i v why pos)
  | .publicQueue k =>
      match (s.node i).queues.torcIRqDequeue k with
      | some (work, q) => some ((s.setQueues i q).setCtl i v (.got why work))
      | none => some (nothingAt workers s i v why pos)
  | .steal node =>
      -- `direct_synchronous_stealing_request` waits for `internode_m`
      if (s.node i).internodeM then none
      else
        some (((s.lockInternode i true).sendDescriptor i (.worker v) node { homenode := i }
          .directSynchronousStealingRequest).setCtl i v (.waitReply why node))

/-- The caller of `get_next_task` has a task: `_torc_execute` begins its body, `torc_fetch_work`
puts it into the private queue. -/
def useTask (s : State) (i v : Nat) (work : Work) : Why → State
  | .loop =>
      (s.setWorker i v ⟨work.setVp v :: (s.worker i v).stack, .body⟩).begin work.taskId
  | .fetch => (s.setQueues i ((s.node i).queues.torcToIPqEnd work)).setCtl i v .body

def workerStep (workers : List Nat) (s : State) (i v : Nat) : Option State :=
  match (s.worker i v).ctl with
  | .created work roundRobin target =>
      (insertTask workers s i v work roundRobin target).map fun s ↦ s.setCtl i v .body
  | .next why pos => lookAt workers s i v why pos
  | .receiving why work =>
      some ((s.lockInternode i false).setCtl i v (.got why work))
  | .got why work => some (useTask s i v work why)
  | .body | .waitReply _ _ => none

/-- The steal reply of the thread `sender` of the node that was asked is received.  A payload that
is taken for it leaves the program in no defined state. -/
def receiveReply (workers : List Nat) (s : State) (i v : Nat) (sender : Thread)
    (mem : Nat → Int) : Option State :=
  match (s.worker i v).ctl with
  | .waitReply why node =>
      match s.net ⟨node, sender, i, waitTag v⟩ with
      | [] => none
      | .payload _ :: _ => some { s with aborted := true }
      | .desc desc :: rest =>
          let s := s.setNet ⟨node, sender, i, waitTag v⟩ rest
          if h : desc.type = .torcNoWork then
            -- `internode_m` is released before the next node is asked
            some (nothingAt workers (s.lockInternode i false) i v why (.steal node))
          else
            -- a task: its payloads follow, still under `internode_m`
            let work := Work.receiveStolen i v mem ⟨desc, h⟩
            some ((s.setCalls i (.worker v) (receiveStolen i v mem desc).2).setCtl i v
              (.receiving why work))
  | _ => none

def sendAnswer (s : State) (i : Nat) (th : Thread) (work : Work) : State :=
  s.sendDescriptor i th work.desc.homenode work.desc .torcAnswer

/-- The top task leaves the stack of worker `v`. -/
def popTask (s : State) (i v : Nat) (work : Work) (rest : List Work) : State :=
  (s.setWorker i v { s.worker i v with stack := rest }).retire work.taskId

/-- The top task's body returns: `_torc_cleanup`. -/
def finishTask (s : State) (i v : Nat) : Option State :=
  match (s.worker i v).stack with
  | [] => none
  | work :: rest =>
      if work.desc.homenode ≠ i then
        -- the answer carries the task home
        some (popTask (sendAnswer s i (.worker v) work) i v work rest)
      else some (popTask s i v work rest)

/-- The descriptor that a creation routine fills for the top task of worker `v`. -/
def createWork (r : Routine) (who : Creator) (taskId work : Nat) (h : ByteHeap)
    (cs : List CArg) : Option Work :=
  match hc : r.create who taskId work h cs with
  | some c => some ⟨c.desc, by rw [(Routine.create_header hc).2]; decide⟩
  | none => none

/-- The creation routines without direct execution. -/
def Deferred : Routine → Bool
  | .task | .taskEx _ | .taskDetached => true
  | _ => false

/-- The program itself runs on worker 0 of node 0; any other body is that of a task. -/
def InBody (s : State) (i v : Nat) : Prop :=
  (s.worker i v).stack ≠ [] ∨ i = 0 ∧ v = 0

instance (s : State) (i v : Nat) : Decidable (InBody s i v) :=
  haveI : Decidable ((s.worker i v).stack ≠ []) :=
    decidable_of_iff (¬ (s.worker i v).stack.isEmpty = true) (by rw [List.isEmpty_iff])
  inferInstanceAs (Decidable (_ ∨ _))

/-! ## Servers -/

/-- The queue that the `TORC_NORMAL_ENQUEUE` handler of node `i` chooses. -/
def enqueueReceived (q : Queues Work) (i : Nat) (work : Work) : Queues Work :=
  -- a task that comes home is to be taken next
  if work.desc.homenode = i then q.torcToIRq work.desc.level work
  else if work.desc.insertPrivate then
    if work.desc.insertInFront then q.torcToIPq work else q.torcToIPqEnd work
  else
    if work.desc.insertInFront then q.torcToIRq work.desc.level work
    else q.torcToIRqEnd work.desc.level work

/-- What `process_a_received_descriptor` receives after the descriptor. -/
def received (i : Nat) (mem : Nat → Int) (desc : TorcT) : TorcT × List Effect :=
  match desc.type with
  | .torcAnswer => receiveResults i desc.sourcevpid desc
  | .torcNormalEnqueue => receiveEnqueued i mem desc
  | _ => (desc, [])

/-- `process_a_received_descriptor` after the payloads, up to the stealing request. -/
def handle (s : State) (i : Nat) (desc : TorcT) : State :=
  match h : desc.type with
  | .torcNormalEnqueue =>
      let work : Work := ⟨desc, by rw [h]; decide⟩
      -- executed by the server itself, which serves nothing in the meantime
      if desc.homenode ≠ i ∧ desc.rteType = rteDirect then
        (s.setServer i (.direct work)).begin work.taskId
      else (s.setQueues i (enqueueReceived (s.node i).queues i work)).setServer i .loop
  | .directSynchronousStealingRequest => s.setServer i (.scan desc 0)
  | .enableInternodeStealing => (s.setStealing i true).setServer i .loop
  | .disableInternodeStealing => (s.setStealing i false).setServer i .loop
  -- an answer writes results and satisfies a dependency; no other type moves a task either
  | _ => s.setServer i .loop

def noWorkDesc : TorcT :=
  { type := .torcNoWork }

/-- The descriptor that answers a stealing request. -/
def replyDesc : Option Work → TorcT
  | some work => work.desc
  | none => noWorkDesc

def serverStep (s : State) (i : Nat) : Option State :=
  match (s.node i).server with
  | .loop => none
  | .handling desc => some (handle s i desc)
  | .scan request k =>
      match (s.node i).queues.torcIRqDequeue k with
      | some (work, q) => some ((s.setQueues i q).setServer i (.reply request (some work)))
      | none =>
          if k < 9 then some (s.setServer i (.scan request (k + 1)))
          else some (s.setServer i (.reply request none))
  | .reply request work =>
      some ((s.directSendDescriptor i request.sourcenode request.sourcevpid
        (replyDesc work)).setServer i .loop)
  | .direct work =>
      some (((sendAnswer s i .server work).setServer i .loop).retire work.taskId)

/-- `server_loop` receives from the thread `sender` of node `src`; a bad tag ends the program and a
payload leaves it in no defined state. -/
def receiveMessage (s : State) (i src : Nat) (sender : Thread) (mem : Nat → Int) : Option State :=
  match (s.node i).server, s.net ⟨src, sender, i, maxNvps⟩ with
  | .loop, .desc desc :: rest =>
      -- the first test of `process_a_received_descriptor`
      if maxNvps < desc.sourcevpid then some { s with aborted := true }
      else
        let (desc, calls) := received i mem desc
        some (((s.setNet ⟨src, sender, i, maxNvps⟩ rest).setCalls i .server calls).setServer i
          (.handling desc))
  | .loop, .payload _ :: _ => some { s with aborted := true }
  | _, _ => none

/-! ## The system -/

/-- `call` is the next MPI call of a thread; `setStealing` stands for `torc_i_enable_stealing` and
`torc_i_disable_stealing`. -/
inductive Act
  | spawn (i v : Nat) (r : Routine) (work : Nat) (h : ByteHeap) (cs : List CArg)
      (roundRobin : Bool) (target : Nat)
  | schedule (i v : Nat)
  | fetch (i v : Nat)
  | finish (i v : Nat)
  | advance (i v : Nat)
  | reply (i v : Nat) (sender : Thread) (mem : Nat → Int)
  | serve (i : Nat)
  | receive (i src : Nat) (sender : Thread) (mem : Nat → Int)
  | call (i : Nat) (th sender : Thread)
  | setStealing (i : Nat) (on : Bool)

def IsBody (s : State) (i v : Nat) : Bool :=
  match (s.worker i v).ctl with
  | .body => true
  | _ => false

def IsWorker (workers : List Nat) (i v : Nat) : Prop :=
  i < workers.length ∧ v < workers.getD i 0

instance (workers : List Nat) (i v : Nat) : Decidable (IsWorker workers i v) :=
  inferInstanceAs (Decidable (_ ∧ _))

theorem IsWorker.id_lt {workers : List Nat} {i v : Nat} (h : IsWorker workers i v)
    (hle : ∀ w ∈ workers, w ≤ maxNvps) : v < maxNvps := by
  have hmem : workers.getD i 0 ∈ workers := by
    rw [List.getD_eq_getElem _ _ h.1]
    exact List.getElem_mem _
  exact Nat.lt_of_lt_of_le h.2 (hle _ hmem)

/-- A cluster of one node has no server. -/
def IsThread (workers : List Nat) (i : Nat) : Thread → Prop
  | .worker v => IsWorker workers i v
  | .server => 1 < workers.length ∧ i < workers.length

instance (workers : List Nat) (i : Nat) : (th : Thread) → Decidable (IsThread workers i th)
  | .worker v => inferInstanceAs (Decidable (IsWorker workers i v))
  | .server => inferInstanceAs (Decidable (_ ∧ _))

/-- The thread has made all its calls. -/
def MayStep (workers : List Nat) (s : State) (i : Nat) (th : Thread) : Prop :=
  IsThread workers i th ∧ s.calls i th = []

instance (workers : List Nat) (s : State) (i : Nat) (th : Thread) :
    Decidable (MayStep workers s i th) :=
  haveI : Decidable (s.calls i th = []) :=
    decidable_of_iff ((s.calls i th).isEmpty = true) List.isEmpty_iff
  inferInstanceAs (Decidable (_ ∧ _))

/-- One step of a thread of the cluster; none when the thread cannot take it. -/
def threadStep (torcSize : Nat) (workers : List Nat) (s : State) : Act → Option State
  | .spawn i v r work h cs roundRobin target =>
      if MayStep workers s i (.worker v) ∧ IsBody s i v ∧ InBody s i v ∧ Deferred r ∧
          target < torcTotalNumThreads workers then
        -- outside all tasks the creator is the program's own descriptor
        let self := ((s.worker i v).stack.head?.map Work.desc).getD {}
        (createWork r { me := i, table := [], self := self } s.issued work h cs).map fun work ↦
          { s.setCtl i v (.created work roundRobin target) with issued := s.issued + 1 }
      else none
  | .schedule i v =>
      if MayStep workers s i (.worker v) ∧ IsBody s i v then
        some (s.setCtl i v (.next .loop .privateQueue))
      else none
  | .fetch i v =>
      if MayStep workers s i (.worker v) ∧ IsBody s i v ∧ InBody s i v then
        some (s.setCtl i v (.next .fetch .privateQueue))
      else none
  | .finish i v =>
      if MayStep workers s i (.worker v) ∧ IsBody s i v then finishTask s i v else none
  | .advance i v => if MayStep workers s i (.worker v) then workerStep workers s i v else none
  | .reply i v sender mem =>
      if MayStep workers s i (.worker v) then receiveReply workers s i v sender mem else none
  | .serve i => if MayStep workers s i .server then serverStep s i else none
  | .receive i src sender mem =>
      if MayStep workers s i .server then receiveMessage s i src sender mem else none
  | .call i th sender => if IsThread workers i th then callStep torcSize s i th sender else none
  | .setStealing i on => some (s.setStealing i on)

/-- The cluster with these worker counts, where a descriptor has `torcSize` bytes; a program that
was aborted takes no further step. -/
def system (torcSize : Nat) (workers : List Nat) : System State Act where
  init s := s = {}
  step a s := if s.aborted then none else threadStep torcSize workers s a

end Torc.Cluster
