import Torc.PayloadSchedule
import Torc.Lib.Transition
import Mathlib.Logic.Function.Basic

/-!
# Messages and receives

The threads of the nodes as lists of MPI calls still to be made.  A channel keeps the order of its
messages, and the calls of different threads interleave in any way.
-/

namespace Torc.Messages

open Transition

/-- MPI matches on these: source node, destination node and tag. -/
structure Chan where
  src : Nat
  dst : Nat
  tag : Nat
  deriving DecidableEq

/-- `uid` tells the calls of `send_descriptor` and `direct_send_descriptor` apart: a payload has
that of the descriptor it belongs to. -/
inductive Packet
  | desc (uid : Nat) (desc : TorcT)
  | payload (uid arg count : Nat)
  deriving DecidableEq

/-- What a thread still has to do: the calls of the routine it is in, and on a server the choice of
a task for a stealing request and the body of a directly executed task. -/
inductive Op
  | send (dst tag : Nat) (p : Packet)
  | recv (src tag uid arg count : Nat)
  | recvReply (src : Nat)
  | serve (request : TorcT)
  | body (desc : TorcT)
  deriving DecidableEq

/-- The thread of node `i` with id `v` has the calls `ops i v` before it; the id of the server is
`MAX_NVPS`. -/
structure State where
  net : Chan → List Packet := fun _ ↦ []
  ops : Nat → Nat → List Op := fun _ _ ↦ []
  uid : Nat := 0
  broken : Bool := false

def State.setNet (s : State) (c : Chan) (l : List Packet) : State :=
  { s with net := Function.update s.net c l }

def State.setOps (s : State) (i v : Nat) (l : List Op) : State :=
  { s with ops := Function.update s.ops i (Function.update (s.ops i) v l) }

/-- Thread `v` of node `i` enters a routine that makes these calls. -/
def State.enter (s : State) (i v : Nat) (l rest : List Op) : State :=
  { s.setOps i v (l ++ rest) with uid := s.uid + 1 }

/-! ## The routines -/

def payloadSends (uid : Nat) (calls : List Effect) : List Op :=
  calls.filterMap fun
    | .isend dst tag t => some (.send dst tag (.payload uid t.arg t.count))
    | _ => none

def payloadRecvs (uid : Nat) (calls : List Effect) : List Op :=
  calls.filterMap fun
    | .irecv src tag t => some (.recv src tag uid t.arg t.count)
    | _ => none

/-- `send_descriptor` by thread `v` of node `i`. -/
def sendDescriptorOps (i v uid node : Nat) (desc : TorcT) (type : MsgType) : List Op :=
  .send node maxNvps (.desc uid (stampSource i v desc type)) ::
    payloadSends uid (sendDescriptor i v node desc type)

/-- An entry of `localarg` in a descriptor that was cleared before. -/
def slotArg (x : Int) : Arg :=
  { quantity := 0, dtype := ⟨0, .char⟩, btype := .char, callway := .cop, localarg := x }

/-- The descriptor that `torc_broadcast` fills. -/
def bcastDesc (i : Nat) (buffer : Int) (count : Nat) (btype : Int) : TorcT :=
  { homenode := i, sourcenode := i, args := [(i : Int), buffer, count, btype].map slotArg }

/-- One iteration of the loop of `torc_broadcast`. -/
def torcBroadcastOps (i v uid node : Nat) (buffer : Int) (count : Nat) (btype : Int) : List Op :=
  sendDescriptorOps i v uid node (bcastDesc i buffer count btype) .torcBcast ++
    [.send node v (.payload uid 0 count)]

/-- `direct_synchronous_stealing_request`. -/
def stealingRequestOps (i v uid node : Nat) : List Op :=
  sendDescriptorOps i v uid node { homenode := i, args := [slotArg i] }
    .directSynchronousStealingRequest ++ [.recvReply node]

/-- `direct_send_descriptor` by the server of node `i`. -/
def directSendDescriptorOps (i uid : Nat) (request desc : TorcT) : List Op :=
  .send request.sourcenode (replyTag request.sourcevpid) (.desc uid (stampReply i desc)) ::
    payloadSends uid (directSendDescriptor i request.sourcenode request.sourcevpid desc)

def noWorkDesc : TorcT :=
  { type := .torcNoWork }

/-- `torc_reset_statistics` by the server of node `i`. -/
def resetOps (n i uid : Nat) : List Op :=
  ((List.range n).filter fun node ↦ node ≠ i).map fun node ↦
    -- sent one after the other by the server, without payloads
    .send node maxNvps (.desc uid (stampSource i maxNvps {} .resetStatistics))

/-- The `count` of a broadcast. -/
def bcastCount (desc : TorcT) : Nat :=
  ((desc.args[2]?.map Arg.localarg).getD 0).toNat

/-- `process_a_received_descriptor` on node `i`. -/
def processOps (n i uid uid' : Nat) (mem : Nat → Int) (desc : TorcT) : List Op :=
  match desc.type with
  | .torcAnswer => payloadRecvs uid (receiveResults i desc.sourcevpid desc).2
  | .torcNormalEnqueue =>
      payloadRecvs uid (receiveEnqueued i mem desc).2 ++
        if desc.homenode ≠ i ∧ desc.rteType = rteDirect then
          -- the server goes on to execute the task itself
          [.body (receiveEnqueued i mem desc).1]
        else []
  | .directSynchronousStealingRequest => [.serve desc]
  | .resetStatistics => resetOps n i uid'
  -- the tag is the id of the thread that broadcasts
  | .torcBcast => [.recv desc.sourcenode desc.sourcevpid uid 0 (bcastCount desc)]
  | _ => []

/-! ## The system -/

def IsThread (workers : List Nat) (i v : Nat) : Prop :=
  i < workers.length ∧ (v < workers.getD i 0 ∧ v < maxNvps ∨ v = maxNvps)

instance (workers : List Nat) (i v : Nat) : Decidable (IsThread workers i v) :=
  inferInstanceAs (Decidable (_ ∧ _))

/-- A worker enters a routine when it is in no other, a server from the body of a task that it
executes. -/
def mayEnter (workers : List Nat) (s : State) (i v : Nat) : Bool :=
  IsThread workers i v && match s.ops i v with
    -- a routine is entered between two calls, never in the middle of another
    | [] => v ≠ maxNvps
    | .body _ :: _ => v = maxNvps
    | _ => false

/-- The descriptors that are sent with these types: tasks, answers to the home node and control
messages without arguments. -/
def sendable (node : Nat) (desc : TorcT) : MsgType → Bool
  | .torcNormalEnqueue => true
  | .torcAnswer => node = desc.homenode
  | .terminateWorkerThreads | .disableInternodeStealing | .enableInternodeStealing |
    .resetStatistics => desc.narg = 0
  | _ => false

inductive Act
  | send (i v node : Nat) (desc : TorcT) (type : MsgType)
  | broadcast (i v node : Nat) (buffer : Int) (count : Nat) (btype : Int)
  | request (i v node : Nat)
  | advance (i v : Nat) (mem : Nat → Int)
  | reply (i : Nat) (work : Option TorcT)
  | finish (i : Nat)
  | receive (i src : Nat) (mem : Nat → Int)

/-- The next call of thread `v` of node `i`; a receive that matches the wrong message leaves the
program in no defined state. -/
def advance (s : State) (i v : Nat) (mem : Nat → Int) : Option State :=
  match s.ops i v with
  | .send dst tag p :: rest =>
      some ((s.setOps i v rest).setNet ⟨i, dst, tag⟩ (s.net ⟨i, dst, tag⟩ ++ [p]))
  | .recv src tag uid arg count :: rest =>
      match s.net ⟨src, i, tag⟩ with
      | [] => none
      | p :: l =>
          if p = .payload uid arg count then some ((s.setOps i v rest).setNet ⟨src, i, tag⟩ l)
          else some { s with broken := true }
  | .recvReply src :: rest =>
      match s.net ⟨src, i, waitTag v⟩ with
      | [] => none
      | .desc uid d :: l =>
          -- the payloads of a stolen task follow on the tag that the descriptor names
          some ((s.setOps i v (payloadRecvs uid (receiveStolen i v mem d).2 ++ rest)).setNet
            ⟨src, i, waitTag v⟩ l)
      | .payload _ _ _ :: _ => some { s with broken := true }
  | _ => none

/-- The server of node `i` replies to a stealing request, with a task or without. -/
def reply (s : State) (i : Nat) (work : Option TorcT) : Option State :=
  match s.ops i maxNvps with
  | .serve request :: rest =>
      -- a task in a queue has been sent as a task, not as a refusal
      if work.all fun d ↦ d.type ≠ .torcNoWork then
        some (s.enter i maxNvps
          (directSendDescriptorOps i s.uid request (work.getD noWorkDesc)) rest)
      else none
  | _ => none

/-- The body that the server of node `i` executes returns. -/
def finish (s : State) (i : Nat) : Option State :=
  match s.ops i maxNvps with
  | .body d :: rest =>
      some (s.enter i maxNvps (sendDescriptorOps i maxNvps s.uid d.homenode d .torcAnswer) rest)
  | _ => none

/-- `server_loop` of node `i` receives from node `src`; a bad tag aborts the program. -/
def receive (workers : List Nat) (s : State) (i src : Nat) (mem : Nat → Int) : Option State :=
  match s.ops i maxNvps, s.net ⟨src, i, maxNvps⟩ with
  | [], .desc uid d :: l =>
      -- the first test of `process_a_received_descriptor`
      if maxNvps < d.sourcevpid then some { s with broken := true }
      else some ((s.enter i maxNvps (processOps workers.length i uid s.uid mem d) []).setNet
        ⟨src, i, maxNvps⟩ l)
  | [], .payload _ _ _ :: _ => some { s with broken := true }
  | _, _ => none

def threadStep (workers : List Nat) (s : State) : Act → Option State
  | .send i v node desc type =>
      if mayEnter workers s i v ∧ node ≠ i ∧ sendable node desc type then
        some (s.enter i v (sendDescriptorOps i v s.uid node desc type) (s.ops i v))
      else none
  | .broadcast i v node buffer count btype =>
      if mayEnter workers s i v ∧ node ≠ i then
        some (s.enter i v (torcBroadcastOps i v s.uid node buffer count btype) (s.ops i v))
      else none
  | .request i v node =>
      if mayEnter workers s i v ∧ node ≠ i then
        some (s.enter i v (stealingRequestOps i v s.uid node) (s.ops i v))
      else none
  | .advance i v mem => if IsThread workers i v then advance s i v mem else none
  | .reply i work => if IsThread workers i maxNvps then reply s i work else none
  | .finish i => if IsThread workers i maxNvps then finish s i else none
  | .receive i src mem =>
      if IsThread workers i maxNvps then receive workers s i src mem else none

/-- Nodes with these worker counts; a node with more than `MAX_NVPS` workers has no place for their
statistics. -/
def system (workers : List Nat) : System State Act where
  init s := s = {}
  step a s := if s.broken then none else threadStep workers s a

/-- No thread with the id `MAX_NVPS` sends a payload or a stealing request. -/
def Permitted : Act → State → Prop
  | .send i v node desc type, _ =>
      v = maxNvps → sentPayloads (sendDescriptor i v node desc type) = []
  | .broadcast _ v _ _ _ _, _ => v ≠ maxNvps
  | .request _ v _, _ => v ≠ maxNvps
  | .finish i, s => ∀ d ∈ (s.ops i maxNvps).head?, ∀ t, d = .body t →
      sentPayloads (sendDescriptor i maxNvps t.homenode t .torcAnswer) = []
  | _, _ => True

/-- What each thread is about to receive is what it should: a payload of its descriptor for the
receives of arguments, results and broadcasts, a descriptor for the server and for a steal reply,
which comes on the tag that the thread waits on. -/
structure WellMatched (s : State) : Prop where
  payload : ∀ i v src tag uid arg count rest p l,
    s.ops i v = .recv src tag uid arg count :: rest → s.net ⟨src, i, tag⟩ = p :: l →
      p = .payload uid arg count
  descriptor : ∀ i src p l, s.ops i maxNvps = [] → s.net ⟨src, i, maxNvps⟩ = p :: l →
    ∃ uid d, p = .desc uid d
  reply : ∀ i v src rest p l, s.ops i v = .recvReply src :: rest →
    s.net ⟨src, i, waitTag v⟩ = p :: l → ∃ uid d, p = .desc uid d
  tag : ∀ i v src, .recvReply src ∈ s.ops i v → waitTag v = replyTag v

end Torc.Messages
