import Torc.Queue
import Torc.Descriptor
import Torc.CurrentTask
import Torc.Numbering

/-!
# The descriptors of a node

The workers and the server of one node up to its shutdown, and the descriptors that they get from
`_torc_get_reused_desc`.  What a descriptor contains matters only for the server, which decides by
it whether the descriptor is put back.
-/

namespace Torc.Pool

open Transition
open CurrentTask (Thread)

/-- Inside `_torc_get_reused_desc`: before the test of the head of `reuse_q`, before the locked part
of `_dequeue`, before the `calloc`. -/
inductive Stage
  | test
  | dequeue
  | calloc
  deriving DecidableEq

/-- What a thread is doing with a descriptor: filling it; waiting for a steal reply in it; about to
execute or queue it; in its body; about to put it back; on the server, waiting for a message in it,
processing the message, in the body of a direct task, and going on without it. -/
inductive Job
  | fill
  | asking
  | fetched
  | running
  | returning
  | waiting
  | received (m : TorcT)
  | direct
  | dropped
  deriving DecidableEq

structure Frame where
  desc : Nat
  job : Job
  deriving DecidableEq

/-- The descriptors in the hands of a thread, the latest first, and where it is inside
`_torc_get_reused_desc` with what it wants the descriptor for. -/
structure ThreadState where
  stack : List Frame := []
  getting : Option (Stage × Job) := none
  deriving DecidableEq

/-- Descriptors are numbered as they are allocated.  `peak` is the greatest number of descriptors
that were in use at one time, and `demand` the same with the threads that were about to allocate. -/
structure State where
  reuseQ : List Nat := []
  queues : Queues Nat := {}
  allocated : Nat := 0
  thread : Thread → ThreadState := fun _ ↦ {}
  peak : Nat := 0
  demand : Nat := 0

def State.set (s : State) (t : Thread) (x : ThreadState) : State :=
  { s with thread := Function.update s.thread t x }

/-- What `process_a_received_descriptor` does with the descriptor of the message; for `putBack` it
returns 1, otherwise 0. -/
inductive Processing
  | putBack
  | insert (insertPrivate inFront : Bool)
  | direct
  | request
  deriving DecidableEq

/-- The switch of `process_a_received_descriptor` on node `me`; none where the server exits or the
program aborts. -/
def processReceived (me : Nat) (m : TorcT) : Option Processing :=
  match m.type with
  | .torcAnswer => some .putBack
  | .torcNormalEnqueue =>
      if m.homenode = me then some (.insert false true)
      else if m.rteType = rteDirect then some .direct
      else some (.insert m.insertPrivate m.insertInFront)
  | .directSynchronousStealingRequest => some .request
  | .terminateWorkerThreads | .enableInternodeStealing | .disableInternodeStealing
  | .resetStatistics | .torcBcast => some .putBack
  | .terminateLocalServerThread | .unset | .torcNormal | .torcNoWork => none

def enqueue (q : Queues Nat) (level : Int) (insertPrivate inFront : Bool) (desc : Nat) :
    Queues Nat :=
  if insertPrivate then
    if inFront then q.torcToIPq desc else q.torcToIPqEnd desc
  else
    if inFront then q.torcToIRq level desc else q.torcToIRqEnd level desc

/-- From the private queue or from a public one. -/
def dequeue (q : Queues Nat) : Option Nat → Option (Nat × Queues Nat)
  | none => q.torcIPqDequeue
  | some i => if i < 10 then q.torcIRqDequeue i else none

/-- A turn of a thread with its latest descriptor, which stays in its hands: `send_descriptor` of a
new task; the steal reply; `_torc_execute`; the return of the body, with the answer; the receipt of
a message. -/
inductive Turn
  | send
  | reply (work : Bool)
  | execute
  | finish
  | receive (m : TorcT)

def Turn.next (me : Nat) : Turn → Job → Option Job
  | .send, .fill => some .returning
  | .reply work, .asking => some (if work then .fetched else .returning)
  | .execute, .fetched => some .running
  | .finish, .running => some .returning
  | .finish, .direct => some .dropped
  | .receive m, .waiting => if (processReceived me m).isSome then some (.received m) else none
  | _, _ => none

inductive Move
  | call (job : Job)
  | get
  | turn (a : Turn)
  | insert (inFront : Bool) (level : Int)
  | fetch (source : Option Nat)
  | fetchWork
  | putBack
  | process
  | forget

/-- The thread is in a body or, unless it is the server, in its own loop. -/
def ThreadState.inCode (x : ThreadState) (t : Thread) : Bool :=
  match x.stack with
  | [] => t ≠ .server
  | f :: _ => f.job = .running ∨ f.job = .direct

/-- What a thread calls `_torc_get_reused_desc` for. -/
def ThreadState.calls (x : ThreadState) (t : Thread) : Job → Bool
  | .fill | .asking => x.inCode t
  | .waiting => t = .server ∧ x.stack = []
  | _ => false

/-- One step inside `_torc_get_reused_desc`. -/
def get (s : State) (t : Thread) : Option State :=
  match s.thread t with
  | ⟨stack, some (.test, job)⟩ =>
      some (s.set t ⟨stack, some (if s.reuseQ = [] then .calloc else .dequeue, job)⟩)
  | ⟨stack, some (.dequeue, job)⟩ =>
      -- another thread may have taken the last one since the test
      match s.reuseQ with
      | [] => some (s.set t ⟨stack, some (.calloc, job)⟩)
      | d :: rest => some ({ s with reuseQ := rest }.set t ⟨⟨d, job⟩ :: stack, none⟩)
  | ⟨stack, some (.calloc, job)⟩ =>
      some
        ({ s with allocated := s.allocated + 1 }.set t ⟨⟨s.allocated, job⟩ :: stack, none⟩)
  | ⟨_, none⟩ => none

/-- `process_a_received_descriptor` after the receipt of `m` in the descriptor `d`. -/
def process (me : Nat) (s : State) (t : Thread) (d : Nat) (m : TorcT) (rest : List Frame) :
    Option State :=
  match processReceived me m with
  | some .putBack => some (s.set t ⟨⟨d, .returning⟩ :: rest, none⟩)
  | some (.insert insertPrivate inFront) =>
      some ({ s with queues := enqueue s.queues m.level insertPrivate inFront d }.set t
        ⟨rest, none⟩)
  | some .direct => some (s.set t ⟨⟨d, .direct⟩ :: rest, none⟩)
  | some .request =>
      -- the stolen descriptor is sent, and neither it nor that of the request is put back
      match s.queues.firstOf (List.range 10) with
      | some (work, q) =>
          some ({ s with queues := q }.set t
            ⟨⟨work, .dropped⟩ :: ⟨d, .dropped⟩ :: rest, none⟩)
      | none => some (s.set t ⟨⟨d, .dropped⟩ :: rest, none⟩)
  | none => none

/-- `fetch` is a dequeue in `get_next_task` and `fetchWork` the end of `torc_fetch_work`. -/
def move (me : Nat) (t : Thread) (s : State) : Move → Option State
  | .call job =>
      if (s.thread t).getting = none ∧ (s.thread t).calls t job then
        some (s.set t { s.thread t with getting := some (.test, job) })
      else none
  | .get => get s t
  | .turn a =>
      match s.thread t with
      | ⟨⟨d, job⟩ :: rest, none⟩ =>
          (a.next me job).map fun job' ↦ s.set t ⟨⟨d, job'⟩ :: rest, none⟩
      | _ => none
  | .insert inFront level =>
      match s.thread t with
      | ⟨⟨d, .fill⟩ :: rest, none⟩ =>
          some ({ s with queues := enqueue s.queues level false inFront d }.set t ⟨rest, none⟩)
      | _ => none
  | .fetch source =>
      if (s.thread t).getting = none ∧ (s.thread t).inCode t then
        (dequeue s.queues source).map fun r ↦
          { s with queues := r.2 }.set t ⟨⟨r.1, .fetched⟩ :: (s.thread t).stack, none⟩
      else none
  | .fetchWork =>
      match s.thread t with
      | ⟨⟨d, .fetched⟩ :: rest, none⟩ =>
          some ({ s with queues := s.queues.torcToIPqEnd d }.set t ⟨rest, none⟩)
      | _ => none
  | .putBack =>
      match s.thread t with
      | ⟨⟨d, .returning⟩ :: rest, none⟩ =>
          some ({ s with reuseQ := s.reuseQ ++ [d] }.set t ⟨rest, none⟩)
      | _ => none
  | .process =>
      match s.thread t with
      | ⟨⟨d, .received m⟩ :: rest, none⟩ => process me s t d m rest
      | _ => none
  | .forget =>
      match s.thread t with
      | ⟨⟨_, .dropped⟩ :: rest, none⟩ => some (s.set t ⟨rest, none⟩)
      | _ => none

def threads (kthreads : Nat) : List Thread :=
  .server :: (List.range kthreads).map .worker

def ThreadState.atCalloc (x : ThreadState) : Bool :=
  x.getting.map Prod.fst = some .calloc

/-- The descriptors in queues and in the hands of threads. -/
def State.inUse (ts : List Thread) (s : State) : Nat :=
  s.queues.tasks.length + (ts.map fun t ↦ (s.thread t).stack.length).sum

def State.obtaining (ts : List Thread) (s : State) : Nat :=
  (ts.map fun t ↦ if (s.thread t).atCalloc then 1 else 0).sum

def State.record (ts : List Thread) (s : State) : State :=
  { s with
    peak := max s.peak (s.inUse ts)
    demand := max s.demand (s.inUse ts + s.obtaining ts) }

structure Act where
  thread : Thread
  move : Move

/-- The workers of node `me`. -/
def kthreadsOf (L : Layout) (me : Nat) : Nat :=
  L.workers.getD me 0

/-- Node `me` with its server and `kthreads` workers. -/
def system (me kthreads : Nat) : System State Act where
  init s := s = {}
  step a s :=
    if a.thread ∈ threads kthreads then
      (move me a.thread s a.move).map (State.record (threads kthreads))
    else none

end Torc.Pool
