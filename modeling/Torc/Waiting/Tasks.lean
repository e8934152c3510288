import Torc.Create
import Torc.ForkJoin.Machine
import Mathlib.Data.Finset.Card
import Mathlib.Data.Finset.Range

/-!
# Tasks and their counters

The descriptors of all nodes: the counter `ndep` and the owner of each address, the pools that
addresses are taken from and put back into, and the nested tasks on the stacks of the workers.  How
a task gets from one node to another is left open here; it leaves its descriptor on the one and gets
a new one on the other.
-/

namespace Torc.Waiting

open ForkJoin (torcGetReusedDesc beginWait depsatisfy)

inductive Wait
  | waitall
  | waitall2
  deriving DecidableEq

/-- Where a task is inside the runtime: in its body; in `torc_task` behind the first critical
section or behind `_torc_depadd`; in the loop of `_torc_block` or `_torc_block2` before the test of
the counter, in the locked test, before `_torc_scheduler_loop` or behind it with nothing done; in
`_torc_cleanup` before the descriptor goes to `reuse_q`. -/
inductive Ctl
  | running
  | started
  | counted (child : Nat)
  | check (w : Wait)
  | locked
  | polling (w : Wait)
  | noWork
  | leaving
  deriving DecidableEq

/-- A task on the stack of a worker; `pending` says whether it has spawned since its last wait
began. -/
structure Frame where
  task : Nat
  addr : Nat
  pending : Bool := false
  ctl : Ctl := .running
  deriving DecidableEq

/-- What has become of a task: counted by its parent, holding a descriptor in a queue, between two
nodes, on the stack of a worker, executed by a server, waiting for its answer to arrive, completed
after it ran on a node. -/
inductive Status
  | unborn
  | counted
  | ready (i addr : Nat)
  | transit
  | running (i v : Nat)
  | served (i addr : Nat)
  | answering (i : Nat)
  | done (i : Nat)
  deriving DecidableEq

def Status.isDone : Status → Bool
  | .done _ => true
  | _ => false

/-- Task 0 is the program.  `desc k` is the descriptor of task `k` as its creation filled it,
`creator k` the task that counted it, and `owner i a` the task that has the address `a` of node
`i`. -/
structure Tasks where
  ndep : Nat → Nat → Int := fun _ _ ↦ 0
  reuseQ : Nat → List Nat := fun _ ↦ []
  fresh : Nat → Nat := fun _ ↦ 1
  held : Nat → List Nat := fun _ ↦ []
  owner : Nat → Nat → Option Nat := fun i a ↦ if i = 0 ∧ a = 0 then some 0 else none
  issued : Nat := 1
  desc : Nat → TorcT := fun _ ↦ {}
  creator : Nat → Option Nat := fun _ ↦ none
  status : Nat → Status := fun k ↦ if k = 0 then .running 0 0 else .unborn
  stack : Nat → Nat → List Frame := fun i v ↦
    if i = 0 ∧ v = 0 then [{ task := 0, addr := 0 }] else []

/-- The tracked children of `p` that are not completed. -/
def Tasks.openChildren (t : Tasks) (p : Nat) : Nat :=
  ((Finset.range t.issued).filter fun k ↦
    t.creator k = some p ∧ (t.status k).isDone = false).card

def set₂ {α : Type} (f : Nat → Nat → α) (i j : Nat) (x : α) : Nat → Nat → α :=
  Function.update f i (Function.update (f i) j x)

def Tasks.setStack (t : Tasks) (i v : Nat) (l : List Frame) : Tasks :=
  { t with stack := set₂ t.stack i v l }

def Tasks.setStatus (t : Tasks) (k : Nat) (st : Status) : Tasks :=
  { t with status := Function.update t.status k st }

def Tasks.setNdep (t : Tasks) (i : Nat) (ndep : Nat → Int) : Tasks :=
  { t with ndep := Function.update t.ndep i ndep }

/-- `_torc_get_reused_desc` and `_torc_put_reused_desc` on node `i`. -/
def Tasks.newAddr (t : Tasks) (i : Nat) : Nat :=
  (torcGetReusedDesc (t.reuseQ i) (t.fresh i)).1

def Tasks.torcGetReusedDesc (t : Tasks) (i : Nat) : Tasks :=
  { t with
    reuseQ := Function.update t.reuseQ i (ForkJoin.torcGetReusedDesc (t.reuseQ i) (t.fresh i)).2.1
    fresh := Function.update t.fresh i (ForkJoin.torcGetReusedDesc (t.reuseQ i) (t.fresh i)).2.2 }

def Tasks.torcPutReusedDesc (t : Tasks) (i addr : Nat) : Tasks :=
  { t with reuseQ := Function.update t.reuseQ i (t.reuseQ i ++ [addr]) }

/-- Task `k` gets the cleared descriptor at `addr` of node `i`. -/
def Tasks.take (t : Tasks) (i addr k : Nat) (st : Status) : Tasks :=
  { t with
    ndep := set₂ t.ndep i addr 0
    owner := set₂ t.owner i addr (some k)
    status := Function.update t.status k st }

def Tasks.leave (t : Tasks) (i addr : Nat) : Tasks :=
  { t with owner := set₂ t.owner i addr none }

/-- A new task with this descriptor. -/
def Tasks.issue (t : Tasks) (desc : TorcT) (creator : Option Nat) : Tasks :=
  { t with
    issued := t.issued + 1
    desc := Function.update t.desc t.issued desc
    creator := Function.update t.creator t.issued creator
    status := Function.update t.status t.issued .counted }

/-! ## Bodies -/

/-- The first critical section of `torc_task`. -/
def startSpawn (ndep : Nat → Int) (self : Nat) : Nat → Int :=
  -- the spawning task counts itself until it waits
  if ndep self = 0 then Function.update ndep self 1 else ndep

def torcDepadd (ndep : Nat → Int) (desc : Nat) (ndeps : Int) : Nat → Int :=
  Function.update ndep desc (ndep desc + ndeps)

def Tasks.startSpawn (t : Tasks) (i v : Nat) : Option Tasks :=
  match t.stack i v with
  | ⟨k, a, _, .running⟩ :: rest =>
      some ((t.setNdep i (Waiting.startSpawn (t.ndep i) a)).setStack i v
        (⟨k, a, true, .started⟩ :: rest))
  | _ => none

/-- `torc_task_detached` counts no child. -/
def Tracks : Routine → Bool
  | .taskDetached => false
  | _ => true

/-- `_torc_depadd`; the descriptor is filled with what the rest of the routine stores. -/
def Tasks.countChild (t : Tasks) (i v : Nat) (r : Routine) (work : Nat) (h : ByteHeap)
    (cs : List CArg) : Option Tasks :=
  match t.stack i v with
  | ⟨k, a, p, .started⟩ :: rest =>
      if Tracks r then
        (r.create { me := i, table := [], self := t.desc k, selfAddr := a } t.issued work h cs).map
          fun c ↦ ((t.setNdep i (torcDepadd (t.ndep i) a 1)).issue c.desc (some k)).setStack i v
            (⟨k, a, p, .counted t.issued⟩ :: rest)
      else none
  | _ => none

/-- The child gets its descriptor. -/
def Tasks.createChild (t : Tasks) (i v : Nat) : Option Tasks :=
  match t.stack i v with
  | ⟨k, a, p, .counted child⟩ :: rest =>
      some (((t.torcGetReusedDesc i).take i (t.newAddr i) child (.ready i (t.newAddr i))).setStack
        i v (⟨k, a, p, .running⟩ :: rest))
  | _ => none

/-- `torc_task_detached` on node `i`: no counter has a part in it. -/
def Tasks.createDetached (t : Tasks) (i work : Nat) (h : ByteHeap) (cs : List CArg) :
    Option Tasks :=
  (torcTaskDetached { me := i, table := [] } t.issued work h cs).map fun c ↦
    ((t.torcGetReusedDesc i).issue c.desc none).take i (t.newAddr i) t.issued
      (.ready i (t.newAddr i))

/-- The critical section at the start of `_torc_block` and `_torc_block2`. -/
def Tasks.startWait (t : Tasks) (i v : Nat) (w : Wait) : Option Tasks :=
  match t.stack i v with
  | ⟨k, a, _, .running⟩ :: rest =>
      some ((t.setNdep i (beginWait (t.ndep i) a)).setStack i v
        (⟨k, a, false, .check w⟩ :: rest))
  | _ => none

/-- The tests of the counter `n` in `_torc_block` and `_torc_block2`, with the counter and the place
they leave behind. -/
def pollCtl (n : Int) : Ctl → Option (Int × Ctl)
  -- an unlocked read of the counter in `_torc_block2`, a locked one in `_torc_block`
  | .check .waitall => some (n, if n ≤ 0 then .running else .polling .waitall)
  | .check .waitall2 => some (n, if 0 < n then .locked else .polling .waitall2)
  -- the return of `_torc_block2` under the lock
  | .locked => some (if n ≤ 0 then (0, .running) else (n, .polling .waitall2))
  | .noWork => some (n, if n = 0 then .running else .check .waitall2)
  | _ => none

def Tasks.poll (t : Tasks) (i v : Nat) : Option Tasks :=
  match t.stack i v with
  | ⟨k, a, p, ctl⟩ :: rest =>
      (pollCtl (t.ndep i a) ctl).map fun (n, ctl') ↦
        (t.setNdep i (Function.update (t.ndep i) a n)).setStack i v (⟨k, a, p, ctl'⟩ :: rest)
  | [] => none

/-- `_torc_scheduler_loop` found nothing. -/
def Tasks.idle (t : Tasks) (i v : Nat) : Option Tasks :=
  match t.stack i v with
  | ⟨k, a, p, .polling .waitall⟩ :: rest =>
      some (t.setStack i v (⟨k, a, p, .check .waitall⟩ :: rest))
  | ⟨k, a, p, .polling .waitall2⟩ :: rest =>
      some (t.setStack i v (⟨k, a, p, .noWork⟩ :: rest))
  | _ => none

/-- The stack under a task that `_torc_scheduler_loop` executes: a waiting task tests its counter
next. -/
def callLoop : List Frame → Option (List Frame)
  | ⟨k, a, p, .polling w⟩ :: rest => some (⟨k, a, p, .check w⟩ :: rest)
  -- the scheduler loop of a worker, which no task called
  | ⟨k, a, p, .running⟩ :: rest => some (⟨k, a, p, .running⟩ :: rest)
  | [] => some []
  | _ => none

/-- `_torc_execute` of task `k`. -/
def Tasks.execute (t : Tasks) (i v k : Nat) : Option Tasks :=
  match t.status k with
  | .ready j a =>
      if j = i then
        (callLoop (t.stack i v)).map fun l ↦
          (t.setStatus k (.running i v)).setStack i v ({ task := k, addr := a } :: l)
      else none
  | _ => none

/-! ## Completion -/

/-- The parent of task `k` is satisfied on node `i`. -/
def Tasks.complete (t : Tasks) (i k : Nat) (parent : Option Nat) (ran : Nat) : Tasks :=
  (t.setNdep i (depsatisfy (t.ndep i) parent)).setStatus k (.done ran)

/-- `_torc_cleanup` of the top task up to `_torc_put_reused_desc`, with the answer or without. -/
def Tasks.cleanup (t : Tasks) (i v : Nat) : Option Tasks :=
  match t.stack i v with
  | ⟨k, a, p, .running⟩ :: rest =>
      -- the program itself is never cleaned up
      if k = 0 then none
      else
        let t' := t.setStack i v (⟨k, a, p, .leaving⟩ :: rest)
        if (t.desc k).homenode ≠ i then some (t'.setStatus k (.answering i))
        else some (t'.complete i k (t.desc k).parent i)
  | _ => none

/-- The rest of `_torc_cleanup`. -/
def Tasks.release (t : Tasks) (i v : Nat) : Option Tasks :=
  match t.stack i v with
  | ⟨_, a, _, .leaving⟩ :: rest =>
      some (((t.leave i a).torcPutReusedDesc i a).setStack i v rest)
  | _ => none

/-! ## From node to node -/

/-- Task `k` leaves its node; its descriptor is put back when it was sent there, and is not when it
was stolen. -/
def Tasks.depart (t : Tasks) (k : Nat) (back : Bool) : Option Tasks :=
  match t.status k with
  | .ready i a =>
      let t' := (t.leave i a).setStatus k .transit
      -- a stolen task keeps the descriptor for the reply
      some (if back then t'.torcPutReusedDesc i a else t')
  | _ => none

/-- `server_loop` or `direct_synchronous_stealing_request` has a descriptor for a message. -/
def Tasks.hold (t : Tasks) (i : Nat) : Tasks :=
  { t.torcGetReusedDesc i with held := Function.update t.held i (t.newAddr i :: t.held i) }

def Tasks.unhold (t : Tasks) (i addr : Nat) : Tasks :=
  { t with held := Function.update t.held i ((t.held i).erase addr) }

/-- The message brought no task. -/
def Tasks.drop (t : Tasks) (i addr : Nat) : Option Tasks :=
  if addr ∈ t.held i then some ((t.unhold i addr).torcPutReusedDesc i addr) else none

/-- The message brought task `k`, for a queue or for the server itself. -/
def Tasks.arrive (t : Tasks) (i addr k : Nat) (st : Status) : Option Tasks :=
  if addr ∈ t.held i ∧ t.status k = .transit then
    some ((t.unhold i addr).take i addr k st)
  else none

end Torc.Waiting
