import Torc.Queue
import Torc.Lib.Transition
import Mathlib.Algebra.BigOperators.Group.List.Basic

/-!
# Fork-join programs on one worker

One node with one worker: the nested calls `torc_waitall`, `_torc_scheduler_loop(1)`,
`_torc_execute` as an explicit stack of running tasks, the bottom one being the program itself.
Only `torc_task` and `torc_waitall` occur in task bodies.
-/

namespace Torc.ForkJoin

open Transition

inductive Body
  | done
  | spawn (child rest : Body)
  | wait (rest : Body)

/-- Every body of the tree waits between its last spawn and its return; `pending` says whether this
one has spawned since its last wait. -/
def Body.Joins : Bool → Body → Prop
  | pending, .done => pending = false
  | _, .spawn child rest => child.Joins false ∧ rest.Joins true
  | _, .wait rest => rest.Joins false

/-- The tasks that a body at place `path` of the tree spawns from its child number `k` on, each with
its own descendants.  A task is named by its place: the child number `k` of `p` is `p ++ [k]`. -/
def Body.tasks : Body → List Nat → Nat → List (List Nat)
  | .done, _, _ => []
  | .spawn child rest, path, k =>
      ((path ++ [k]) :: child.tasks (path ++ [k]) 0) ++ rest.tasks path (k + 1)
  | .wait rest, path, k => rest.tasks path k

structure Task where
  addr : Nat
  parent : Option Nat
  level : Int
  path : List Nat
  body : Body

inductive Ctl
  | running
  | blocked
  deriving DecidableEq

/-- A task on the worker's stack.  `task.body` is what is left of its body and `next` the number of
its next child; it is `blocked` inside the loop of `_torc_block`. -/
structure Frame where
  task : Task
  next : Nat
  ctl : Ctl

/-- `ndep` is indexed by descriptor address and `executed` lists the tasks `_torc_execute` was
called for. -/
structure State where
  queues : Queues Task
  reuseQ : List Nat
  fresh : Nat
  ndep : Nat → Int
  internodeStealing : Bool
  stack : List Frame
  executed : List (List Nat)

/-- `_torc_get_reused_desc`: the address, what is left of `reuse_q` and the first address never
handed out. -/
def torcGetReusedDesc (reuseQ : List Nat) (fresh : Nat) : Nat × List Nat × Nat :=
  match reuseQ with
  | [] => (fresh, [], fresh + 1)
  | addr :: rest => (addr, rest, fresh)

/-- The two critical sections of `torc_task` on the caller's counter. -/
def countChild (ndep : Nat → Int) (self : Nat) : Nat → Int :=
  let ndep := if ndep self = 0 then Function.update ndep self 1 else ndep
  Function.update ndep self (ndep self + 1)

/-- The critical section at the start of `_torc_block`. -/
def beginWait (ndep : Nat → Int) (self : Nat) : Nat → Int :=
  let n := ndep self - 1
  Function.update ndep self (if n < 0 then 0 else n)

/-- `_torc_depsatisfy(desc->parent)` if there is a parent. -/
def depsatisfy (ndep : Nat → Int) : Option Nat → Nat → Int
  | none => ndep
  | some parent => Function.update ndep parent (ndep parent - 1)

def childTask (f : Frame) (addr : Nat) (child : Body) : Task :=
  ⟨addr, some f.task.addr, f.task.level + 1, f.task.path ++ [f.next], child⟩

/-- `torc_task`, called by the top frame; on one node the queue argument makes no difference. -/
def torcTask (s : State) (f : Frame) (rest : List Frame) (child body : Body) : State :=
  let (addr, reuseQ, fresh) := torcGetReusedDesc s.reuseQ s.fresh
  { s with
    reuseQ := reuseQ
    fresh := fresh
    -- the new descriptor is cleared
    ndep := Function.update (countChild s.ndep f.task.addr) addr 0
    queues := s.queues.torcToIRqEnd (f.task.level + 1) (childTask f addr child)
    stack := { f with task := { f.task with body := body }, next := f.next + 1 } :: rest }

/-- `_torc_cleanup` for the top frame, whose body has returned. -/
def torcCleanup (s : State) (f : Frame) (rest : List Frame) : State :=
  { s with
    ndep := depsatisfy s.ndep f.task.parent
    reuseQ := s.reuseQ ++ [f.task.addr]
    stack := rest }

/-- One step of the worker; none when the program has returned. -/
def step (s : State) : Option State :=
  match s.stack with
  | [] => none
  | f :: rest =>
      match f.ctl, f.task.body with
      | .running, .spawn child body => some (torcTask s f rest child body)
      | .running, .wait body =>
          some { s with
            ndep := beginWait s.ndep f.task.addr
            stack := { f with task := { f.task with body := body }, ctl := .blocked } :: rest }
      | .running, .done => if rest.isEmpty then none else some (torcCleanup s f rest)
      | .blocked, _ =>
          if s.ndep f.task.addr ≤ 0 then
            some { s with stack := { f with ctl := .running } :: rest }
          else
            match s.queues.nextLocal with
            | some (t, queues) =>
                some { s with
                  queues := queues
                  stack := ⟨t, 0, .running⟩ :: f :: rest
                  executed := s.executed ++ [t.path] }
            -- no other node to steal from: the loop polls again
            | none => some { s with internodeStealing := false }

/-- The worker 0 of node 0 after `torc_init`, about to run the body of the program. -/
def start (level : Int) (stealing : Bool) (root : Body) : State where
  queues := {}
  reuseQ := []
  fresh := 1
  ndep := fun _ ↦ 0
  internodeStealing := stealing
  stack := [⟨⟨0, none, level, [], root⟩, 0, .running⟩]
  executed := []

end Torc.ForkJoin
