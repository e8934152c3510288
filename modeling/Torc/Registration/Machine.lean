import Torc.Create
import Torc.Numbering
import Torc.Lib.Transition

/-!
# Registration after `torc_init`

`torc_register_task` spawns one task for every node, addressed by a worker id, and waits for them.
The nodes execute these tasks among others, in any order, and one node may steal from another.
-/

namespace Torc.Registration

open Transition

/-- An entry of `internode_function_table` and the call that made it, none before `torc_init`. -/
structure Entry where
  f : Nat
  call : Option Nat
  deriving DecidableEq

/-- The descriptor that the loop of `torc_register_task` creates: a task `internal` with the `long
long` value `f` by copy. -/
def registrationDesc (who : Creator) (taskId internal : Nat) (f : Int) : TorcT :=
  { fillHeader who (some who.selfAddr) (who.self.level + 1) 2 taskId internal 1 with
    args := [{ declareArgument ⟨1, ⟨who.me, .longLong⟩, .cop, 0⟩ with localarg := f }] }

/-- `registrationDesc` is the descriptor that `torc_task_ex` fills. -/
theorem torcTaskEx_registration {who : Creator} {taskId internal ptr : Nat} {h : ByteHeap}
    {c : Creation}
    (hc : torcTaskEx who true taskId internal h
      [⟨1, ⟨who.me, .longLong⟩, .cop, ptr⟩] = some c) :
    c.desc = registrationDesc who taskId internal
      (LittleEndian.intOfBytes (fun j ↦ h.mem (ptr + j)) 8) := by
  obtain ⟨as, h', hd, -, rfl⟩ := createWith_some hc
  cases hd
  rfl

inductive Stage
  | sent | queued | running
  deriving DecidableEq

/-- A task on its way to a node, in a queue of it or executed by one of its threads.  `call` is set
for the tasks of a registration. -/
structure Task where
  node : Nat
  stage : Stage
  call : Option Nat
  desc : TorcT

/-- A call of `torc_register_task` on `node` after `next` iterations of its loop; `ndep` counts its
tasks that have not completed. -/
structure Call where
  id : Nat
  node : Nat
  f : Nat
  next : Nat := 0
  ndep : Nat := 0

/-- `answers` are in flight to the node of the call. -/
structure State where
  table : Nat → List Entry
  tasks : List Task := []
  answers : List Nat := []
  calls : List Call := []
  issued : Nat := 0
  returned : List Nat := []
  aborted : Bool := false

def State.updateCall (s : State) (id : Nat) (g : Call → Call) : State :=
  { s with calls := s.calls.map fun c ↦ if c.id = id then g c else c }

/-- `_torc_depsatisfy` of the caller. -/
def State.completed (s : State) (id : Nat) : State :=
  s.updateCall id fun c ↦ { c with ndep := c.ndep - 1 }

/-- Task `k` of the list becomes `t`. -/
def State.replace (s : State) (k : Nat) (t : Task) : State :=
  { s with tasks := t :: s.tasks.eraseIdx k }

/-- The node to which `torc_create_ex` sends the task of iteration `i`; none is an `Error`. -/
def destination (workers : List Nat) (node i : Nat) : Option Nat :=
  -- on one node `torc_to_lrq_end` looks at no id
  if workers.length = 1 then some node
  else globalThreadIdToNodeId workers (i * workers.getD node 0)

def begin (workers : List Nat) (s : State) (node f : Nat) : Option State :=
  if node < workers.length then
    some { s with calls := ⟨s.issued, node, f, 0, 0⟩ :: s.calls, issued := s.issued + 1 }
  else none

/-- One iteration of the loop. -/
def spawn (workers : List Nat) (internal : Nat → Nat) (s : State) (id : Nat) : Option State :=
  match s.calls.find? fun c ↦ c.id = id with
  | none => none
  | some c =>
      if c.next < workers.length then
        match destination workers c.node c.next with
        -- `global_thread_id_to_node_id` has no node for the id
        | none => some { s with aborted := true }
        | some dst =>
            -- the counter is raised before the task is inserted
            let s' := s.updateCall id fun c ↦ { c with next := c.next + 1, ndep := c.ndep + 1 }
            let desc := registrationDesc { me := c.node, table := (s.table c.node).map Entry.f } id
              (internal c.node) c.f
            some { s' with
              tasks :=
                ⟨dst, if dst = c.node then .queued else .sent, some id, desc⟩ :: s.tasks }
      else none

/-- `torc_register_task_internal` on a table of `MAX_TORC_TASKS` entries; none is a store outside
of it. -/
def torcRegisterTaskInternal (table : List Entry) (f id : Nat) : Option (List Entry) :=
  if table.length < maxTorcTasks then some (table ++ [⟨f, some id⟩]) else none

/-- The table after the body of a task; none where a registration calls something else than
`torc_register_task_internal`. -/
def runBody (internal : Nat → Nat) (table : List Entry) (t : Task) : Option (List Entry) :=
  match t.call with
  | none => some table
  | some id =>
      -- the address is that of the creator where the function has no index
      if calledFunction (table.map Entry.f) t.desc = internal t.node then
        torcRegisterTaskInternal table ((t.desc.args.map Arg.localarg).headD 0).toNat id
      else none

/-- `_torc_cleanup` of a registration. -/
def cleanup (s : State) (t : Task) : State :=
  match t.call with
  | none => s
  | some id =>
      -- on the home node the counter is lowered at once
      if t.desc.homenode = t.node then s.completed id else { s with answers := id :: s.answers }

def finish (internal : Nat → Nat) (s : State) (k : Nat) : Option State :=
  match s.tasks[k]? with
  | none => none
  | some t =>
      if t.stage = .running then
        match runBody internal (s.table t.node) t with
        | none => some { s with aborted := true }
        | some table =>
            some (cleanup { s with table := Function.update s.table t.node table,
                                   tasks := s.tasks.eraseIdx k } t)
      else none

/-- Task `k` goes from one stage to another, perhaps of another node. -/
def move (s : State) (k : Nat) (stage stage' : Stage) (node : Nat → Nat) : Option State :=
  match s.tasks[k]? with
  | none => none
  | some t =>
      if t.stage = stage then some (s.replace k { t with node := node t.node, stage := stage' })
      else none

/-- The wait at the end of the call. -/
def wait (workers : List Nat) (s : State) (id : Nat) : Option State :=
  match s.calls.find? fun c ↦ c.id = id with
  | none => none
  | some c =>
      if c.next = workers.length ∧ c.ndep = 0 then
        some { s with calls := s.calls.filter (·.id ≠ id), returned := s.returned ++ [id] }
      else none

/-- `other` is any other task that is spawned; `answered` handles answer `k`. -/
inductive Act
  | begin (node f : Nat)
  | spawn (id : Nat)
  | other (node : Nat) (desc : TorcT)
  | arrive (k : Nat)
  | take (k : Nat)
  | steal (k thief : Nat)
  | finish (k : Nat)
  | answered (k : Nat)
  | wait (id : Nat)

def threadStep (workers : List Nat) (internal : Nat → Nat) (s : State) : Act → Option State
  | .begin node f => begin workers s node f
  | .spawn id => spawn workers internal s id
  | .other node desc => some { s with tasks := ⟨node, .sent, none, desc⟩ :: s.tasks }
  | .arrive k => move s k .sent .queued id
  | .take k => move s k .queued .running id
  | .steal k thief => move s k .queued .sent fun _ ↦ thief
  | .finish k => finish internal s k
  | .answered k =>
      match s.answers[k]? with
      | none => none
      | some id => some ({ s with answers := s.answers.eraseIdx k }.completed id)
  | .wait id => wait workers s id

/-- Nodes with these worker counts, node `i` having `torc_register_task_internal` at address
`internal i`; before `torc_init` all registered the same number of functions. -/
def system (workers : List Nat) (internal : Nat → Nat) : System State Act where
  init s := ∃ (table : Nat → List Entry) (m : Nat),
    (∀ i, (table i).length = m ∧ ∀ e ∈ table i, e.call = none) ∧
    s = { table := table }
  step a s := if s.aborted then none else threadStep workers internal s a

/-- Every table has exactly one entry made by the call, at one and the same index. -/
def Registered (n : Nat) (s : State) (id : Nat) : Prop :=
  ∃ k : Nat, ∀ i < n, ∀ m : Nat,
    (∃ e, (s.table i)[m]? = some e ∧ e.call = some id) ↔ m = k

/-- The ids `i * torc_i_num_workers()` that a call on `node` uses belong to the nodes `i`. -/
def ReachesEveryNode (workers : List Nat) (node : Nat) : Prop :=
  ∀ i < workers.length, destination workers node i = some i

/-- No two registrations at a time, each by a node that reaches every node, has the routine at the
same address as all of them and finds room in their tables; no registration is stolen. -/
def Permitted (workers : List Nat) (internal : Nat → Nat) : Act → State → Prop
  | .begin node _, s =>
      s.calls = [] ∧ ReachesEveryNode workers node ∧
        ∀ i < workers.length, internal i = internal node ∧ (s.table i).length < maxTorcTasks
  | .steal k _, s => ∀ t, s.tasks[k]? = some t → t.call = none
  | _, _ => True

end Torc.Registration
