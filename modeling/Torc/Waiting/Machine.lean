import Torc.Waiting.Tasks
import Torc.Messages.Machine

/-!
# Waiting

Workers that spawn, wait, execute and complete tasks, and servers that receive the answers, next to
all the messages of `Torc.Messages`.  The descriptors of tasks that are still to be executed move
between the nodes in any way; their messages are among those that any thread sends at any time.
-/

namespace Torc.Waiting

open Transition Messages

/-- `handling i` is the answer that the server of node `i` is processing, and `written` the results
that have arrived at their home address: task and argument. -/
structure State where
  tasks : Tasks := {}
  msgs : Messages.State := {}
  handling : Nat → Option TorcT := fun _ ↦ none
  written : List (Nat × Nat) := []

/-- What a worker does on its stack. -/
inductive BodyAct
  | startSpawn
  | countChild (r : Routine) (work : Nat) (h : ByteHeap) (cs : List CArg)
  | createChild
  | createDetached (work : Nat) (h : ByteHeap) (cs : List CArg)
  | startWait (w : Wait)
  | poll
  | idle
  | execute (k : Nat)
  | release

def bodyStep (t : Tasks) (i v : Nat) : BodyAct → Option Tasks
  | .startSpawn => t.startSpawn i v
  | .countChild r work h cs => t.countChild i v r work h cs
  | .createChild => t.createChild i v
  | .createDetached work h cs =>
      if (t.stack i v).head?.map Frame.ctl = some .running then t.createDetached i work h cs
      else none
  | .startWait w => t.startWait i v w
  | .poll => t.poll i v
  | .idle => t.idle i v
  | .execute k => t.execute i v k
  | .release => t.release i v

inductive MoveAct
  | depart (k : Nat) (back : Bool)
  | hold (i : Nat)
  | drop (i addr : Nat)
  | arrive (k i addr : Nat)

def moveStep (t : Tasks) : MoveAct → Option Tasks
  | .depart k back => t.depart k back
  | .hold i => some (t.hold i)
  | .drop i addr => t.drop i addr
  | .arrive k i addr => t.arrive i addr k (.ready i addr)

inductive Act
  | body (i v : Nat) (a : BodyAct)
  | move (a : MoveAct)
  | cleanup (i v : Nat)
  | serve (k i addr : Nat)
  | detach (i work : Nat) (h : ByteHeap) (cs : List CArg)
  | finish (i : Nat)
  | satisfy (i : Nat)
  | net (a : Messages.Act)

/-- `_torc_cleanup` for the top task of worker `v`: away from its home node it sends an answer. -/
def cleanup (s : State) (i v : Nat) : Option State :=
  match s.tasks.stack i v with
  | f :: _ =>
      (s.tasks.cleanup i v).map fun t ↦
        -- the answer tells the home node, which lowers the counter there
        if (s.tasks.desc f.task).homenode ≠ i then
          { s with
            tasks := t
            msgs := s.msgs.enter i v (sendDescriptorOps i v s.msgs.uid
              (s.tasks.desc f.task).homenode (s.tasks.desc f.task) .torcAnswer) [] }
        else { s with tasks := t }
  | [] => none

/-- The server of node `i` receives task `k` and is to execute it. -/
def serve (s : State) (k i addr : Nat) : Option State :=
  -- a message that comes while the server is in a body waits
  if s.msgs.ops i maxNvps = [] ∧ s.handling i = none ∧ (s.tasks.desc k).homenode ≠ i ∧
      (s.tasks.desc k).rteType = rteDirect then
    (s.tasks.arrive i addr k (.served i addr)).map fun t ↦
      { s with tasks := t, msgs := s.msgs.setOps i maxNvps [.body (s.tasks.desc k)] }
  else none

/-- The body that the server executes returns, and the answer is sent. -/
def finish (s : State) (i : Nat) : Option State :=
  match s.msgs.ops i maxNvps with
  | .body d :: _ =>
      (Messages.finish s.msgs i).map fun m ↦
        { s with msgs := m, tasks := s.tasks.setStatus d.taskId (.answering i) }
  | _ => none

/-- The end of the `TORC_ANSWER` handler. -/
def satisfy (s : State) (i : Nat) : Option State :=
  match s.handling i with
  | some d =>
      if s.msgs.ops i maxNvps = [] then
        some { s with
          tasks := s.tasks.complete i d.taskId d.parent d.sourcenode
          handling := Function.update s.handling i none }
      else none
  | none => none

/-- A descriptor of `descSize` bytes that arrives in the place of a result is stored if there is
room for it. -/
def fits (descSize : Nat) (d : TorcT) (arg count : Nat) : Packet → Bool
  | .desc _ _ => descSize ≤ count * (d.args[arg]?.map fun a ↦ a.btype.size).getD 0
  | .payload _ _ _ => false

/-- A thread makes its next call; a result that the server receives for an answer is written. -/
def advance (workers : List Nat) (descSize : Nat) (s : State) (i v : Nat) (mem : Nat → Int) :
    Option State :=
  match s.msgs.ops i v, s.handling i with
  | .recv src tag uid arg count :: rest, some d =>
      -- only the server has an answer in its hands
      if v = maxNvps then
        match s.msgs.net ⟨src, i, tag⟩ with
        | [] => none
        | p :: l =>
            let msgs := (s.msgs.setOps i v rest).setNet ⟨src, i, tag⟩ l
            if p = .payload uid arg count then
              some { s with msgs := msgs, written := s.written ++ [(d.taskId, arg)] }
            -- a descriptor from the same node has this tag too
            else if fits descSize d arg count p then some { s with msgs := msgs }
            else some { s with msgs := { s.msgs with broken := true } }
      else ((Messages.system workers).step (.advance i v mem) s.msgs).map fun m ↦
        { s with msgs := m }
  | _, _ => ((Messages.system workers).step (.advance i v mem) s.msgs).map fun m ↦
      { s with msgs := m }

/-- The server receives a descriptor; it has no other answer to process. -/
def receive (workers : List Nat) (s : State) (i src : Nat) (mem : Nat → Int) : Option State :=
  if s.handling i = none then
    ((Messages.system workers).step (.receive i src mem) s.msgs).map fun m ↦
      match s.msgs.net ⟨src, i, maxNvps⟩ with
      | .desc _ d :: _ =>
          if d.type = .torcAnswer then
            { s with msgs := m, handling := Function.update s.handling i (some d) }
          else { s with msgs := m }
      | _ => { s with msgs := m }
  else none

/-- Messages that no task of this model is in: all but answers and tasks for direct execution. -/
def netStep (workers : List Nat) (descSize : Nat) (s : State) : Messages.Act → Option State
  -- tasks and answers enter by the steps above, which keep the statuses in step
  | .send i v node desc type =>
      if type ≠ .torcAnswer ∧ ¬ (type = .torcNormalEnqueue ∧ desc.rteType = rteDirect) then
        ((Messages.system workers).step (.send i v node desc type) s.msgs).map fun m ↦
          { s with msgs := m }
      else none
  | .advance i v mem => advance workers descSize s i v mem
  | .receive i src mem => receive workers s i src mem
  | .finish _ => none
  | a => ((Messages.system workers).step a s.msgs).map fun m ↦ { s with msgs := m }

/-- Worker `v` of node `i` is in no call of MPI. -/
def Free (workers : List Nat) (s : State) (i v : Nat) : Prop :=
  IsThread workers i v ∧ v ≠ maxNvps ∧ s.msgs.ops i v = []

instance (workers : List Nat) (s : State) (i v : Nat) : Decidable (Free workers s i v) :=
  inferInstanceAs (Decidable (_ ∧ _))

def threadStep (workers : List Nat) (descSize : Nat) (s : State) : Act → Option State
  | .body i v a =>
      if Free workers s i v then (bodyStep s.tasks i v a).map fun t ↦ { s with tasks := t }
      else none
  | .move a => (moveStep s.tasks a).map fun t ↦ { s with tasks := t }
  | .cleanup i v => if Free workers s i v then cleanup s i v else none
  | .serve k i addr => if IsThread workers i maxNvps then serve s k i addr else none
  | .detach i work h cs =>
      -- from the body of a task that the server executes
      match s.msgs.ops i maxNvps with
      | .body _ :: _ =>
          (s.tasks.createDetached i work h cs).map fun t ↦ { s with tasks := t }
      | _ => none
  | .finish i => if IsThread workers i maxNvps then finish s i else none
  | .satisfy i => satisfy s i
  | .net a => netStep workers descSize s a

/-- The program runs on worker 0 of node 0. -/
def system (workers : List Nat) (descSize : Nat) : System State Act where
  init s := s = {}
  step a s := if s.msgs.broken then none else threadStep workers descSize s a

/-- Every body waits after its last spawn before it returns. -/
def Waits : Act → State → Prop
  | .cleanup i v, s => ∀ f ∈ (s.tasks.stack i v).head?, f.pending = false
  | _, _ => True

/-- If thread `v` of node `i` is about to receive a payload, it gets the one that it expects. -/
def Expects (s : State) (i v : Nat) : Prop :=
  ∀ src tag uid arg count rest p l, s.msgs.ops i v = .recv src tag uid arg count :: rest →
    s.msgs.net ⟨src, i, tag⟩ = p :: l → p = .payload uid arg count

def Matched : Act → State → Prop
  | .net (.advance i v _), s => Expects s i v
  | _, _ => True

/-- No thread with the id `MAX_NVPS` sends a payload or a stealing request. -/
def WorkersSend : Act → State → Prop
  | .finish i, s => Messages.Permitted (.finish i) s.msgs
  | .net a, s => Messages.Permitted a s.msgs
  | _, _ => True

end Torc.Waiting
