import Torc.Parallel.Machine
import Torc.Parallel.Results

/-!
# What a step of the cluster does

Each step of a thread changes a few parts of the state.  While it looks for a task, a worker comes
nearer to the end of its round.
-/

namespace Torc.Parallel

open Cluster (Pos IsWorker)

variable {β : Type}

/-! ## Places in the code -/

/-- The nodes that a round of steal attempts of node `i` has not asked yet, from `node` on. -/
def ringLeft (n i node : Nat) : Nat :=
  if node ≤ i then i - node else i + n - node

/-- An upper bound for the steps to the end of `get_next_task`; 30 for each node to be asked. -/
def posRank (n i : Nat) : Pos → Nat
  | .privateQueue => 30 * n + 11
  | .publicQueue j => 30 * n + j + 1
  | .steal node => 30 * ringLeft n i node

/-- The second call of `get_next_task` is to come. -/
def callRank (n : Nat) (again : Bool) : Nat :=
  if again then 1 else 30 * n + 13

namespace WorkerCtl

def rank (n i : Nat) : WorkerCtl → Nat
  | .body | .got _ => 0
  | .next again pos => callRank n again + posRank n i pos
  | .waitReply again node => callRank n again + (30 * ringLeft n i node - 25)

/-- Without a task and not waiting for a reply. -/
def Idle : WorkerCtl → Prop
  | .body | .next _ _ => True
  | .waitReply _ _ | .got _ => False

/-- A queue that is looked at is one of the ten, a node that is asked is another one. -/
def Ok (n i : Nat) : WorkerCtl → Prop
  | .next _ (.publicQueue j) => j < 10
  | .next _ (.steal node) | .waitReply _ node => node < n ∧ node ≠ i
  | _ => True

end WorkerCtl

def Content.IsReply : Content β → Prop
  | .reply _ => True
  | _ => False

/-- A reply comes from a server to a worker, anything else goes from a worker to a server. -/
def MsgOk (workers : List Nat) (m : Msg β) : Prop :=
  match m.content with
  | .reply _ => m.chan.thread = maxNvps ∧ ∃ v, IsWorker workers m.chan.dst v ∧
      m.chan.tag = waitTag v
  | _ => m.chan.tag = maxNvps ∧ m.chan.dst < workers.length ∧ 1 < workers.length ∧
      IsWorker workers m.chan.src m.chan.thread

def ServerCtl.Ok (workers : List Nat) : ServerCtl β → Prop
  | .loop => True
  | .handling src thread x => ¬ x.IsReply ∧
      match x with
      | .request => IsWorker workers src thread
      | _ => True
  | .scan thief vpid j => j < 10 ∧ IsWorker workers thief vpid
  | .reply thief vpid _ => IsWorker workers thief vpid

/-- Everything is in its range. -/
structure Sound (workers : List Nat) (s : State β) : Prop where
  worker : ∀ i v, IsWorker workers i v ∨ s.worker i v = {}
  ctl : ∀ i v, (s.worker i v).ctl.Ok workers.length i
  server : ∀ i, (s.node i).server.Ok workers
  serving : ∀ i, (i < workers.length ∧ 1 < workers.length) ∨ (s.node i).server = .loop
  queues : ∀ i, i < workers.length ∨ (s.node i).queues.tasks = []
  net : ∀ m ∈ s.net, MsgOk workers m
  home : ∀ k, (s.tasks.desc k).homenode < workers.length

/-! ## Steps -/

def State.setTasks (s : State β) (t : Tasks β) : State β :=
  { s with tasks := t }

def State.setNet (s : State β) (net : List (Msg β)) : State β :=
  { s with net := net }

def State.setRoundRobin (s : State β) (i : Nat) (r : RoundRobin.State) : State β :=
  s.setNode i { s.node i with roundRobin := r }

def State.countAttempt (s : State β) (i : Nat) : State β :=
  s.setNode i { s.node i with stealAttempts := (s.node i).stealAttempts + 1 }

def State.countServed (s : State β) (i : Nat) (work : Option Nat) : State β :=
  s.setNode i { s.node i with
    stealServed := (s.node i).stealServed + if work.isSome then 1 else 0 }

def State.countHit (s : State β) (i : Nat) : State β :=
  s.setNode i { s.node i with stealHits := (s.node i).stealHits + 1 }

/-- What `f` reads of the nodes is left when a node changes in nothing that `f` reads. -/
theorem node_setNode_eq {α : Type} (f : Node β → α) {s : State β} {i : Nat} {nd : Node β}
    (h : f nd = f (s.node i)) (j : Nat) : f ((s.setNode i nd).node j) = f (s.node j) := by
  by_cases hj : j = i
  · subst hj
    simpa [State.setNode] using h
  · simp [State.setNode, Function.update_of_ne hj]

/-- Worker `v` of node `i` runs the body of task `k` on top of the tasks `rest`. -/
structure Runs (workers : List Nat) (s : State β) (i v k : Nat) (rest : List Nat) : Prop where
  isWorker : IsWorker workers i v
  ctl : (s.worker i v).ctl = .body
  stack : (s.worker i v).stack = k :: rest

/-- The static variable of `torc_to_rq_end` stays as it is or gets a worker id. -/
def Turns (workers : List Nat) (s : State β) (i : Nat) (r : RoundRobin.State) : Prop :=
  r = (s.node i).roundRobin ∨ ∃ g, r = ⟨true, g % RoundRobin.torcNumWorkers workers i⟩

/-- The tasks at a position of a search. -/
def tasksAt (q : Queues Nat) : Pos → List Nat
  | .privateQueue => q.privateGrq
  | .publicQueue j => q.publicGrq j
  | .steal _ => []

/-- Task `k` leaves the queues and the others stay where they are. -/
structure Removes (q : Queues Nat) (k : Nat) (q' : Queues Nat) : Prop where
  perm : q.tasks.Perm (k :: q'.tasks)
  keeps : ∀ pos, ∀ j ∈ tasksAt q pos, j = k ∨ j ∈ tasksAt q' pos

structure Inserts (q : Queues Nat) (k : Nat) (q' : Queues Nat) : Prop where
  perm : q'.tasks.Perm (k :: q.tasks)
  keeps : ∀ pos, ∀ j ∈ tasksAt q pos, j ∈ tasksAt q' pos

/-- The ways in which the threads get on. -/
inductive Move (workers : List Nat) (s : State β) : Thread → State β → Prop
  | goOn {i v k : Nat} {rest : List Nat} {f : Frame β} {n : Int}
      (hruns : Runs workers s i v k rest)
      (hstep : Tasks.BodyStep s.tasks k i (s.tasks.goOn k f n)) :
      Move workers s (.worker i v) (s.setTasks (s.tasks.goOn k f n))
  | createHere {i v k : Nat} {rest : List Nat} {child code : Body β} {r : RoundRobin.State}
      {level : Int} (hruns : Runs workers s i v k rest) (hturn : Turns workers s i r)
      (hstep : Tasks.BodyStep s.tasks k i (s.tasks.createChild k i child code)) :
      Move workers s (.worker i v) (((s.setTasks (s.tasks.createChild k i child
        code)).setRoundRobin i r).setQueues i ((s.node i).queues.torcToIRqEnd level s.tasks.issued))
  | createAway {i v k node : Nat} {rest : List Nat} {child code : Body β} {r : RoundRobin.State}
      (hruns : Runs workers s i v k rest) (hturn : Turns workers s i r)
      (hstep : Tasks.BodyStep s.tasks k i (s.tasks.createChild k i child code))
      (hnode : node < workers.length) (hne : node ≠ i) :
      Move workers s (.worker i v) (((s.setTasks (s.tasks.createChild k i child
        code)).setRoundRobin i r).send ⟨i, v, node, maxNvps⟩ (.enqueue s.tasks.issued))
  | returnHome {i v k : Nat} {rest : List Nat} {result : β} (hruns : Runs workers s i v k rest)
      (hstep : Tasks.BodyStep s.tasks k i (s.tasks.complete k result)) :
      Move workers s (.worker i v) ((s.setTasks (s.tasks.complete k result)).setStack i v rest)
  | returnAway {i v k : Nat} {rest : List Nat} {result : β} (hruns : Runs workers s i v k rest)
      (hstep : Tasks.BodyStep s.tasks k i (s.tasks.answer k result))
      (hhome : (s.tasks.desc k).homenode ≠ i) :
      Move workers s (.worker i v) (((s.setTasks (s.tasks.answer k result)).send
        ⟨i, v, (s.tasks.desc k).homenode, maxNvps⟩ (.answer k result)).setStack i v rest)
  | found {i v k : Nat} {again : Bool} {pos : Pos} {q : Queues Nat}
      (hworker : IsWorker workers i v) (hctl : (s.worker i v).ctl = .next again pos)
      (hqueues : Removes (s.node i).queues k q) :
      Move workers s (.worker i v) ((s.setQueues i q).setCtl i v (.got k))
  | pass {i v : Nat} {again on : Bool} {pos : Pos} {c : WorkerCtl} (hworker : IsWorker workers i v)
      (hctl : (s.worker i v).ctl = .next again pos) (hidle : c.Idle) (hok : c.Ok workers.length i)
      (hrank : c.rank workers.length i < WorkerCtl.rank workers.length i (.next again pos)) :
      Move workers s (.worker i v) ((s.setStealing i on).setCtl i v c)
  | ask {i v node : Nat} {again : Bool} (hworker : IsWorker workers i v)
      (hctl : (s.worker i v).ctl = .next again (.steal node))
      (hfree : (s.node i).internodeM = false) :
      Move workers s (.worker i v) (((s.lockInternode i true).send ⟨i, v, node, maxNvps⟩
        .request).setCtl i v (.waitReply again node))
  | refused {i v node : Nat} {again on : Bool} {net : List (Msg β)} {c : WorkerCtl}
      (hworker : IsWorker workers i v) (hctl : (s.worker i v).ctl = .waitReply again node)
      (htake : Mailbox.take ⟨node, maxNvps, i, waitTag v⟩ s.net = some (.reply none, net))
      (hidle : c.Idle) (hok : c.Ok workers.length i)
      (hrank : c.rank workers.length i < WorkerCtl.rank workers.length i (.waitReply again node)) :
      Move workers s (.worker i v)
        ((((s.setNet net).lockInternode i false).setStealing i on).setCtl i v c)
  | stolen {i v k node : Nat} {again : Bool} {net : List (Msg β)}
      (hworker : IsWorker workers i v) (hctl : (s.worker i v).ctl = .waitReply again node)
      (htake : Mailbox.take ⟨node, maxNvps, i, waitTag v⟩ s.net = some (.reply (some k), net)) :
      Move workers s (.worker i v)
        ((((s.setNet net).lockInternode i false).countHit i).setCtl i v (.got k))
  | execute {i v k : Nat} (hworker : IsWorker workers i v) (hctl : (s.worker i v).ctl = .got k) :
      Move workers s (.worker i v) (execute s i v k)
  | receive {i src thread : Nat} {x : Content β} {net : List (Msg β)}
      (hnodes : 1 < workers.length) (hi : i < workers.length)
      (hserver : (s.node i).server = .loop)
      (htake : Mailbox.take ⟨src, thread, i, maxNvps⟩ s.net = some (x, net)) :
      Move workers s (.receiver i src thread) ((s.setNet net).setServer i (.handling src thread x))
  | enqueue {i src thread k : Nat} {q : Queues Nat} (hi : i < workers.length)
      (hserver : (s.node i).server = .handling src thread (.enqueue k))
      (hqueues : Inserts (s.node i).queues k q) :
      Move workers s (.server i) ((s.setQueues i q).setServer i .loop)
  | request {i src thread : Nat} (hnodes : 1 < workers.length) (hi : i < workers.length)
      (hserver : (s.node i).server = .handling src thread .request) :
      Move workers s (.server i) ((s.countAttempt i).setServer i (.scan src thread 0))
  | answer {i src thread k : Nat} {result : β}
      (hserver : (s.node i).server = .handling src thread (.answer k result)) :
      Move workers s (.server i) ((s.setTasks (s.tasks.complete k result)).setServer i .loop)
  | scanFound {i thief vpid j k : Nat} {q : Queues Nat} (hnodes : 1 < workers.length)
      (hi : i < workers.length) (hserver : (s.node i).server = .scan thief vpid j)
      (hqueues : Removes (s.node i).queues k q) :
      Move workers s (.server i) ((s.setQueues i q).setServer i (.reply thief vpid (some k)))
  | scanNext {i thief vpid j : Nat} (hnodes : 1 < workers.length) (hi : i < workers.length)
      (hserver : (s.node i).server = .scan thief vpid j) (hj : j < 9) :
      Move workers s (.server i) (s.setServer i (.scan thief vpid (j + 1)))
  | scanNone {i thief vpid j : Nat} (hnodes : 1 < workers.length) (hi : i < workers.length)
      (hserver : (s.node i).server = .scan thief vpid j) :
      Move workers s (.server i) (s.setServer i (.reply thief vpid none))
  | replied {i thief vpid : Nat} {work : Option Nat}
      (hserver : (s.node i).server = .reply thief vpid work) :
      Move workers s (.server i)
        (((s.countServed i work).send ⟨i, maxNvps, thief, replyTag vpid⟩
        (.reply work)).setServer i .loop)

/-- Besides these a worker that has nothing to do begins to look for a task, and stealing is
switched on or off. -/
inductive Change (workers : List Nat) (s : State β) : Option Thread → State β → Prop
  | move {θ : Thread} {s' : State β} (h : Move workers s θ s') : Change workers s (some θ) s'
  | poll {i v : Nat} (hworker : IsWorker workers i v) (hctl : (s.worker i v).ctl = .body) :
      Change workers s (some (.worker i v)) (s.setCtl i v (.next false .privateQueue))
  | toggle {i : Nat} {on : Bool} : Change workers s none (s.setStealing i on)

/-! ## Queues -/

theorem removes_torcIPqDequeue {q q' : Queues Nat} {k : Nat}
    (h : q.torcIPqDequeue = some (k, q')) : Removes q k q' where
  perm := by rw [Queues.torcIPqDequeue_tasks h]
  keeps pos j hj := by
    unfold Queues.torcIPqDequeue at h
    split at h
    case h_1 => cases h
    case h_2 hq =>
      cases h
      cases pos with
      | privateQueue =>
          rw [tasksAt, hq] at hj
          exact List.mem_cons.mp hj
      | _ => exact .inr hj

theorem removes_torcIRqDequeue {q q' : Queues Nat} {i k : Nat} (hi : i < 10)
    (h : q.torcIRqDequeue i = some (k, q')) : Removes q k q' where
  perm := Queues.torcIRqDequeue_tasks hi h
  keeps pos j hj := by
    unfold Queues.torcIRqDequeue at h
    split at h
    case h_1 => cases h
    case h_2 rest hq =>
      cases h
      cases pos with
      | publicQueue i' =>
          by_cases hi' : i' = i
          · subst hi'
            rw [tasksAt, hq] at hj
            rw [tasksAt, Queues.setPublic_self]
            exact List.mem_cons.mp hj
          · right
            simpa [tasksAt, Queues.setPublic, Function.update_of_ne hi'] using hj
      | _ => exact .inr hj

/-- A public queue gets a task in front or at its end. -/
theorem inserts_setPublic {q : Queues Nat} {i k : Nat} {l : List Nat} (hi : i < 10)
    (hl : l.Perm (k :: q.publicGrq i)) : Inserts q k (q.setPublic i l) where
  perm := Queues.tasks_setPublic_perm hi hl
  keeps pos j hj := by
    cases pos with
    | publicQueue i' =>
        by_cases hi' : i' = i
        · subst hi'
          rw [tasksAt, Queues.setPublic_self]
          exact hl.mem_iff.mpr (List.mem_cons_of_mem _ hj)
        · simpa [tasksAt, Queues.setPublic, Function.update_of_ne hi'] using hj
    | _ => exact hj

theorem inserts_torcToIRq (q : Queues Nat) (level : Int) (k : Nat) :
    Inserts q k (q.torcToIRq level k) :=
  inserts_setPublic (rqIndex_lt level) (List.Perm.refl _)

theorem inserts_torcToIRqEnd (q : Queues Nat) (level : Int) (k : Nat) :
    Inserts q k (q.torcToIRqEnd level k) :=
  inserts_setPublic (rqIndex_lt level) (List.perm_append_singleton _ _)

/-! ## Looking for a task -/

variable {workers : List Nat} {s s' : State β} {i v : Nat}

theorem setStealing_self (s : State β) (i : Nat) :
    s.setStealing i (s.node i).internodeStealing = s := by
  unfold State.setStealing State.setNode
  rw [Function.update_eq_self]

theorem noTask_eq (workers : List Nat) (s : State β) (i v : Nat) (again on : Bool) :
    ∃ c, noTask (s.setStealing i on) i v again = (s.setStealing i on).setCtl i v c ∧ c.Idle ∧
      c.Ok workers.length i ∧ c.rank workers.length i < callRank workers.length again := by
  refine ⟨if again then .body else .next true .privateQueue, rfl, ?_⟩
  cases again
  · refine ⟨trivial, trivial, ?_⟩
    show 1 + (30 * workers.length + 11) < 30 * workers.length + 13
    omega
  · exact ⟨trivial, trivial, Nat.one_pos⟩

theorem ringLeft_next {n node : Nat} (hi : i < n) (hnode : node < n) (hne : node ≠ i) :
    ringLeft n i ((node + 1) % n) + 1 = ringLeft n i node := by
  unfold ringLeft
  by_cases hlast : node + 1 = n
  · rw [hlast, Nat.mod_self, if_pos (Nat.zero_le i), if_neg (by omega)]
    omega
  · rw [Nat.mod_eq_of_lt (by omega)]
    split <;> split <;> omega

/-- The round goes on with `node` or is over. -/
theorem stealNext_eq (s : State β) (i v : Nat) (again : Bool) {node : Nat}
    (hnode : node < workers.length) :
    ∃ on c, stealNext s i v again node = (s.setStealing i on).setCtl i v c ∧ c.Idle ∧
      c.Ok workers.length i ∧
      c.rank workers.length i ≤
        callRank workers.length again + 30 * ringLeft workers.length i node := by
  unfold stealNext
  by_cases hne : node = i
  · rw [if_neg (not_not_intro hne)]
    obtain ⟨c, heq, hidle, hok, hrank⟩ := noTask_eq workers s i v again false
    exact ⟨false, c, heq, hidle, hok, by omega⟩
  · rw [if_pos hne]
    refine ⟨(s.node i).internodeStealing, .next again (.steal node), ?_, trivial,
      ⟨hnode, hne⟩,
      le_rfl⟩
    rw [setStealing_self]

theorem nothingAt_steal (s : State β) (v : Nat) (again : Bool) {node : Nat}
    (hi : i < workers.length) (hnode : node < workers.length) (hne : node ≠ i) :
    ∃ on c, nothingAt workers s i v again (.steal node) = (s.setStealing i on).setCtl i v c ∧
      c.Idle ∧ c.Ok workers.length i ∧
      c.rank workers.length i < WorkerCtl.rank workers.length i (.waitReply again node) := by
  have hnext : (node + 1) % workers.length < workers.length :=
    Nat.mod_lt _ (Nat.zero_lt_of_lt hi)
  obtain ⟨on, c, heq, hidle, hok, hrank⟩ := stealNext_eq s i v again hnext
  refine ⟨on, c, heq, hidle, hok, ?_⟩
  have hleft := ringLeft_next hi hnode hne
  show c.rank workers.length i < callRank workers.length again +
    (30 * ringLeft workers.length i node - 25)
  omega

theorem nothingAt_queue (s : State β) (v : Nat) (again : Bool) {pos : Pos}
    (hi : i < workers.length) (hpos : ∀ node, pos ≠ .steal node)
    (hok : WorkerCtl.Ok workers.length i (.next again pos)) :
    ∃ on c, nothingAt workers s i v again pos = (s.setStealing i on).setCtl i v c ∧
      c.Idle ∧ c.Ok workers.length i ∧
      c.rank workers.length i < WorkerCtl.rank workers.length i (.next again pos) := by
  have hself := setStealing_self s i
  cases pos with
  | privateQueue =>
      refine ⟨(s.node i).internodeStealing, .next again (.publicQueue 9), ?_, trivial,
        show 9 < 10 by omega, ?_⟩
      · rw [hself]
        rfl
      · simp only [WorkerCtl.rank, posRank]
        omega
  | publicQueue j =>
      cases j with
      | succ j =>
          have hj : j + 1 < 10 := hok
          refine ⟨(s.node i).internodeStealing, .next again (.publicQueue j), ?_, trivial,
            show j < 10 by omega, ?_⟩
          · rw [hself]
            rfl
          · simp only [WorkerCtl.rank, posRank]
            omega
      | zero =>
          have hrank₀ : WorkerCtl.rank workers.length i (.next again (.publicQueue 0)) =
              callRank workers.length again + (30 * workers.length + 1) := rfl
          rw [hrank₀]
          by_cases hon : (s.node i).internodeStealing = true
          · have hgo : nothingAt workers s i v again (.publicQueue 0) =
                stealNext s i v again ((i + 1) % workers.length) := if_pos hon
            rw [hgo]
            have hnext : (i + 1) % workers.length < workers.length :=
              Nat.mod_lt _ (Nat.zero_lt_of_lt hi)
            obtain ⟨on, c, heq, hidle, hok, hrank⟩ := stealNext_eq s i v again hnext
            refine ⟨on, c, heq, hidle, hok, ?_⟩
            have hleft : ringLeft workers.length i ((i + 1) % workers.length) ≤
                workers.length := by
              unfold ringLeft
              split <;> omega
            omega
          · have hgo : nothingAt workers s i v again (.publicQueue 0) = noTask s i v again :=
              if_neg hon
            obtain ⟨c, heq, hidle, hok, hrank⟩ :=
              noTask_eq workers s i v again (s.node i).internodeStealing
            rw [hself] at heq
            exact ⟨(s.node i).internodeStealing, c, by rw [hgo, hself, heq],
              hidle, hok, by omega⟩
  | steal node => exact absurd rfl (hpos node)

theorem lookAt_move (hsound : Sound workers s) (hworker : IsWorker workers i v) {again : Bool}
    {pos : Pos} (hctl : (s.worker i v).ctl = .next again pos)
    (h : lookAt workers s i v again pos = some s') : Move workers s (.worker i v) s' := by
  have hok := hsound.ctl i v
  rw [hctl] at hok
  cases pos with
  | privateQueue =>
      simp only [lookAt] at h
      split at h
      case h_1 k q hq =>
        cases h
        exact .found hworker hctl (removes_torcIPqDequeue hq)
      case h_2 =>
        cases h
        obtain ⟨on, c, heq, hidle, hok', hrank⟩ :=
          nothingAt_queue s v again hworker.1 (by intro node hnode; cases hnode) hok
        rw [heq]
        exact .pass hworker hctl hidle hok' hrank
  | publicQueue j =>
      simp only [lookAt] at h
      split at h
      case h_1 k q hq =>
        cases h
        exact .found hworker hctl (removes_torcIRqDequeue hok hq)
      case h_2 =>
        cases h
        obtain ⟨on, c, heq, hidle, hok', hrank⟩ :=
          nothingAt_queue s v again hworker.1 (by intro node hnode; cases hnode) hok
        rw [heq]
        exact .pass hworker hctl hidle hok' hrank
  | steal node =>
      simp only [lookAt] at h
      split at h
      case isTrue => cases h
      case isFalse hfree =>
        cases h
        exact .ask hworker hctl (Bool.eq_false_iff.mpr hfree)

theorem receiveReply_move (hsound : Sound workers s) (hworker : IsWorker workers i v)
    {again : Bool} {node : Nat} (hctl : (s.worker i v).ctl = .waitReply again node)
    (h : receiveReply workers s i v again node = some s') :
    Move workers s (.worker i v) s' := by
  have hok := hsound.ctl i v
  rw [hctl] at hok
  unfold receiveReply at h
  split at h
  case h_1 net htake =>
    cases h
    obtain ⟨on, c, heq, hidle, hok', hrank⟩ := nothingAt_steal
      ({ s with net := net }.lockInternode i false) v again hworker.1 hok.1 hok.2
    rw [heq]
    exact .refused hworker hctl htake hidle hok' hrank
  case h_2 k net htake =>
    cases h
    exact .stolen hworker hctl htake
  case h_3 => cases h

/-! ## Bodies -/

theorem insertTask_cases {k target : Nat} {queue : Option Nat}
    (h : insertTask workers s i v k queue target = some s') :
    ∃ r, Turns workers s i r ∧
      ((∃ level, s' = (s.setRoundRobin i r).setQueues i
        ((s.node i).queues.torcToIRqEnd level k)) ∨
      ∃ node, node < workers.length ∧ node ≠ i ∧
        s' = (s.setRoundRobin i r).send ⟨i, v, node, maxNvps⟩ (.enqueue k)) := by
  have hself : s.setRoundRobin i (s.node i).roundRobin = s := by
    unfold State.setRoundRobin State.setNode
    rw [Function.update_eq_self]
  have hturn : ∃ r, Turns workers s i r ∧
      (if queue.isNone then turn workers s i target else s) = s.setRoundRobin i r := by
    split
    · exact ⟨_, .inr ⟨_, rfl⟩, rfl⟩
    · exact ⟨_, .inl rfl, hself.symm⟩
  obtain ⟨r, hr, hstate⟩ := hturn
  unfold insertTask at h
  by_cases hone : workers.length = 1
  · simp only [if_pos hone] at h
    cases h
    exact ⟨_, .inl rfl, .inl ⟨_, by rw [hself]⟩⟩
  · simp only [if_neg hone] at h
    cases hnode : globalThreadIdToNodeId workers (queue.getD target) with
    | none => simp [hnode] at h
    | some node =>
        simp only [hnode, hstate, Option.bind_eq_bind, Option.bind_some] at h
        split at h
        case isTrue hne =>
          cases h
          exact ⟨r, hr, .inr ⟨node, (globalThreadIdToNodeId_eq_some_iff.mp hnode).lt_length,
            Ne.symm hne, rfl⟩⟩
        case isFalse =>
          cases h
          exact ⟨r, hr, .inl ⟨_, rfl⟩⟩

theorem bodyStep_move {k target : Nat} {rest : List Nat} (hruns : Runs workers s i v k rest)
    (h : bodyStep workers s i v k rest target = some s') :
    Move workers s (.worker i v) s' ∨
    ((s.tasks.frame k).ctl = .blocked ∧ 0 < s.tasks.ndep k) ∧
      s' = s.setCtl i v (.next false .privateQueue) := by
  unfold bodyStep at h
  split at h
  case h_1 queue child code hctl hcode =>
    obtain ⟨r, hr, ⟨level, rfl⟩ | ⟨node, hnode, hne, rfl⟩⟩ := insertTask_cases h
    · exact .inl (.createHere hruns hr (.createChild hctl hcode))
    · exact .inl (.createAway hruns hr (.createChild hctl hcode) hnode hne)
  case h_2 result hctl hcode =>
    simp only at h
    split at h
    case isTrue hhome =>
      cases h
      exact .inl (.returnHome hruns (.complete hctl hcode hhome))
    case isFalse hhome =>
      cases h
      exact .inl (.returnAway hruns (.answer hctl hcode hhome) hhome)
  case h_3 rest hctl hcode =>
    split at h
    case isTrue hndep =>
      rw [Tasks.bodyStep, hctl, hcode] at h
      simp only [if_pos hndep, Option.map_some, Option.some.injEq] at h
      subst h
      have hstep : Tasks.BodyStep s.tasks k i (s.tasks.endWait k rest) :=
        .endWait hctl hcode hndep
      rw [Tasks.endWait_eq] at hstep ⊢
      exact .inl (.goOn hruns hstep)
    case isFalse hndep =>
      cases h
      exact .inr ⟨⟨hctl, Int.not_le.mp hndep⟩, rfl⟩
  case h_4 hcreate hret hwait =>
    obtain ⟨t, ht, rfl⟩ := Option.map_eq_some_iff.mp h
    have hstep := Tasks.bodyStep_cases ht
    cases hstep with
    | startSpawn hctl hcode =>
        have hstep : Tasks.BodyStep s.tasks k i (s.tasks.startSpawn k) := .startSpawn hctl hcode
        rw [Tasks.startSpawn_eq] at hstep ⊢
        exact .inl (.goOn hruns hstep)
    | countChild hctl => exact .inl (.goOn hruns (.countChild hctl))
    | beginWait hctl hcode => exact .inl (.goOn hruns (.beginWait hctl hcode))
    | createChild hctl hcode => exact absurd hcode (hcreate _ _ _ hctl)
    | endWait hctl hcode => exact absurd hcode (hwait _ hctl)
    | complete hctl hcode => exact absurd hcode (hret _ hctl)
    | answer hctl hcode => exact absurd hcode (hret _ hctl)

/-! ## All threads -/

theorem workerStep_change (hsound : Sound workers s) (hworker : IsWorker workers i v)
    {target : Nat} (h : workerStep workers s i v target = some s') :
    Change workers s (some (.worker i v)) s' := by
  unfold workerStep at h
  split at h
  case h_1 k rest hctl hstack =>
    rcases bodyStep_move ⟨hworker, hctl, hstack⟩ h with hmove | ⟨-, rfl⟩
    · exact .move hmove
    · exact .poll hworker hctl
  case h_2 hctl _ =>
    split at h
    case isTrue => cases h
    case isFalse =>
      cases h
      exact .poll hworker hctl
  case h_3 again pos hctl => exact .move (lookAt_move hsound hworker hctl h)
  case h_4 again node hctl => exact .move (receiveReply_move hsound hworker hctl h)
  case h_5 k hctl =>
    cases h
    exact .move (.execute hworker hctl)

theorem serverStep_move (hsound : Sound workers s) (hnodes : 1 < workers.length)
    (hi : i < workers.length) (h : serverStep s i = some s') : Move workers s (.server i) s' := by
  have hok := hsound.server i
  unfold serverStep at h
  split at h
  case h_1 => cases h
  case h_2 src thread x hserver =>
    rw [hserver] at hok
    cases h
    cases x with
    | enqueue k =>
        apply Move.enqueue hi hserver
        split
        · exact inserts_torcToIRq _ _ _
        · exact inserts_torcToIRqEnd _ _ _
    | request => exact .request hnodes hi hserver
    | answer k result => exact .answer hserver
    | reply work => exact absurd trivial hok.1
  case h_3 thief vpid j hserver =>
    rw [hserver] at hok
    split at h
    case h_1 k q hq =>
      cases h
      exact .scanFound hnodes hi hserver (removes_torcIRqDequeue hok.1 hq)
    case h_2 =>
      split at h
      case isTrue hj =>
        cases h
        exact .scanNext hnodes hi hserver hj
      case isFalse =>
        cases h
        exact .scanNone hnodes hi hserver
  case h_4 thief vpid work hserver =>
    cases h
    exact .replied hserver

theorem receiveMessage_move {src thread : Nat} (hnodes : 1 < workers.length)
    (hi : i < workers.length) (h : receiveMessage s i src thread = some s') :
    Move workers s (.receiver i src thread) s' := by
  unfold receiveMessage at h
  split at h
  case h_1 x net hserver htake =>
    cases h
    exact .receive hnodes hi hserver htake
  case h_2 => cases h

theorem step_change (hsound : Sound workers s) {a : Act} (h : step workers s a = some s') :
    Change workers s a.thread s' := by
  cases a with
  | work i v target =>
      simp only [step] at h
      split at h
      case isTrue hw => exact workerStep_change hsound hw.1 h
      case isFalse => cases h
  | receive i src thread =>
      simp only [step] at h
      split at h
      case isTrue hi => exact .move (receiveMessage_move hi.1 hi.2 h)
      case isFalse => cases h
  | serve i =>
      simp only [step] at h
      split at h
      case isTrue hi => exact .move (serverStep_move hsound hi.1 hi.2 h)
      case isFalse => cases h
  | setStealing i on =>
      cases h
      exact .toggle

end Torc.Parallel
