import Torc.Parallel.Moves
import Torc.Lib.Labels
import Torc.Lib.Update

/-!
# Where tasks are

Every task that has been created and is not done is at one place, and the place shows whether it is
ready, running or has an answer on its way.
-/

namespace Torc.Parallel

open Ledger
open Cluster (Pos IsWorker)

variable {β : Type}

inductive Place
  | queue (i : Nat)
  | server (i : Nat)
  | hand (i v : Nat)
  | stack (i v : Nat)
  | net
  deriving DecidableEq

def Content.entries : Content β → List (Nat × Status β)
  | .enqueue k => [(k, .ready)]
  | .request => []
  | .answer k result => [(k, .answering result)]
  | .reply work => work.toList.map fun k ↦ (k, .ready)

def WorkerCtl.entries : WorkerCtl → List (Nat × Status β)
  | .got k => [(k, .ready)]
  | _ => []

def ServerCtl.entries : ServerCtl β → List (Nat × Status β)
  | .handling _ _ x => x.entries
  | .reply _ _ work => work.toList.map fun k ↦ (k, .ready)
  | _ => []

def entries (s : State β) : Place → List (Nat × Status β)
  | .queue i => (s.node i).queues.tasks.map fun k ↦ (k, .ready)
  | .server i => (s.node i).server.entries
  | .hand i v => (s.worker i v).ctl.entries
  | .stack i v => (s.worker i v).stack.map fun k ↦ (k, .running)
  | .net => s.net.flatMap fun m ↦ m.content.entries

/-- Created and not done. -/
def Live (t : Tasks β) (k : Nat) : Prop :=
  k < t.issued ∧ (t.status k).isDone = false

def Placed (s : State β) : Prop :=
  Labelled (Live s.tasks) s.tasks.status (entries s)

variable {workers : List Nat} {s s' : State β} {i v k : Nat} {p : Place} {θ : Thread}

/-! ## Setters -/

@[simp] theorem entries_setTasks (s : State β) (t : Tasks β) :
    entries (s.setTasks t) = entries s := by
  funext p
  cases p <;> rfl

/-- Parts of a node that hold no task. -/
theorem entries_setNode {nd : Node β} (hqueues : nd.queues = (s.node i).queues)
    (hserver : nd.server = (s.node i).server) : entries (s.setNode i nd) = entries s := by
  funext p
  cases p with
  | queue j =>
      by_cases hj : j = i
      · subst hj
        simp [entries, State.setNode, hqueues]
      · simp [entries, State.setNode, Function.update_of_ne hj]
  | server j =>
      by_cases hj : j = i
      · subst hj
        simp [entries, State.setNode, hserver]
      · simp [entries, State.setNode, Function.update_of_ne hj]
  | _ => rfl

@[simp] theorem entries_setStealing (s : State β) (i : Nat) (on : Bool) :
    entries (s.setStealing i on) = entries s :=
  entries_setNode rfl rfl

@[simp] theorem entries_lockInternode (s : State β) (i : Nat) (held : Bool) :
    entries (s.lockInternode i held) = entries s :=
  entries_setNode rfl rfl

@[simp] theorem entries_setRoundRobin (s : State β) (i : Nat) (r : RoundRobin.State) :
    entries (s.setRoundRobin i r) = entries s :=
  entries_setNode rfl rfl

@[simp] theorem entries_countAttempt (s : State β) (i : Nat) :
    entries (s.countAttempt i) = entries s :=
  entries_setNode rfl rfl

@[simp] theorem entries_countServed (s : State β) (i : Nat) (work : Option Nat) :
    entries (s.countServed i work) = entries s :=
  entries_setNode rfl rfl

@[simp] theorem entries_countHit (s : State β) (i : Nat) :
    entries (s.countHit i) = entries s :=
  entries_setNode rfl rfl

theorem entries_setQueues_self (q : Queues Nat) :
    entries (s.setQueues i q) (.queue i) = q.tasks.map fun k ↦ (k, .ready) := by
  simp [entries, State.setQueues, State.setNode]

theorem entries_setQueues_of_ne {q : Queues Nat} (hp : p ≠ .queue i) :
    entries (s.setQueues i q) p = entries s p := by
  cases p with
  | queue j =>
      have hj : j ≠ i := fun hj ↦ hp (congrArg _ hj)
      simp [entries, State.setQueues, State.setNode, Function.update_of_ne hj]
  | server j =>
      by_cases hj : j = i
      · subst hj
        simp [entries, State.setQueues, State.setNode]
      · simp [entries, State.setQueues, State.setNode, Function.update_of_ne hj]
  | _ => rfl

theorem entries_setServer_self (ctl : ServerCtl β) :
    entries (s.setServer i ctl) (.server i) = ctl.entries := by
  simp [entries, State.setServer, State.setNode]

theorem entries_setServer_of_ne {ctl : ServerCtl β} (hp : p ≠ .server i) :
    entries (s.setServer i ctl) p = entries s p := by
  cases p with
  | server j =>
      have hj : j ≠ i := fun hj ↦ hp (congrArg _ hj)
      simp [entries, State.setServer, State.setNode, Function.update_of_ne hj]
  | queue j =>
      by_cases hj : j = i
      · subst hj
        simp [entries, State.setServer, State.setNode]
      · simp [entries, State.setServer, State.setNode, Function.update_of_ne hj]
  | _ => rfl

theorem worker_setWorker_self (w : Worker) : (s.setWorker i v w).worker i v = w := by
  simp [State.setWorker]

theorem worker_setWorker_of_ne {w : Worker} {j u : Nat} (h : ¬ (j = i ∧ u = v)) :
    (s.setWorker i v w).worker j u = s.worker j u :=
  Update.update_update_of_ne s.worker w h

theorem entries_setWorker_hand (w : Worker) :
    entries (s.setWorker i v w) (.hand i v) = w.ctl.entries := by
  simp only [entries, worker_setWorker_self]

theorem entries_setWorker_stack (w : Worker) :
    entries (s.setWorker i v w) (.stack i v) = w.stack.map fun k ↦ (k, .running) := by
  simp only [entries, worker_setWorker_self]

theorem entries_setWorker_of_ne {w : Worker} (hhand : p ≠ .hand i v) (hstack : p ≠ .stack i v) :
    entries (s.setWorker i v w) p = entries s p := by
  cases p with
  | hand j u =>
      have hne : ¬ (j = i ∧ u = v) := by
        rintro ⟨rfl, rfl⟩
        exact hhand rfl
      simp only [entries, worker_setWorker_of_ne hne]
  | stack j u =>
      have hne : ¬ (j = i ∧ u = v) := by
        rintro ⟨rfl, rfl⟩
        exact hstack rfl
      simp only [entries, worker_setWorker_of_ne hne]
  | _ => rfl

theorem entries_setCtl_of_ne {ctl : WorkerCtl} (hp : p ≠ .hand i v) :
    entries (s.setCtl i v ctl) p = entries s p := by
  by_cases hstack : p = .stack i v
  · subst hstack
    exact entries_setWorker_stack _
  · exact entries_setWorker_of_ne hp hstack

theorem entries_setCtl_hand (ctl : WorkerCtl) :
    entries (s.setCtl i v ctl) (.hand i v) = ctl.entries :=
  entries_setWorker_hand _

theorem entries_setNet_of_ne {net : List (Msg β)} (hp : p ≠ .net) :
    entries (s.setNet net) p = entries s p := by
  cases p with
  | net => exact absurd rfl hp
  | _ => rfl

theorem entries_send_net (c : Chan) (x : Content β) :
    entries (s.send c x) .net = entries s .net ++ x.entries := by
  simp [entries, State.send]

theorem entries_send_of_ne {c : Chan} {x : Content β} (hp : p ≠ .net) :
    entries (s.send c x) p = entries s p := by
  cases p with
  | net => exact absurd rfl hp
  | _ => rfl

/-! ## Entries that come and go -/

theorem adds_setQueues {q : Queues Nat} (hperm : q.tasks.Perm (k :: (s.node i).queues.tasks)) :
    Adds (entries s) (entries (s.setQueues i q)) (k, .ready) (.queue i) where
  perm := by
    rw [entries_setQueues_self]
    exact hperm.map _
  others _ hp := entries_setQueues_of_ne hp

theorem removes_setQueues {q : Queues Nat}
    (hperm : (s.node i).queues.tasks.Perm (k :: q.tasks)) :
    Adds (entries (s.setQueues i q)) (entries s) (k, .ready) (.queue i) where
  perm := by
    rw [entries_setQueues_self]
    exact hperm.map _
  others _ hp := (entries_setQueues_of_ne hp).symm

theorem adds_setServer {ctl : ServerCtl β} {st : Status β}
    (hold : (s.node i).server.entries = []) (hnew : ctl.entries = [(k, st)]) :
    Adds (entries s) (entries (s.setServer i ctl)) (k, st) (.server i) where
  perm := by
    rw [entries_setServer_self, hnew]
    show List.Perm _ ((k, st) :: (s.node i).server.entries)
    rw [hold]
  others _ hp := entries_setServer_of_ne hp

theorem removes_setServer {ctl : ServerCtl β} {st : Status β}
    (hold : (s.node i).server.entries = [(k, st)]) (hnew : ctl.entries = []) :
    Adds (entries (s.setServer i ctl)) (entries s) (k, st) (.server i) where
  perm := by
    rw [entries_setServer_self, hnew]
    show List.Perm (s.node i).server.entries _
    rw [hold]
  others _ hp := (entries_setServer_of_ne hp).symm

theorem adds_got (hold : (s.worker i v).ctl.entries = ([] : List (Nat × Status β))) :
    Adds (entries s) (entries (s.setCtl i v (.got k))) (k, .ready) (.hand i v) where
  perm := by
    rw [entries_setCtl_hand]
    show List.Perm _ ((k, .ready) :: (s.worker i v).ctl.entries)
    rw [hold]
    rfl
  others _ hp := entries_setCtl_of_ne hp

theorem removes_got {ctl : WorkerCtl} (hctl : (s.worker i v).ctl = .got k)
    (hnew : ctl.entries = ([] : List (Nat × Status β))) :
    Adds (entries (s.setCtl i v ctl)) (entries s) (k, .ready) (.hand i v) where
  perm := by
    rw [entries_setCtl_hand, hnew]
    show List.Perm (WorkerCtl.entries (s.worker i v).ctl) _
    rw [hctl]
    rfl
  others _ hp := (entries_setCtl_of_ne hp).symm

/-- The stack of a worker that is in a body. -/
theorem entries_setStack_of_ne {l : List Nat}
    (hctl : (s.worker i v).ctl.entries = ([] : List (Nat × Status β))) (hp : p ≠ .stack i v) :
    entries (s.setStack i v l) p = entries s p := by
  by_cases hhand : p = .hand i v
  · subst hhand
    exact (entries_setWorker_hand _).trans hctl.symm
  · exact entries_setWorker_of_ne hhand hp

theorem adds_setStack (hctl : (s.worker i v).ctl.entries = ([] : List (Nat × Status β))) :
    Adds (entries s) (entries (s.setStack i v (k :: (s.worker i v).stack))) (k, .running)
      (.stack i v) where
  perm := by
    rw [State.setStack, entries_setWorker_stack]
    rfl
  others _ hp := entries_setStack_of_ne hctl hp

theorem removes_setStack {rest : List Nat} (hctl : (s.worker i v).ctl = .body)
    (hstack : (s.worker i v).stack = k :: rest) :
    Adds (entries (s.setStack i v rest)) (entries s) (k, .running) (.stack i v) where
  perm := by
    rw [State.setStack, entries_setWorker_stack]
    simp only [entries, hstack]
    rfl
  others _ hp := (entries_setStack_of_ne (by rw [hctl]; rfl) hp).symm

theorem adds_send {c : Chan} {x : Content β} {st : Status β} (hx : x.entries = [(k, st)]) :
    Adds (entries s) (entries (s.send c x)) (k, st) .net where
  perm := by
    rw [entries_send_net, hx]
    exact List.perm_append_singleton _ _
  others _ hp := entries_send_of_ne hp

theorem removes_setNet {c : Chan} {x : Content β} {net : List (Msg β)} {st : Status β}
    (htake : Mailbox.take c s.net = some (x, net)) (hx : x.entries = [(k, st)]) :
    Adds (entries (s.setNet net)) (entries s) (k, st) .net where
  perm := by
    obtain ⟨l, l', hnet, hrest, -⟩ := Mailbox.take_split htake
    simp only [entries, State.setNet, hnet, hrest, List.flatMap_append, List.flatMap_cons, hx]
    exact List.perm_middle
  others _ hp := (entries_setNet_of_ne hp).symm

/-! ## What changes no entry -/

theorem entries_setNet_of_nil {c : Chan} {x : Content β} {net : List (Msg β)}
    (htake : Mailbox.take c s.net = some (x, net)) (hx : x.entries = []) :
    entries (s.setNet net) = entries s := by
  funext p
  by_cases hp : p = .net
  · subst hp
    obtain ⟨l, l', hnet, hrest, -⟩ := Mailbox.take_split htake
    simp only [entries, State.setNet, hnet, hrest, List.flatMap_append, List.flatMap_cons, hx,
      List.nil_append]
  · exact entries_setNet_of_ne hp

theorem entries_send_of_nil {c : Chan} {x : Content β} (hx : x.entries = []) :
    entries (s.send c x) = entries s := by
  funext p
  by_cases hp : p = .net
  · subst hp
    rw [entries_send_net, hx, List.append_nil]
  · exact entries_send_of_ne hp

theorem entries_setCtl_of_nil {ctl : WorkerCtl}
    (hold : (s.worker i v).ctl.entries = ([] : List (Nat × Status β)))
    (hnew : ctl.entries = ([] : List (Nat × Status β))) :
    entries (s.setCtl i v ctl) = entries s := by
  funext p
  by_cases hp : p = .hand i v
  · subst hp
    rw [entries_setCtl_hand, hnew]
    exact hold.symm
  · exact entries_setCtl_of_ne hp

theorem entries_setServer_of_nil {ctl : ServerCtl β} (hold : (s.node i).server.entries = [])
    (hnew : ctl.entries = []) : entries (s.setServer i ctl) = entries s := by
  funext p
  by_cases hp : p = .server i
  · subst hp
    rw [entries_setServer_self, hnew]
    exact hold.symm
  · exact entries_setServer_of_ne hp

theorem WorkerCtl.Idle.entries {c : WorkerCtl} (h : c.Idle) :
    c.entries = ([] : List (Nat × Status β)) := by
  cases c with
  | got => cases h
  | _ => rfl

/-! ## Every step -/

variable {root : Body β}

theorem Placed.status_stack (h : Placed s) {rest : List Nat}
    (hstack : (s.worker i v).stack = k :: rest) : s.tasks.status k = .running := by
  apply h.shows (.stack i v) (k, .running)
  simp [entries, hstack]

theorem Placed.status_got (h : Placed s) (hctl : (s.worker i v).ctl = .got k) :
    s.tasks.status k = .ready := by
  apply h.shows (.hand i v) (k, .ready)
  simp [entries, hctl, WorkerCtl.entries]

theorem Placed.status_answer (h : Placed s) {src thread : Nat} {result : β}
    (hserver : (s.node i).server = .handling src thread (.answer k result)) :
    s.tasks.status k = .answering result := by
  apply h.shows (.server i) (k, .answering result)
  simp [entries, hserver, ServerCtl.entries, Content.entries]

theorem live_createChild {t : Tasks β} {me : Nat} {child rest : Body β} (x : Nat) :
    Live (t.createChild k me child rest) x ↔ Live t x ∨ x = t.issued := by
  unfold Live
  by_cases hx : x = t.issued
  · subst hx
    simp [Tasks.createChild, Status.isDone]
  · have hstatus : (t.createChild k me child rest).status x = t.status x :=
      Function.update_of_ne hx ..
    have hissued : x < (t.createChild k me child rest).issued ↔ x < t.issued := by
      show x < t.issued + 1 ↔ x < t.issued
      omega
    rw [hstatus, hissued]
    simp [hx]

theorem live_complete {t : Tasks β} {result : β} (x : Nat) :
    Live (t.complete k result) x ↔ Live t x ∧ x ≠ k := by
  unfold Live
  by_cases hx : x = k
  · subst hx
    simp [Tasks.complete, Tasks.setStatus, Status.isDone]
  · have hstatus : (t.complete k result).status x = t.status x := Function.update_of_ne hx ..
    rw [hstatus]
    simp [Tasks.complete, Tasks.setStatus, hx]

/-- A status that is not done follows one that is not done. -/
theorem live_setStatus {t : Tasks β} {st : Status β} (hk : (t.status k).isDone = false)
    (hst : st.isDone = false) : Live (t.setStatus k st) = Live t := by
  funext x
  unfold Live
  by_cases hx : x = k
  · subst hx
    simp [Tasks.setStatus, hk, hst]
  · have hstatus : (t.setStatus k st).status x = t.status x := Function.update_of_ne hx ..
    rw [hstatus]
    rfl

theorem Placed.issues (h : Placed s) {me : Nat} {child rest : Body β}
    {l : Place → List (Nat × Status β)}
    (hin : Adds (entries s) l (s.tasks.issued, .ready) p) :
    Labelled (Live (s.tasks.createChild k me child rest))
      (s.tasks.createChild k me child rest).status l := by
  apply Labelled.issues h hin
  -- the new task was not among the old ones
  case hnew => exact fun hlive ↦ Nat.lt_irrefl _ hlive.1
  case hissued => exact live_createChild
  case hlabel => exact fun x hx ↦ Function.update_of_ne hx ..
  case ht => exact Function.update_self ..

theorem Placed.retires (h : Placed s) {result : β} {l : Place → List (Nat × Status β)}
    {st : Status β} (hout : Adds l (entries s) (k, st) p) :
    Labelled (Live (s.tasks.complete k result)) (s.tasks.complete k result).status l := by
  apply Labelled.retires h hout live_complete
  exact fun x hx ↦ Function.update_of_ne hx ..

/-- A task goes from one place to another and keeps its status. -/
theorem Placed.carry (h : Placed s) {q : Place} {l mid : Place → List (Nat × Status β)}
    {st : Status β} (hout : Adds mid (entries s) (k, st) p) (hin : Adds mid l (k, st) q) :
    Labelled (Live s.tasks) s.tasks.status l :=
  Labelled.moves h hout hin (fun _ _ ↦ rfl) (h.shows p (k, st) (hout.mem))

/-- It has another status there. -/
theorem Placed.turn (h : Placed s) {q : Place} {l mid : Place → List (Nat × Status β)}
    {st st' : Status β} (hout : Adds mid (entries s) (k, st) p) (hin : Adds mid l (k, st') q)
    (hst : st.isDone = false) (hst' : st'.isDone = false) :
    Labelled (Live (s.tasks.setStatus k st')) (s.tasks.setStatus k st').status l := by
  have hk : (s.tasks.status k).isDone = false := by
    rw [h.shows p (k, st) (hout.mem)]
    exact hst
  rw [live_setStatus hk hst']
  apply Labelled.moves h hout hin
  case hlabel => exact fun x hx ↦ Function.update_of_ne hx ..
  case ht => exact Function.update_self ..

theorem setRoundRobin_queues (s : State β) (i : Nat) (r : RoundRobin.State) :
    ((s.setRoundRobin i r).node i).queues = (s.node i).queues := by
  simp [State.setRoundRobin, State.setNode]

theorem countServed_server (s : State β) (i : Nat) (work : Option Nat) :
    ((s.countServed i work).node i).server = (s.node i).server := by
  simp [State.countServed, State.setNode]

theorem countAttempt_server (s : State β) (i : Nat) :
    ((s.countAttempt i).node i).server = (s.node i).server := by
  simp [State.countAttempt, State.setNode]

theorem setQueues_server (s : State β) (i : Nat) (q : Queues Nat) :
    ((s.setQueues i q).node i).server = (s.node i).server := by
  simp [State.setQueues, State.setNode]

theorem Placed.createHere (h : Placed s) {me : Nat} {child rest : Body β} {r : RoundRobin.State}
    {q : Queues Nat} (hperm : q.tasks.Perm (s.tasks.issued :: (s.node i).queues.tasks)) :
    Placed (((s.setTasks (s.tasks.createChild k me child rest)).setRoundRobin i r).setQueues i
      q) := by
  have hin := adds_setQueues (s := (s.setTasks (s.tasks.createChild k me child rest)).setRoundRobin
    i r) (i := i) (q := q) (k := s.tasks.issued) (by rw [setRoundRobin_queues]; exact hperm)
  rw [entries_setRoundRobin, entries_setTasks] at hin
  exact h.issues hin

theorem Placed.createAway (h : Placed s) {me : Nat} {child rest : Body β} {r : RoundRobin.State}
    {c : Chan} :
    Placed (((s.setTasks (s.tasks.createChild k me child rest)).setRoundRobin i r).send c
      (.enqueue s.tasks.issued)) := by
  have hin := adds_send (s := (s.setTasks (s.tasks.createChild k me child rest)).setRoundRobin i r)
    (c := c) (x := .enqueue s.tasks.issued) rfl
  rw [entries_setRoundRobin, entries_setTasks] at hin
  exact h.issues hin

theorem Placed.returnHome (h : Placed s) {result : β} {rest : List Nat}
    (hruns : Runs workers s i v k rest) :
    Placed ((s.setTasks (s.tasks.complete k result)).setStack i v rest) := by
  have hout := removes_setStack (s := s.setTasks (s.tasks.complete k result)) hruns.ctl hruns.stack
  rw [entries_setTasks] at hout
  exact h.retires hout

theorem Placed.returnAway (h : Placed s) {result : β} {rest : List Nat} {c : Chan}
    (hruns : Runs workers s i v k rest) :
    Placed (((s.setTasks (s.tasks.answer k result)).send c (.answer k result)).setStack i v
      rest) := by
  -- the stack is popped before the answer is in the net, as far as places go
  have hout := removes_setStack hruns.ctl hruns.stack
  have hin := adds_send (s := s.setStack i v rest) (c := c) (x := .answer k result) rfl
  exact h.turn hout hin rfl rfl

theorem setWorker_setWorker (s : State β) (i v : Nat) (w w' : Worker) :
    (s.setWorker i v w).setWorker i v w' = s.setWorker i v w' := by
  simp [State.setWorker]

theorem Placed.execute (h : Placed s) (hctl : (s.worker i v).ctl = .got k) :
    Placed (Parallel.execute s i v k) := by
  have hout : Adds (entries (s.setCtl i v .body)) (entries s) (k, .ready) (.hand i v) :=
    removes_got hctl rfl
  have hself : (s.setCtl i v .body).worker i v = { s.worker i v with ctl := .body } :=
    worker_setWorker_self _
  have hin := adds_setStack (k := k) (s := s.setCtl i v .body) (i := i) (v := v)
    (by rw [hself]; rfl)
  have hback : (s.setCtl i v .body).setStack i v (k :: ((s.setCtl i v .body).worker i v).stack) =
      s.setStack i v (k :: (s.worker i v).stack) := by
    rw [hself]
    exact setWorker_setWorker ..
  -- off the hand of the worker, onto its stack
  rw [hback] at hin
  exact h.turn hout hin rfl rfl

theorem Placed.receive (h : Placed s) {c : Chan} {src thread : Nat} {x : Content β}
    {net : List (Msg β)} (hserver : (s.node i).server = .loop)
    (htake : Mailbox.take c s.net = some (x, net)) :
    Placed ((s.setNet net).setServer i (.handling src thread x)) := by
  -- the server had nothing in its hands
  have hold : ((s.setNet net).node i).server.entries = [] := by
    show (s.node i).server.entries = []
    rw [hserver]
    rfl
  have hone : ∀ k st, x.entries = [(k, st)] →
      Placed ((s.setNet net).setServer i (.handling src thread x)) := by
    intro k st hx
    exact h.carry (removes_setNet htake hx) (adds_setServer hold hx)
  have hnone : x.entries = [] → Placed ((s.setNet net).setServer i (.handling src thread x)) := by
    intro hx
    have hnew : (ServerCtl.handling src thread x).entries = [] := hx
    show Labelled _ _ (entries _)
    rw [entries_setServer_of_nil hold hnew, entries_setNet_of_nil htake hx]
    exact h
  cases x with
  | enqueue k => exact hone k .ready rfl
  | request => exact hnone rfl
  | answer k result => exact hone k (.answering result) rfl
  | reply work =>
      cases work with
      | none => exact hnone rfl
      | some k => exact hone k .ready rfl

theorem Placed.replied (h : Placed s) {thief vpid : Nat} {work : Option Nat} {c : Chan}
    (hserver : (s.node i).server = .reply thief vpid work) :
    Placed (((s.countServed i work).send c (.reply work)).setServer i .loop) := by
  have hsame : ((s.countServed i work).node i).server = .reply thief vpid work :=
    (countServed_server s i work).trans hserver
  cases work with
  | none =>
      have hold : (((s.countServed i none).send c (.reply none)).node i).server.entries = [] := by
        show ((s.countServed i none).node i).server.entries = []
        rw [hsame]
        rfl
      show Labelled _ _ (entries _)
      rw [entries_setServer_of_nil hold rfl, entries_send_of_nil rfl, entries_countServed]
      exact h
  | some k =>
      -- from the server into the message
      have hout : Adds (entries ((s.countServed i (some k)).setServer i .loop))
          (entries (s.countServed i (some k))) (k, .ready) (.server i) :=
        removes_setServer (by rw [hsame]; rfl) rfl
      have hin := adds_send (s := (s.countServed i (some k)).setServer i .loop) (c := c)
        (x := .reply (some k)) rfl
      rw [entries_countServed] at hout
      exact h.carry hout hin

theorem Placed.move (h : Placed s) (hmove : Move workers s θ s') : Placed s' := by
  cases hmove with
  | goOn hruns hstep =>
      show Labelled _ _ (entries _)
      rw [entries_setTasks]
      exact h
  | createHere hruns hturn hstep => exact h.createHere (Queues.torcToIRqEnd_tasks ..)
  | createAway hruns hturn hstep hnode hne => exact h.createAway
  | returnHome hruns hstep => exact h.returnHome hruns
  | returnAway hruns hstep hhome => exact h.returnAway hruns
  | found hworker hctl hqueues =>
      -- from a queue into the hand of the worker
      exact h.carry (removes_setQueues hqueues.perm)
        (adds_got (s := s.setQueues _ _) (by show (s.worker _ _).ctl.entries = []; rw [hctl]; rfl))
  | pass hworker hctl hidle =>
      -- neither the old nor the new place of the worker has a task
      show Labelled _ _ (entries _)
      rw [entries_setCtl_of_nil (by show (s.worker _ _).ctl.entries = []; rw [hctl]; rfl)
        hidle.entries, entries_setStealing]
      exact h
  | ask hworker hctl hfree =>
      show Labelled _ _ (entries _)
      rw [entries_setCtl_of_nil (by show (s.worker _ _).ctl.entries = []; rw [hctl]; rfl) rfl,
        entries_send_of_nil rfl, entries_lockInternode]
      exact h
  | refused hworker hctl htake hidle =>
      show Labelled _ _ (entries _)
      rw [entries_setCtl_of_nil (by show (s.worker _ _).ctl.entries = []; rw [hctl]; rfl)
        hidle.entries, entries_setStealing, entries_lockInternode, entries_setNet_of_nil htake rfl]
      exact h
  | @stolen i v k node again net hworker hctl htake =>
      have hin := adds_got (k := k)
          (s := ((s.setNet net).lockInternode i false).countHit i) (i := i)
        (v := v) (by show (s.worker i v).ctl.entries = []; rw [hctl]; rfl)
      rw [entries_countHit, entries_lockInternode] at hin
      exact h.carry (removes_setNet htake rfl) hin
  | execute hworker hctl => exact h.execute hctl
  | receive hnodes hi hserver htake => exact h.receive hserver htake
  | @enqueue i src thread k q hi hserver hqueues =>
      -- from the server into its queue
      have hserver' : ((s.setQueues i q).node i).server = .handling src thread (.enqueue k) :=
        (setQueues_server s i q).trans hserver
      have hout : Adds (entries (s.setServer i .loop)) (entries s) (k, .ready) (.server i) :=
        removes_setServer (by rw [hserver]; rfl) rfl
      have hin := adds_setQueues (s := s.setServer i .loop) (i := i) (k := k) (q := q)
        (by simpa [State.setServer, State.setNode] using hqueues.perm)
      have hsame : (s.setServer i .loop).setQueues i q = (s.setQueues i q).setServer i .loop := by
        simp [State.setServer, State.setQueues, State.setNode]
      rw [hsame] at hin
      exact h.carry hout hin
  | @request i src thread hnodes hi hserver =>
      show Labelled _ _ (entries _)
      rw [entries_setServer_of_nil (by rw [countAttempt_server, hserver]; rfl) rfl,
        entries_countAttempt]
      exact h
  | @answer i src thread k result hserver =>
      have hout : Adds (entries (s.setServer i .loop)) (entries s) (k, .answering result)
          (.server i) := removes_setServer (by rw [hserver]; rfl) rfl
      -- the answer ends the task
      exact h.retires hout
  | @scanFound i thief vpid j k q hnodes hi hserver hqueues =>
      have hin : Adds (entries (s.setQueues i q))
          (entries ((s.setQueues i q).setServer i (.reply thief vpid (some k)))) (k, .ready)
          (.server i) := adds_setServer (by rw [setQueues_server, hserver]; rfl) rfl
      exact h.carry (removes_setQueues hqueues.perm) hin
  | scanNext hnodes hi hserver hj =>
      show Labelled _ _ (entries _)
      rw [entries_setServer_of_nil (by rw [hserver]; rfl) rfl]
      exact h
  | scanNone hnodes hi hserver =>
      show Labelled _ _ (entries _)
      rw [entries_setServer_of_nil (by rw [hserver]; rfl) rfl]
      exact h
  | replied hserver => exact h.replied hserver

theorem Placed.change {o : Option Thread} (h : Placed s) (hchange : Change workers s o s') :
    Placed s' := by
  cases hchange with
  | move hmove => exact h.move hmove
  | poll hworker hctl =>
      show Labelled _ _ (entries _)
      rw [entries_setCtl_of_nil (by rw [hctl]; rfl) rfl]
      exact h
  | toggle =>
      show Labelled _ _ (entries _)
      rw [entries_setStealing]
      exact h

end Torc.Parallel
