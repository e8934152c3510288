import Torc.Cluster.Machine
import Torc.Lib.Ledger

/-!
# Where the tasks are

The places that can hold a task, what is at each of them, and what each way of changing the state
does to that.
-/

namespace Torc.Cluster

open Ledger

inductive Place
  | privateQueue (i : Nat)
  | publicQueue (i k : Nat)
  | flight (c : Chan)
  | hand (i v : Nat)
  | running (i v : Nat)
  | server (i : Nat)
  | direct (i : Nat)
  | finished
  deriving DecidableEq

/-- The task in a message: that of a `TORC_NORMAL_ENQUEUE` on the servers' tag, that of a steal
reply on the other tags. -/
def carried (c : Chan) : Packet → Option Nat
  | .desc desc =>
      if c.tag = maxNvps then
        if desc.type = .torcNormalEnqueue then some desc.taskId else none
      else if desc.type = .torcNoWork then none
      else some desc.taskId
  | .payload _ => none

def WorkerCtl.held : WorkerCtl → List Nat
  | .created work _ _ | .receiving _ work | .got _ work => [work.taskId]
  | _ => []

def ServerCtl.held : ServerCtl → List Nat
  | .handling desc => if desc.type = .torcNormalEnqueue then [desc.taskId] else []
  | .reply _ (some work) => [work.taskId]
  | _ => []

def ServerCtl.running : ServerCtl → List Nat
  | .direct work => [work.taskId]
  | _ => []

def contents (s : State) : Place → List Nat
  | .privateQueue i => (s.node i).queues.privateGrq.map Work.taskId
  | .publicQueue i k => ((s.node i).queues.publicGrq k).map Work.taskId
  | .flight c => (s.net c).filterMap (carried c)
  | .hand i v => (s.worker i v).ctl.held
  | .running i v => (s.worker i v).stack.map Work.taskId
  | .server i => (s.node i).server.held
  | .direct i => (s.node i).server.running
  | .finished => s.finished

-- the calls, the list of bodies begun and the number of tasks issued are no places

@[simp] theorem contents_begin (s : State) (t : Nat) : contents (s.begin t) = contents s := by
  funext r
  cases r <;> rfl

@[simp] theorem contents_setCalls (s : State) (i : Nat) (th : Thread) (l : List Effect) :
    contents (s.setCalls i th l) = contents s := by
  funext r
  cases r <;> rfl

@[simp] theorem contents_issued (s : State) (n : Nat) :
    contents { s with issued := n } = contents s := by
  funext r
  cases r <;> rfl

theorem retire_issues (s : State) (t : Nat) :
    Issues (contents s) (contents (s.retire t)) t .finished := by
  apply Issues.of_perm (List.perm_append_singleton t s.finished)
  intro r hr
  cases r with
  | finished => exact absurd rfl hr
  | _ => rfl

/-! ## Setters -/

section Setters

variable (s : State) (i v : Nat)

@[simp] theorem setQueues_worker (q : Queues Work) : (s.setQueues i q).worker = s.worker := rfl
@[simp] theorem setQueues_net (q : Queues Work) : (s.setQueues i q).net = s.net := rfl
@[simp] theorem send_worker (c : Chan) (p : Packet) : (s.send c p).worker = s.worker := rfl
@[simp] theorem send_node (c : Chan) (p : Packet) : (s.send c p).node = s.node := rfl
@[simp] theorem setNet_worker (c : Chan) (l : List Packet) :
    (s.setNet c l).worker = s.worker := rfl
@[simp] theorem setNet_node (c : Chan) (l : List Packet) : (s.setNet c l).node = s.node := rfl
@[simp] theorem lockInternode_worker (held : Bool) :
    (s.lockInternode i held).worker = s.worker := rfl
@[simp] theorem setStealing_worker (on : Bool) : (s.setStealing i on).worker = s.worker := rfl

@[simp] theorem setQueues_queues (q : Queues Work) : ((s.setQueues i q).node i).queues = q := by
  simp [State.setQueues, State.setNode]

@[simp] theorem setQueues_server (q : Queues Work) (j : Nat) :
    ((s.setQueues i q).node j).server = (s.node j).server := by
  by_cases hj : j = i
  · subst hj
    simp [State.setQueues, State.setNode]
  · simp [State.setQueues, State.setNode, Function.update_of_ne hj]

@[simp] theorem setStealing_server (on : Bool) (j : Nat) :
    ((s.setStealing i on).node j).server = (s.node j).server := by
  by_cases hj : j = i
  · subst hj
    simp [State.setStealing, State.setNode]
  · simp [State.setStealing, State.setNode, Function.update_of_ne hj]

end Setters

theorem contents_setWorker {s : State} {i v : Nat} {w : Worker} {r : Place}
    (hhand : r ≠ .hand i v) (hrun : r ≠ .running i v) :
    contents (s.setWorker i v w) r = contents s r := by
  cases r with
  | hand j u =>
      by_cases hj : j = i
      · subst hj
        have hu : u ≠ v := fun h ↦ hhand (by rw [h])
        simp [contents, State.setWorker, Function.update_of_ne hu]
      · simp [contents, State.setWorker, Function.update_of_ne hj]
  | running j u =>
      by_cases hj : j = i
      · subst hj
        have hu : u ≠ v := fun h ↦ hrun (by rw [h])
        simp [contents, State.setWorker, Function.update_of_ne hu]
      · simp [contents, State.setWorker, Function.update_of_ne hj]
  | _ => rfl

@[simp] theorem contents_setWorker_hand (s : State) (i v : Nat) (w : Worker) :
    contents (s.setWorker i v w) (.hand i v) = w.ctl.held := by
  simp [contents, State.setWorker]

@[simp] theorem contents_setWorker_running (s : State) (i v : Nat) (w : Worker) :
    contents (s.setWorker i v w) (.running i v) = w.stack.map Work.taskId := by
  simp [contents, State.setWorker]

theorem contents_setCtl {s : State} {i v : Nat} {ctl : WorkerCtl} {r : Place}
    (hr : r ≠ .hand i v) : contents (s.setCtl i v ctl) r = contents s r := by
  by_cases hrun : r = .running i v
  · subst hrun
    exact contents_setWorker_running s i v _
  · exact contents_setWorker hr hrun

@[simp] theorem contents_setCtl_hand (s : State) (i v : Nat) (ctl : WorkerCtl) :
    contents (s.setCtl i v ctl) (.hand i v) = ctl.held :=
  contents_setWorker_hand s i v _

theorem contents_setNet {s : State} {c : Chan} {l : List Packet} {r : Place}
    (hr : r ≠ .flight c) : contents (s.setNet c l) r = contents s r := by
  cases r with
  | flight d =>
      have hd : d ≠ c := fun h ↦ hr (by rw [h])
      simp [contents, State.setNet, Function.update_of_ne hd]
  | _ => rfl

@[simp] theorem contents_setNet_self (s : State) (c : Chan) (l : List Packet) :
    contents (s.setNet c l) (.flight c) = l.filterMap (carried c) := by
  simp [contents, State.setNet]

theorem contents_send {s : State} {c : Chan} {p : Packet} {r : Place} (hr : r ≠ .flight c) :
    contents (s.send c p) r = contents s r :=
  contents_setNet hr

theorem contents_send_self (s : State) (c : Chan) (p : Packet) :
    contents (s.send c p) (.flight c) =
      contents s (.flight c) ++ (carried c p).toList := by
  have hself : contents (s.send c p) (.flight c) =
      (s.net c ++ [p]).filterMap (carried c) := contents_setNet_self s c _
  rw [hself, List.filterMap_append]
  cases h : carried c p <;> simp [contents, h]

/-- A node may change everywhere but at the place that is looked at. -/
theorem contents_setNode {s : State} {i : Nat} {nd : Node} {r : Place}
    (hpq : r = .privateQueue i → nd.queues.privateGrq = (s.node i).queues.privateGrq)
    (hrq : ∀ k, r = .publicQueue i k → nd.queues.publicGrq k = (s.node i).queues.publicGrq k)
    (hs : r = .server i → nd.server.held = (s.node i).server.held)
    (hd : r = .direct i → nd.server.running = (s.node i).server.running) :
    contents (s.setNode i nd) r = contents s r := by
  cases r with
  | privateQueue j =>
      by_cases hj : j = i
      · subst hj
        simp [contents, State.setNode, hpq rfl]
      · simp [contents, State.setNode, Function.update_of_ne hj]
  | publicQueue j k =>
      by_cases hj : j = i
      · subst hj
        simp [contents, State.setNode, hrq k rfl]
      · simp [contents, State.setNode, Function.update_of_ne hj]
  | server j =>
      by_cases hj : j = i
      · subst hj
        simp [contents, State.setNode, hs rfl]
      · simp [contents, State.setNode, Function.update_of_ne hj]
  | direct j =>
      by_cases hj : j = i
      · subst hj
        simp [contents, State.setNode, hd rfl]
      · simp [contents, State.setNode, Function.update_of_ne hj]
  | _ => rfl

/-! ## What the changes do to the tasks -/

theorem setStealing_stays (s : State) (i : Nat) (on : Bool) :
    Stays (contents s) (contents (s.setStealing i on)) := by
  intro x r
  have hsame : contents (s.setStealing i on) r = contents s r :=
    contents_setNode (fun _ ↦ rfl) (fun _ _ ↦ rfl) (fun _ ↦ rfl) fun _ ↦ rfl
  rw [hsame]

theorem lockInternode_stays (s : State) (i : Nat) (held : Bool) :
    Stays (contents s) (contents (s.lockInternode i held)) := by
  intro x r
  have hsame : contents (s.lockInternode i held) r = contents s r :=
    contents_setNode (fun _ ↦ rfl) (fun _ _ ↦ rfl) (fun _ ↦ rfl) fun _ ↦ rfl
  rw [hsame]

theorem setCtl_stays {s : State} {i v : Nat} {ctl : WorkerCtl}
    (h : ctl.held = (s.worker i v).ctl.held) :
    Stays (contents s) (contents (s.setCtl i v ctl)) := by
  intro x r
  by_cases hr : r = .hand i v
  · subst hr
    rw [contents_setCtl_hand, h]
    rfl
  · rw [contents_setCtl hr]

theorem setCtl_issues {s : State} {i v : Nat} {ctl : WorkerCtl} {t : Nat}
    (h0 : (s.worker i v).ctl.held = []) (h : ctl.held = [t]) :
    Issues (contents s) (contents (s.setCtl i v ctl)) t (.hand i v) := by
  apply Issues.of_perm _ fun r hr ↦ contents_setCtl hr
  rw [contents_setCtl_hand, h, contents, h0]

theorem setCtl_takes {s : State} {i v : Nat} {ctl : WorkerCtl} {t : Nat}
    (h0 : (s.worker i v).ctl.held = [t]) (h : ctl.held = []) :
    Takes (contents s) (contents (s.setCtl i v ctl)) t (.hand i v) := by
  apply Takes.of_perm _ fun r hr ↦ contents_setCtl hr
  rw [contents_setCtl_hand, h, contents, h0]

theorem setStack_takes {s : State} {i v : Nat} {work : Work} {rest : List Work}
    (h : (s.worker i v).stack = work :: rest) :
    Takes (contents s) (contents (s.setWorker i v { s.worker i v with stack := rest }))
      work.taskId (.running i v) := by
  apply Takes.of_perm
  · rw [contents_setWorker_running, contents, h]
    exact List.Perm.refl _
  · intro r hr
    by_cases hhand : r = .hand i v
    · subst hhand
      exact contents_setWorker_hand s i v _
    · exact contents_setWorker hhand hr

theorem setPrivate_issues {s : State} {i : Nat} {l : List Work} {work : Work}
    (h : l.Perm (work :: (s.node i).queues.privateGrq)) :
    Issues (contents s)
      (contents (s.setQueues i { (s.node i).queues with privateGrq := l })) work.taskId
      (.privateQueue i) := by
  apply Issues.of_perm
  · rw [contents, setQueues_queues]
    exact h.map Work.taskId
  · intro r hr
    exact contents_setNode (fun h ↦ absurd h hr) (fun _ _ ↦ rfl) (fun _ ↦ rfl) fun _ ↦ rfl

theorem setPublic_issues {s : State} {i k : Nat} {l : List Work} {work : Work}
    (h : l.Perm (work :: (s.node i).queues.publicGrq k)) :
    Issues (contents s) (contents (s.setQueues i ((s.node i).queues.setPublic k l))) work.taskId
      (.publicQueue i k) := by
  apply Issues.of_perm
  · rw [contents, setQueues_queues, Queues.setPublic_self]
    exact h.map Work.taskId
  · intro r hr
    refine contents_setNode (fun _ ↦ rfl) (fun k' hk ↦ ?_) (fun _ ↦ rfl) fun _ ↦ rfl
    have hne : k' ≠ k := fun h ↦ hr (by rw [hk, h])
    exact Function.update_of_ne hne _ _

theorem torcIPqDequeue_takes {s : State} {i : Nat} {work : Work} {q : Queues Work}
    (h : (s.node i).queues.torcIPqDequeue = some (work, q)) :
    Takes (contents s) (contents (s.setQueues i q)) work.taskId (.privateQueue i) := by
  unfold Queues.torcIPqDequeue at h
  split at h
  · cases h
  · rename_i rest hq
    cases h
    apply Takes.of_perm
    · rw [contents, contents, setQueues_queues, hq]
      exact List.Perm.refl _
    · intro r hr
      exact contents_setNode (fun h ↦ absurd h hr) (fun _ _ ↦ rfl) (fun _ ↦ rfl) fun _ ↦ rfl

theorem torcIRqDequeue_takes {s : State} {i k : Nat} {work : Work} {q : Queues Work}
    (h : (s.node i).queues.torcIRqDequeue k = some (work, q)) :
    Takes (contents s) (contents (s.setQueues i q)) work.taskId (.publicQueue i k) := by
  unfold Queues.torcIRqDequeue at h
  split at h
  · cases h
  · rename_i rest hq
    cases h
    apply Takes.of_perm
    · rw [contents, contents, setQueues_queues, Queues.setPublic_self, hq]
      exact List.Perm.refl _
    · intro r hr
      refine contents_setNode (fun _ ↦ rfl) (fun k' hk ↦ ?_) (fun _ ↦ rfl) fun _ ↦ rfl
      have hne : k' ≠ k := fun h ↦ hr (by rw [hk, h])
      exact Function.update_of_ne hne _ _

theorem send_issues {s : State} {c : Chan} {p : Packet} {t : Nat}
    (h : carried c p = some t) :
    Issues (contents s) (contents (s.send c p)) t (.flight c) := by
  apply Issues.of_perm _ fun r hr ↦ contents_send hr
  rw [contents_send_self, h]
  exact List.perm_append_singleton t _

theorem send_stays {s : State} {c : Chan} {p : Packet} (h : carried c p = none) :
    Stays (contents s) (contents (s.send c p)) := by
  intro x r
  by_cases hr : r = .flight c
  · subst hr
    rw [contents_send_self, h, Option.toList_none, List.append_nil]
  · rw [contents_send hr]

theorem receive_takes {s : State} {c : Chan} {p : Packet} {rest : List Packet} {t : Nat}
    (hc : s.net c = p :: rest) (h : carried c p = some t) :
    Takes (contents s) (contents (s.setNet c rest)) t (.flight c) := by
  apply Takes.of_perm _ fun r hr ↦ contents_setNet hr
  rw [contents_setNet_self, contents, hc, List.filterMap_cons, h]

theorem receive_stays {s : State} {c : Chan} {p : Packet} {rest : List Packet}
    (hc : s.net c = p :: rest) (h : carried c p = none) :
    Stays (contents s) (contents (s.setNet c rest)) := by
  intro x r
  by_cases hr : r = .flight c
  · subst hr
    rw [contents_setNet_self, contents, hc, List.filterMap_cons, h]
  · rw [contents_setNet hr]

theorem setServer_other {s : State} {i : Nat} {ctl : ServerCtl} {r : Place}
    (hs : r = .server i → ctl.held = (s.node i).server.held)
    (hd : r = .direct i → ctl.running = (s.node i).server.running) :
    contents (s.setServer i ctl) r = contents s r :=
  contents_setNode (fun _ ↦ rfl) (fun _ _ ↦ rfl) hs hd

theorem contents_setServer (s : State) (i : Nat) (ctl : ServerCtl) :
    contents (s.setServer i ctl) (.server i) = ctl.held := by
  simp [contents, State.setServer, State.setNode]

theorem contents_setServer_direct (s : State) (i : Nat) (ctl : ServerCtl) :
    contents (s.setServer i ctl) (.direct i) = ctl.running := by
  simp [contents, State.setServer, State.setNode]

theorem setServer_stays {s : State} {i : Nat} {ctl : ServerCtl}
    (hs : ctl.held = (s.node i).server.held) (hd : ctl.running = (s.node i).server.running) :
    Stays (contents s) (contents (s.setServer i ctl)) := by
  intro x r
  rw [setServer_other (fun _ ↦ hs) fun _ ↦ hd]

theorem setServer_issues {s : State} {i : Nat} {ctl : ServerCtl} {t : Nat}
    (h0 : (s.node i).server.held = []) (h : ctl.held = [t])
    (hd : ctl.running = (s.node i).server.running) :
    Issues (contents s) (contents (s.setServer i ctl)) t (.server i) := by
  apply Issues.of_perm _ fun r hr ↦ setServer_other (fun he ↦ absurd he hr) fun _ ↦ hd
  rw [contents_setServer, h, contents, h0]

theorem setServer_takes {s : State} {i : Nat} {ctl : ServerCtl} {t : Nat}
    (h0 : (s.node i).server.held = [t]) (h : ctl.held = [])
    (hd : ctl.running = (s.node i).server.running) :
    Takes (contents s) (contents (s.setServer i ctl)) t (.server i) := by
  apply Takes.of_perm _ fun r hr ↦ setServer_other (fun he ↦ absurd he hr) fun _ ↦ hd
  rw [contents_setServer, h, contents, h0]

theorem setServer_takes_direct {s : State} {i : Nat} {ctl : ServerCtl} {t : Nat}
    (h0 : (s.node i).server.running = [t]) (h : ctl.running = [])
    (hs : ctl.held = (s.node i).server.held) :
    Takes (contents s) (contents (s.setServer i ctl)) t (.direct i) := by
  apply Takes.of_perm _ fun r hr ↦ setServer_other (fun _ ↦ hs) fun he ↦ absurd he hr
  rw [contents_setServer_direct, h, contents, h0]

end Torc.Cluster
