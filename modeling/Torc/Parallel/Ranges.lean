import Torc.Parallel.Places
import Mathlib.Data.List.GetD

/-!
# Ranges

No step leaves the nodes and workers of the layout, and each step is one of the tasks' own or leaves
the tasks as they are.
-/

namespace Torc.Parallel

open Cluster (Pos IsWorker)

variable {β : Type} {workers : List Nat} {s s' : State β} {i v k : Nat} {θ : Thread}

namespace Sound

theorem setNode (h : Sound workers s) {nd : Node β} (hserver : nd.server.Ok workers)
    (hserving : (i < workers.length ∧ 1 < workers.length) ∨ nd.server = .loop)
    (hqueues : i < workers.length ∨ nd.queues.tasks = []) : Sound workers (s.setNode i nd) where
  worker := h.worker
  ctl := h.ctl
  net := h.net
  home := h.home
  server j := by
    by_cases hj : j = i
    · subst hj
      simpa [State.setNode] using hserver
    · simpa [State.setNode, Function.update_of_ne hj] using h.server j
  serving j := by
    by_cases hj : j = i
    · subst hj
      simpa [State.setNode] using hserving
    · simpa [State.setNode, Function.update_of_ne hj] using h.serving j
  queues j := by
    by_cases hj : j = i
    · subst hj
      simpa [State.setNode] using hqueues
    · simpa [State.setNode, Function.update_of_ne hj] using h.queues j

/-- The server and the queues of the node are left as they are. -/
theorem setNode_same (h : Sound workers s) {nd : Node β}
    (hserver : nd.server = (s.node i).server) (hqueues : nd.queues = (s.node i).queues) :
    Sound workers (s.setNode i nd) := by
  apply h.setNode
  · rw [hserver]
    exact h.server i
  · rw [hserver]
    exact h.serving i
  · rw [hqueues]
    exact h.queues i

theorem setQueues (h : Sound workers s) (hi : i < workers.length) (q : Queues Nat) :
    Sound workers (s.setQueues i q) :=
  h.setNode (h.server i) (h.serving i) (.inl hi)

theorem setServer (h : Sound workers s) {ctl : ServerCtl β} (hok : ctl.Ok workers)
    (hserving : (i < workers.length ∧ 1 < workers.length) ∨ ctl = .loop) :
    Sound workers (s.setServer i ctl) :=
  h.setNode hok hserving (h.queues i)

theorem setWorker (h : Sound workers s) (hworker : IsWorker workers i v) {w : Worker}
    (hok : w.ctl.Ok workers.length i) : Sound workers (s.setWorker i v w) where
  server := h.server
  serving := h.serving
  queues := h.queues
  net := h.net
  home := h.home
  worker j u := by
    by_cases hju : j = i ∧ u = v
    · obtain ⟨rfl, rfl⟩ := hju
      exact .inl hworker
    · rw [worker_setWorker_of_ne hju]
      exact h.worker j u
  ctl j u := by
    by_cases hju : j = i ∧ u = v
    · obtain ⟨rfl, rfl⟩ := hju
      rwa [worker_setWorker_self]
    · rw [worker_setWorker_of_ne hju]
      exact h.ctl j u

theorem setCtl (h : Sound workers s) (hworker : IsWorker workers i v) {ctl : WorkerCtl}
    (hok : ctl.Ok workers.length i) : Sound workers (s.setCtl i v ctl) :=
  h.setWorker hworker hok

theorem setStack (h : Sound workers s) (hworker : IsWorker workers i v) (l : List Nat) :
    Sound workers (s.setStack i v l) :=
  h.setWorker hworker trivial

theorem toLoop (h : Sound workers s) (i : Nat) : Sound workers (s.setServer i .loop) :=
  h.setServer trivial (.inr rfl)

theorem setTasks (h : Sound workers s) (t : Tasks β)
    (hhome : ∀ k, (t.desc k).homenode < workers.length) : Sound workers (s.setTasks t) :=
  ⟨h.worker, h.ctl, h.server, h.serving, h.queues, h.net, hhome⟩

theorem setNet (h : Sound workers s) {net : List (Msg β)} (hnet : ∀ m ∈ net, m ∈ s.net) :
    Sound workers (s.setNet net) :=
  ⟨h.worker, h.ctl, h.server, h.serving, h.queues, fun m hm ↦ h.net m (hnet m hm), h.home⟩

theorem send (h : Sound workers s) {c : Chan} {x : Content β} (hm : MsgOk workers ⟨c, x⟩) :
    Sound workers (s.send c x) where
  worker := h.worker
  ctl := h.ctl
  server := h.server
  serving := h.serving
  queues := h.queues
  home := h.home
  net m hmem := by
    rcases List.mem_append.mp hmem with hold | hnew
    · exact h.net m hold
    · rw [List.mem_singleton] at hnew
      subst hnew
      exact hm

variable {src thread dst : Nat}

/-- A worker sends to the server of another node. -/
theorem sendServer (h : Sound workers s) (hworker : IsWorker workers i v)
    (hdst : dst < workers.length) (hne : dst ≠ i) {x : Content β} (hx : ¬ x.IsReply) :
    Sound workers (s.send ⟨i, v, dst, maxNvps⟩ x) := by
  have hnodes : 1 < workers.length := by
    have hi := hworker.1
    omega
  apply h.send
  cases x with
  | reply work => exact absurd trivial hx
  | _ => exact ⟨rfl, hdst, hnodes, hworker⟩

/-- The ids of workers are below the server's. -/
theorem replyTag_eq (hcounts : ∀ w ∈ workers, w ≤ maxNvps) (hworker : IsWorker workers i v) :
    replyTag v = waitTag v :=
  Torc.replyTag_eq (hworker.id_lt hcounts)

theorem sendReply (h : Sound workers s) (hcounts : ∀ w ∈ workers, w ≤ maxNvps)
    (hworker : IsWorker workers dst v) (work : Option Nat) :
    Sound workers (s.send ⟨src, maxNvps, dst, replyTag v⟩ (.reply work)) :=
  h.send ⟨rfl, v, hworker, replyTag_eq hcounts hworker⟩

theorem createChild (h : Sound workers s) (hi : i < workers.length) (child rest : Body β)
    (r : RoundRobin.State) :
    Sound workers ((s.setTasks (s.tasks.createChild k i child rest)).setRoundRobin i r) := by
  have hhome : ∀ j, ((s.tasks.createChild k i child rest).desc j).homenode < workers.length := by
    intro j
    by_cases hj : j = s.tasks.issued
    · subst hj
      rw [Tasks.createChild_desc_new]
      exact hi
    · have hold : (s.tasks.createChild k i child rest).desc j = s.tasks.desc j :=
        Function.update_of_ne hj ..
      rw [hold]
      exact h.home j
  exact (h.setTasks _ hhome).setNode_same rfl rfl

/-- The tags of replies are not the server's. -/
theorem not_isReply (h : Sound workers s) {x : Content β} {net : List (Msg β)}
    (htake : Mailbox.take ⟨src, thread, dst, maxNvps⟩ s.net = some (x, net)) :
    ¬ x.IsReply := by
  have hm := h.net _ (Mailbox.mem_of_take htake)
  cases x with
  | reply work =>
      -- a reply is on the tag on which a worker waits, which is no server's
      obtain ⟨-, v, -, htag⟩ := hm
      have hne : maxNvps ≠ waitTag v := by
        unfold maxNvps waitTag
        omega
      exact absurd htag hne
  | _ => exact id

theorem move (h : Sound workers s) (hcounts : ∀ w ∈ workers, w ≤ maxNvps)
    (hmove : Move workers s θ s') : Sound workers s' := by
  cases hmove with
  | goOn hruns hstep => exact h.setTasks _ h.home
  | createHere hruns hturn hstep =>
      exact (h.createChild hruns.isWorker.1 _ _ _).setQueues hruns.isWorker.1 _
  | createAway hruns hturn hstep hnode hne =>
      exact (h.createChild hruns.isWorker.1 _ _ _).sendServer hruns.isWorker hnode hne id
  | @returnHome i v k rest result hruns hstep =>
      exact (h.setTasks (s.tasks.complete k result) h.home).setStack hruns.isWorker rest
  | @returnAway i v k rest result hruns hstep hhome =>
      have hset := h.setTasks (s.tasks.answer k result) h.home
      exact (hset.sendServer hruns.isWorker (h.home k) hhome id).setStack hruns.isWorker rest
  | found hworker hctl hqueues => exact (h.setQueues hworker.1 _).setCtl hworker trivial
  | @pass i v again on pos c hworker hctl hidle hok =>
      have hset : Sound workers (s.setStealing i on) := h.setNode_same rfl rfl
      exact hset.setCtl hworker hok
  | @ask i v node again hworker hctl hfree =>
      -- the node to ask is another node of the cluster
      have hok := h.ctl i v
      rw [hctl] at hok
      have hlocked : Sound workers (s.lockInternode i true) := h.setNode_same rfl rfl
      exact (hlocked.sendServer hworker hok.1 hok.2 id).setCtl hworker hok
  | @refused i v node again on net c hworker hctl htake hidle hok =>
      have hnet := h.setNet fun m ↦ Mailbox.mem_of_mem_rest htake
      have hfree : Sound workers ((s.setNet net).lockInternode i false) :=
        hnet.setNode_same rfl rfl
      have hset : Sound workers (((s.setNet net).lockInternode i false).setStealing i on) :=
        hfree.setNode_same rfl rfl
      exact hset.setCtl hworker hok
  | @stolen i v k node again net hworker hctl htake =>
      have hnet := h.setNet fun m ↦ Mailbox.mem_of_mem_rest htake
      have hfree : Sound workers ((s.setNet net).lockInternode i false) :=
        hnet.setNode_same rfl rfl
      have hhit : Sound workers (((s.setNet net).lockInternode i false).countHit i) :=
        hfree.setNode_same rfl rfl
      exact hhit.setCtl hworker trivial
  | @execute i v k hworker hctl =>
      exact (h.setTasks (s.tasks.execute k) h.home).setStack hworker (k :: (s.worker i v).stack)
  | @receive i src thread x net hnodes hi hserver htake =>
      have hnet := h.setNet fun m ↦ Mailbox.mem_of_mem_rest htake
      have hm := h.net _ (Mailbox.mem_of_take htake)
      -- a message for a server is a request of a worker, a task or an answer
      apply hnet.setServer ?_ (.inl ⟨hi, hnodes⟩)
      cases x with
      | request => exact ⟨id, hm.2.2.2⟩
      | enqueue | answer => exact ⟨id, trivial⟩
      | reply work => exact absurd trivial (h.not_isReply htake)
  | enqueue hi hserver hqueues => exact (h.setQueues hi _).toLoop _
  | @request i src thread hnodes hi hserver =>
      have hok := h.server i
      rw [hserver] at hok
      have hcount : Sound workers (s.countAttempt i) := h.setNode_same rfl rfl
      -- ten queues are to be looked into
      exact hcount.setServer ⟨Nat.zero_lt_succ 9, hok.2⟩ (.inl ⟨hi, hnodes⟩)
  | @answer i src thread k result hserver =>
      exact (h.setTasks (s.tasks.complete k result) h.home).toLoop i
  | @scanFound i thief vpid j k q hnodes hi hserver hqueues =>
      have hok := h.server i
      rw [hserver] at hok
      exact (h.setQueues hi q).setServer hok.2 (.inl ⟨hi, hnodes⟩)
  | @scanNext i thief vpid j hnodes hi hserver hj =>
      have hok := h.server i
      rw [hserver] at hok
      exact h.setServer ⟨Nat.succ_lt_succ hj, hok.2⟩ (.inl ⟨hi, hnodes⟩)
  | @scanNone i thief vpid j hnodes hi hserver =>
      have hok := h.server i
      rw [hserver] at hok
      exact h.setServer hok.2 (.inl ⟨hi, hnodes⟩)
  | @replied i thief vpid work hserver =>
      have hok := h.server i
      rw [hserver] at hok
      -- the reply goes back to the worker that asked
      have hcount : Sound workers (s.countServed i work) := h.setNode_same rfl rfl
      exact (hcount.sendReply hcounts hok work).toLoop i

theorem change {o : Option Thread} (h : Sound workers s)
    (hcounts : ∀ w ∈ workers, w ≤ maxNvps)
    (hchange : Change workers s o s') : Sound workers s' := by
  cases hchange with
  | move hmove => exact h.move hcounts hmove
  | poll hworker hctl => exact h.setCtl hworker trivial
  | toggle => exact h.setNode_same rfl rfl

end Sound

/-! ## The tasks' own steps -/

/-- The steps of the cluster that the tasks do not notice leave them as they are. -/
theorem Placed.simulates (h : Placed s) (hmove : Move workers s θ s') :
    s'.tasks = s.tasks ∨ Tasks.Step s.tasks s'.tasks := by
  cases hmove with
  | goOn hruns hstep => exact .inr (.body (h.status_stack hruns.stack) hstep)
  | createHere hruns hturn hstep => exact .inr (.body (h.status_stack hruns.stack) hstep)
  | createAway hruns hturn hstep => exact .inr (.body (h.status_stack hruns.stack) hstep)
  | returnHome hruns hstep => exact .inr (.body (h.status_stack hruns.stack) hstep)
  | returnAway hruns hstep => exact .inr (.body (h.status_stack hruns.stack) hstep)
  | execute hworker hctl => exact .inr (.execute (h.status_got hctl))
  | answer hserver => exact .inr (.complete (h.status_answer hserver))
  | _ => exact .inl rfl

end Torc.Parallel
