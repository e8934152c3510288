import Torc.Parallel.Order
import Torc.Parallel.Requests
import Torc.Parallel.Targets

/-!
# Searches and messages come to an end

As long as a worker looks for a task, a server is busy or a message is in flight, some thread gets
on, and what is left of searches and messages becomes less unless the tasks get on.
-/

namespace Torc.Parallel

open Transition Ledger
open Cluster (Pos IsWorker)

variable {β : Type}

/-! ## Everything that holds in every state -/

structure Consistent (workers : List Nat) (root : Body β) (s : State β) : Prop
    extends Coherent workers root s where
  ordered : s.tasks.Ordered
  stacked : Stacked s
  requested : Requested s
  locked : Locked s
  aimed : Aimed workers s

variable {workers : List Nat} {root : Body β} {s s' : State β} {i v k : Nat}

theorem Consistent.start (L : Layout) (hjoins : root.Joins false)
    (haims : root.Aims (torcTotalNumThreads L.workers)) :
    Consistent L.workers root (.start root) where
  toCoherent := Coherent.start L hjoins
  ordered := Tasks.Ordered.start root
  stacked := Stacked.start root
  requested := Requested.start root
  locked := Locked.start root
  aimed := Aimed.start haims

theorem Consistent.change {o : Option Thread} (h : Consistent workers root s)
    (hcounts : ∀ w ∈ workers, w ≤ maxNvps) (hchange : Change workers s o s') :
    Consistent workers root s' where
  toCoherent := h.toCoherent.change hcounts hchange
  ordered := by
    cases hchange with
    | move hmove =>
        rcases h.placed.simulates hmove with heq | hstep
        · rw [heq]
          exact h.ordered
        · exact h.ordered.step h.tasks hstep
    | poll | toggle => exact h.ordered
  stacked := h.stacked.change h.placed h.ordered hchange
  requested := h.requested.change h.sound hcounts hchange
  locked := h.locked.change hchange
  aimed := h.aimed.change h.placed hchange

theorem consistent_of_reachable (L : Layout) (p : Program β L.workers)
    (h : (system L.workers p.body).Reachable s) : Consistent L.workers p.body s := by
  apply h.invariant (Consistent L.workers p.body)
  · rintro s rfl
    exact Consistent.start L p.joins p.aims
  · intro s s' a hinv _ hstep
    exact hinv.change L.le (step_change hinv.sound hstep)

/-- A worker that has asked a node for work has one request or reply under way, which names both of
them, and is the only one of its node that waits while `internode_m` is held. -/
theorem one_request (L : Layout) (p : Program β L.workers)
    (h : (system L.workers p.body).Reachable s) : Requested s ∧ Locked s :=
  ⟨(consistent_of_reachable L p h).requested, (consistent_of_reachable L p h).locked⟩

/-- The worker of node 1 has asked node 0. -/
theorem one_request_remoteChild : ∃ s, (system twoNodes.workers remoteChild.body).Reachable s ∧
    asked s (1, 0) = some 0 ∧ Requested s ∧ Locked s := by
  have hend : ((system twoNodes.workers remoteChild.body).run (.start remoteChild.body)
      (.setStealing 1 true :: List.replicate 13 (.work 1 0 0))).map (asked · (1, 0)) =
        some (some 0) := by decide
  obtain ⟨s, hreach, hasked⟩ := System.Reachable.eval (.init rfl) hend
  exact ⟨s, hreach, hasked, one_request twoNodes remoteChild hreach⟩

/-! ## What is left -/

def Content.rank : Content β → Nat
  -- above what the server does for it, from `handling` to the reply
  | .request => 20
  | .enqueue _ | .answer _ _ => 2
  | .reply _ => 1

def ServerCtl.rank : ServerCtl β → Nat
  | .loop => 0
  | .handling _ _ .request => 19
  | .handling _ _ _ => 1
  -- ten queues, each with a step of its own, and the reply
  | .scan _ _ j => 18 - j
  | .reply _ _ _ => 3

/-- An upper bound for the steps of the threads of a node before they have to wait for others. -/
def nodeRank (workers : List Nat) (s : State β) (i : Nat) : Nat :=
  (s.node i).server.rank +
    ∑ v ∈ Finset.range (workers.getD i 0), (s.worker i v).ctl.rank workers.length i

def netRank (net : List (Msg β)) : Nat :=
  (net.map fun m ↦ m.content.rank).sum

def unsettled (workers : List Nat) (s : State β) : Nat :=
  ∑ i ∈ Finset.range workers.length, nodeRank workers s i + netRank s.net

theorem unsettled_setNode {nd : Node β} (hserver : nd.server = (s.node i).server) :
    unsettled workers (s.setNode i nd) = unsettled workers s := by
  have hnode : ∀ j, nodeRank workers (s.setNode i nd) j = nodeRank workers s j := by
    intro j
    have hsame : ((s.setNode i nd).node j).server = (s.node j).server :=
      congrFun (servers_setNode hserver) j
    unfold nodeRank
    rw [hsame]
    rfl
  unfold unsettled
  simp only [hnode]
  rfl

theorem unsettled_setServer (s : State β) (ctl : ServerCtl β) (hi : i < workers.length) :
    unsettled workers (s.setServer i ctl) + (s.node i).server.rank =
      unsettled workers s + ctl.rank := by
  -- only the node of the server has another rank
  have hsum := Tasks.sum_change (f := nodeRank workers s)
    (g := nodeRank workers (s.setServer i ctl)) hi (by
      intro j _ hj
      have hsame : (s.setServer i ctl).node j = s.node j := Function.update_of_ne hj ..
      unfold nodeRank
      rw [hsame]
      rfl)
  have hself : ((s.setServer i ctl).node i).server = ctl := by
    simp [State.setServer, State.setNode]
  have hnew : nodeRank workers (s.setServer i ctl) i =
      ctl.rank + ∑ v ∈ Finset.range (workers.getD i 0),
      (s.worker i v).ctl.rank workers.length i := by
    unfold nodeRank
    rw [hself]
    rfl
  have hold : nodeRank workers s i = (s.node i).server.rank +
      ∑ v ∈ Finset.range (workers.getD i 0), (s.worker i v).ctl.rank workers.length i := rfl
  have hnet : (s.setServer i ctl).net = s.net := rfl
  unfold unsettled
  rw [hnet]
  omega

theorem unsettled_setWorker (s : State β) (w : Worker) (hworker : IsWorker workers i v) :
    unsettled workers (s.setWorker i v w) + (s.worker i v).ctl.rank workers.length i =
      unsettled workers s + w.ctl.rank workers.length i := by
  -- only the node of the worker has another rank, and in it only this worker
  have hsum := Tasks.sum_change (f := nodeRank workers s)
    (g := nodeRank workers (s.setWorker i v w)) hworker.1 (by
      intro j _ hj
      have hsame : ∀ u, (s.setWorker i v w).worker j u = s.worker j u :=
        fun u ↦ worker_setWorker_of_ne fun hju ↦ hj hju.1
      unfold nodeRank
      simp only [hsame]
      rfl)
  have hworkers := Tasks.sum_change (k := v)
    (f := fun u ↦ (s.worker i u).ctl.rank workers.length i)
    (g := fun u ↦ ((s.setWorker i v w).worker i u).ctl.rank workers.length i) hworker.2 (by
      intro u _ hu
      simp only [worker_setWorker_of_ne (s := s) (w := w) fun hju : i = i ∧ u = v ↦ hu hju.2])
  simp only [worker_setWorker_self] at hworkers
  have hnew : nodeRank workers (s.setWorker i v w) i = (s.node i).server.rank +
      ∑ u ∈ Finset.range (workers.getD i 0),
        ((s.setWorker i v w).worker i u).ctl.rank workers.length i := rfl
  have hold : nodeRank workers s i = (s.node i).server.rank +
      ∑ u ∈ Finset.range (workers.getD i 0), (s.worker i u).ctl.rank workers.length i := rfl
  have hnet : (s.setWorker i v w).net = s.net := rfl
  unfold unsettled
  rw [hnet]
  omega

theorem unsettled_setCtl (s : State β) (c : WorkerCtl) (hworker : IsWorker workers i v) :
    unsettled workers (s.setCtl i v c) + (s.worker i v).ctl.rank workers.length i =
      unsettled workers s + c.rank workers.length i :=
  unsettled_setWorker s _ hworker

theorem unsettled_send (s : State β) (c : Chan) (x : Content β) :
    unsettled workers (s.send c x) = unsettled workers s + x.rank := by
  have hnet : netRank (s.send c x).net = netRank s.net + x.rank := by
    simp [netRank, State.send]
  unfold unsettled
  rw [hnet, ← Nat.add_assoc]
  rfl

theorem unsettled_setNet (workers : List Nat) {c : Chan} {x : Content β} {net : List (Msg β)}
    (htake : Mailbox.take c s.net = some (x, net)) :
    unsettled workers (s.setNet net) + x.rank = unsettled workers s := by
  have hnet : netRank net + x.rank = netRank s.net := by
    obtain ⟨l, l', hnet, hrest, -⟩ := Mailbox.take_split htake
    rw [hnet, hrest]
    simp only [netRank, List.map_append, List.map_cons, List.sum_append, List.sum_cons]
    omega
  have hsame : unsettled workers (s.setNet net) =
      ∑ i ∈ Finset.range workers.length, nodeRank workers s i + netRank net := rfl
  rw [hsame]
  unfold unsettled
  omega

/-! ## Every step -/

theorem callRank_pos (n : Nat) (again : Bool) : 0 < callRank n again := by
  unfold callRank
  split <;> omega

theorem ringLeft_pos {n node : Nat} (hnode : node < n) (hne : node ≠ i) :
    0 < ringLeft n i node := by
  unfold ringLeft
  split <;> omega

/-- Each step gets the tasks on, or the searches and messages. -/
theorem Consistent.lowers {θ : Thread} (h : Consistent workers root s)
    (hmove : Move workers s θ s') :
    s'.tasks.total Tasks.workRates < s.tasks.total Tasks.workRates ∨
      s'.tasks = s.tasks ∧ unsettled workers s' < unsettled workers s := by
  have htasks : Tasks.Step s.tasks s'.tasks →
      s'.tasks.total Tasks.workRates < s.tasks.total Tasks.workRates := h.tasks.work_step
  cases hmove with
  -- the steps of tasks
  | goOn hruns hstep => exact .inl (htasks (.body (h.placed.status_stack hruns.stack) hstep))
  | createHere hruns hturn hstep =>
      exact .inl (htasks (.body (h.placed.status_stack hruns.stack) hstep))
  | createAway hruns hturn hstep =>
      exact .inl (htasks (.body (h.placed.status_stack hruns.stack) hstep))
  | returnHome hruns hstep =>
      exact .inl (htasks (.body (h.placed.status_stack hruns.stack) hstep))
  | returnAway hruns hstep =>
      exact .inl (htasks (.body (h.placed.status_stack hruns.stack) hstep))
  | execute hworker hctl => exact .inl (htasks (.execute (h.placed.status_got hctl)))
  | answer hserver => exact .inl (htasks (.complete (h.placed.status_answer hserver)))
      -- a worker that finds a task is through with its search
  | @found i v k again pos q hworker hctl =>
      have hset := unsettled_setCtl (s.setQueues i q) (.got k) hworker
      have hqueues : unsettled workers (s.setQueues i q) = unsettled workers s :=
        unsettled_setNode rfl
      have hold : (s.setQueues i q).worker i v = s.worker i v := rfl
      have hpos := callRank_pos workers.length again
      rw [hold, hctl, hqueues] at hset
      simp only [WorkerCtl.rank] at hset
      exact .inr ⟨rfl, by omega⟩
      -- it has come to a later position
  | @pass i v again on pos c hworker hctl hidle hok hrank =>
      have hset := unsettled_setCtl (s.setStealing i on) c hworker
      have hstealing : unsettled workers (s.setStealing i on) = unsettled workers s :=
        unsettled_setNode rfl
      have hold : (s.setStealing i on).worker i v = s.worker i v := rfl
      rw [hold, hctl, hstealing] at hset
      exact .inr ⟨rfl, by omega⟩
      -- the request costs less than the positions up to the next node
  | @ask i v node again hworker hctl =>
      have hset :=
        unsettled_setCtl ((s.lockInternode i true).send ⟨i, v, node, maxNvps⟩ .request)
        (.waitReply again node) hworker
      have hlock : unsettled workers (s.lockInternode i true) = unsettled workers s :=
        unsettled_setNode rfl
      have hold : ((s.lockInternode i true).send ⟨i, v, node, maxNvps⟩ .request).worker i v =
          s.worker i v := rfl
      have hok := h.sound.ctl i v
      rw [hctl] at hok
      have hpos := ringLeft_pos hok.1 hok.2
      rw [hold, hctl, unsettled_send, hlock] at hset
      simp only [WorkerCtl.rank, posRank, Content.rank] at hset
      exact .inr ⟨rfl, by omega⟩
      -- the reply is taken and the search goes on at the next node
  | @refused i v node again on net c hworker hctl htake hidle hok hrank =>
      have hset := unsettled_setCtl (((s.setNet net).lockInternode i false).setStealing i on) c
        hworker
      have hstealing : unsettled workers (((s.setNet net).lockInternode i false).setStealing i on) =
          unsettled workers ((s.setNet net).lockInternode i false) := unsettled_setNode rfl
      have hlock : unsettled workers ((s.setNet net).lockInternode i false) =
          unsettled workers (s.setNet net) := unsettled_setNode rfl
      have hold : (((s.setNet net).lockInternode i false).setStealing i on).worker i v =
          s.worker i v := rfl
      have hnet := unsettled_setNet workers htake
      rw [hold, hctl, hstealing, hlock] at hset
      exact .inr ⟨rfl, by omega⟩
  | @stolen i v k node again net hworker hctl htake =>
      have hset := unsettled_setCtl (((s.setNet net).lockInternode i false).countHit i) (.got k)
        hworker
      have hhit : unsettled workers (((s.setNet net).lockInternode i false).countHit i) =
          unsettled workers ((s.setNet net).lockInternode i false) := unsettled_setNode rfl
      have hlock : unsettled workers ((s.setNet net).lockInternode i false) =
          unsettled workers (s.setNet net) := unsettled_setNode rfl
      have hold : (((s.setNet net).lockInternode i false).countHit i).worker i v =
          s.worker i v := rfl
      have hnet := unsettled_setNet workers htake
      have hpos := callRank_pos workers.length again
      rw [hold, hctl, hhit, hlock] at hset
      simp only [WorkerCtl.rank] at hset
      exact .inr ⟨rfl, by omega⟩
      -- a reply is never on a channel of a server
  | @receive i src thread x net hnodes hi hserver htake =>
      have hset := unsettled_setServer (s.setNet net) (.handling src thread x) hi
      have hold : ((s.setNet net).node i).server = .loop := hserver
      have hnet := unsettled_setNet workers htake
      have hreply := h.sound.not_isReply htake
      rw [hold] at hset
      refine .inr ⟨rfl, ?_⟩
      cases x with
      | reply => exact absurd trivial hreply
      | _ =>
          simp only [ServerCtl.rank, Content.rank] at hset hnet
          omega
      -- the server is through with a message
  | @enqueue i src thread k q hi hserver =>
      have hset := unsettled_setServer (s.setQueues i q) .loop hi
      have hqueues : unsettled workers (s.setQueues i q) = unsettled workers s :=
        unsettled_setNode rfl
      rw [setQueues_server, hserver, hqueues] at hset
      simp only [ServerCtl.rank] at hset
      exact .inr ⟨rfl, by omega⟩
  | @request i src thread hnodes hi hserver =>
      have hset := unsettled_setServer (s.countAttempt i) (.scan src thread 0) hi
      have hcount : unsettled workers (s.countAttempt i) = unsettled workers s :=
        unsettled_setNode rfl
      rw [countAttempt_server, hserver, hcount] at hset
      simp only [ServerCtl.rank] at hset
      exact .inr ⟨rfl, by omega⟩
      -- it finds a task in one of the ten queues, looks at the next, or has seen all
  | @scanFound i thief vpid j k q hnodes hi hserver =>
      have hset := unsettled_setServer (s.setQueues i q) (.reply thief vpid (some k)) hi
      have hqueues : unsettled workers (s.setQueues i q) = unsettled workers s :=
        unsettled_setNode rfl
      have hok := h.sound.server i
      rw [hserver] at hok
      have hj := hok.1
      rw [setQueues_server, hserver, hqueues] at hset
      simp only [ServerCtl.rank] at hset
      exact .inr ⟨rfl, by omega⟩
  | @scanNext i thief vpid j hnodes hi hserver hj =>
      have hset := unsettled_setServer s (.scan thief vpid (j + 1)) hi
      rw [hserver] at hset
      simp only [ServerCtl.rank] at hset
      exact .inr ⟨rfl, by omega⟩
  | @scanNone i thief vpid j hnodes hi hserver =>
      have hset := unsettled_setServer s (.reply thief vpid none) hi
      have hok := h.sound.server i
      rw [hserver] at hok
      have hj := hok.1
      rw [hserver] at hset
      simp only [ServerCtl.rank] at hset
      exact .inr ⟨rfl, by omega⟩
      -- the reply in the message is less than the reply to be sent
  | @replied i thief vpid work hserver =>
      have hi : i < workers.length := by
        rcases h.sound.serving i with hi | hloop
        · exact hi.1
        · rw [hloop] at hserver
          cases hserver
      have hset := unsettled_setServer ((s.countServed i work).send
        ⟨i, maxNvps, thief, replyTag vpid⟩ (.reply work)) .loop hi
      have hcount : unsettled workers (s.countServed i work) = unsettled workers s :=
        unsettled_setNode rfl
      have hold : (((s.countServed i work).send ⟨i, maxNvps, thief, replyTag vpid⟩
          (.reply work)).node i).server = .reply thief vpid work :=
        (countServed_server s i work).trans hserver
      rw [unsettled_send, hcount, hold] at hset
      simp only [ServerCtl.rank, Content.rank] at hset
      exact .inr ⟨rfl, by omega⟩

/-! ## Some thread gets on -/

/-- No search, no busy server and no message. -/
structure Settled (s : State β) : Prop where
  server : ∀ i, (s.node i).server = .loop
  net : s.net = []
  ctl : ∀ i v, (s.worker i v).ctl = .body

/-- The thread can get on. -/
def Enabled (workers : List Nat) (θ : Thread) (s : State β) : Prop :=
  ∃ a s', Follows workers a s = true ∧ a.thread = some θ ∧ step workers s a = some s' ∧
    Move workers s θ s'

theorem Consistent.isWorker (h : Consistent workers root s) (hctl : (s.worker i v).ctl ≠ .body) :
    IsWorker workers i v := by
  rcases h.sound.worker i v with hworker | hnone
  · exact hworker
  · rw [hnone] at hctl
    exact absurd rfl hctl

theorem Consistent.enabled_work (h : Consistent workers root s) (hworker : IsWorker workers i v)
    (hstep : ∀ target, ∃ s', workerStep workers s i v target = some s' ∧
      Move workers s (.worker i v) s') : Enabled workers (.worker i v) s := by
  obtain ⟨s', hs, hmove⟩ := hstep ((s.node i).roundRobin.target workers i v)
  exact ⟨.work i v ((s.node i).roundRobin.target workers i v), s', beq_self_eq_true _, rfl,
    (if_pos ⟨hworker, h.aimed.turn i v hworker⟩).trans hs, hmove⟩

theorem Consistent.enabled_server (h : Consistent workers root s)
    (hserver : (s.node i).server ≠ .loop) : Enabled workers (.server i) s := by
  have hi : i < workers.length ∧ 1 < workers.length := (h.sound.serving i).resolve_right hserver
  have hstep : ∃ s', serverStep s i = some s' := by
    unfold serverStep
    split
    · contradiction
    · exact ⟨_, rfl⟩
    · split
      · exact ⟨_, rfl⟩
      · split <;> exact ⟨_, rfl⟩
    · exact ⟨_, rfl⟩
  obtain ⟨s', hs⟩ := hstep
  exact ⟨.serve i, s', rfl, rfl, (if_pos hi.symm).trans hs,
    serverStep_move h.sound hi.2 hi.1 hs⟩

theorem enabled_receive {src thread : Nat} {x : Content β} {net : List (Msg β)}
    (hnodes : 1 < workers.length) (hi : i < workers.length) (hserver : (s.node i).server = .loop)
    (htake : Mailbox.take ⟨src, thread, i, maxNvps⟩ s.net = some (x, net)) :
    Enabled workers (.receiver i src thread) s := by
  have hs : receiveMessage s i src thread =
      some ((s.setNet net).setServer i (.handling src thread x)) := by
    unfold receiveMessage
    rw [hserver, htake]
    rfl
  exact ⟨.receive i src thread, _, rfl, rfl, (if_pos ⟨hnodes, hi⟩).trans hs,
    receiveMessage_move hnodes hi hs⟩

/-- A worker whose reply is there receives it. -/
theorem Consistent.enabled_reply (h : Consistent workers root s) {node : Nat} {work : Option Nat}
    {net : List (Msg β)} (hasked : asked s (i, v) = some node)
    (htake : Mailbox.take ⟨node, maxNvps, i, waitTag v⟩ s.net = some (.reply work, net)) :
    Enabled workers (.worker i v) s := by
  cases hctl : (s.worker i v).ctl <;> simp only [asked, hctl, WorkerCtl.asked] at hasked
  case waitReply again node' =>
    obtain rfl := Option.some.inj hasked
    have hworker : IsWorker workers i v := h.isWorker (by rw [hctl]; intro hbody; cases hbody)
    apply h.enabled_work hworker
    intro target
    have hstep : workerStep workers s i v target =
        receiveReply workers s i v again node' := by
      simp only [workerStep, hctl]
    have hs : ∃ s', receiveReply workers s i v again node' = some s' := by
      unfold receiveReply
      rw [htake]
      cases work <;> exact ⟨_, rfl⟩
    obtain ⟨s', hs⟩ := hs
    rw [hstep]
    exact ⟨s', hs, receiveReply_move h.sound hworker hctl hs⟩
  all_goals cases hasked

theorem Consistent.asked_of_free (h : Consistent workers root s)
    (hfree : (s.node i).internodeM = false) (v : Nat) : asked s (i, v) = none := by
  by_contra hasked
  rw [(h.locked.held i).mpr ⟨v, hasked⟩] at hfree
  cases hfree

/-- A worker with a task or in its search gets on while no worker of its node waits for a reply. -/
theorem Consistent.enabled_of_free (h : Consistent workers root s)
    (hfree : (s.node i).internodeM = false) (hbusy : (s.worker i v).ctl ≠ .body) :
    Enabled workers (.worker i v) s := by
  have hworker := h.isWorker hbusy
  apply h.enabled_work hworker
  intro target
  cases hctl : (s.worker i v).ctl with
  | body => exact absurd hctl hbusy
  | waitReply again node =>
      have hasked := h.asked_of_free hfree v
      simp only [asked, hctl, WorkerCtl.asked] at hasked
      cases hasked
  | got k => exact ⟨execute s i v k, by simp only [workerStep, hctl], .execute hworker hctl⟩
  | next again pos =>
      have hs : ∃ s', lookAt workers s i v again pos = some s' := by
        cases pos with
        | privateQueue =>
            simp only [lookAt]
            split <;> exact ⟨_, rfl⟩
        | publicQueue j =>
            simp only [lookAt]
            split <;> exact ⟨_, rfl⟩
        | steal node => exact ⟨_, if_neg (Bool.eq_false_iff.mp hfree)⟩
      obtain ⟨s', hs⟩ := hs
      exact ⟨s', by simp only [workerStep, hctl, hs], lookAt_move h.sound hworker hctl hs⟩

theorem take_cons (m : Msg β) (net : List (Msg β)) {c : Chan} (hc : m.chan = c) :
    Mailbox.take c (m :: net) = some (m.content, net) := by
  subst hc
  exact Mailbox.take_cons_self m net

/-- The oldest message can be received. -/
theorem Consistent.enabled_message (h : Consistent workers root s)
    (hserver : ∀ i, (s.node i).server = .loop) {m : Msg β} {net : List (Msg β)}
    (hnet : s.net = m :: net) : ∃ θ, Enabled workers θ s := by
  have hok := h.sound.net m (by rw [hnet]; exact List.mem_cons_self)
  have htoServer : m.chan.tag = maxNvps → m.chan.dst < workers.length → 1 < workers.length →
      ∃ θ, Enabled workers θ s := by
    intro htag hdst hnodes
    have htake := take_cons m net (c := ⟨m.chan.src, m.chan.thread, m.chan.dst, maxNvps⟩)
      (by rw [← htag])
    rw [← hnet] at htake
    exact ⟨_, enabled_receive hnodes hdst (hserver _) htake⟩
  unfold MsgOk at hok
  cases hx : m.content <;> simp only [hx] at hok
  case enqueue | request | answer => exact htoServer hok.1 hok.2.1 hok.2.2.1
  case reply work =>
    obtain ⟨hthread, v, hworker, htag⟩ := hok
    -- the worker that it is for waits for a reply of this node
    have hmem : ((m.chan.dst, v), some m.chan.src) ∈ requests s.net (servers s) none := by
      have hm : messageRequests m = [((m.chan.dst, v), some m.chan.src)] := by
        unfold messageRequests
        rw [hx, htag]
        simp [waitTag]
      simp [requests, hnet, hm]
    have htake := take_cons m net (c := ⟨m.chan.src, maxNvps, m.chan.dst, waitTag v⟩)
      (by rw [← htag, ← hthread])
    rw [← hnet, hx] at htake
    exact ⟨_, h.enabled_reply (h.requested.shows none _ hmem) htake⟩

/-- Without busy servers and messages nobody waits for a reply. -/
theorem Consistent.asked_eq_none (h : Consistent workers root s)
    (hserver : ∀ i, (s.node i).server = .loop) (hnet : s.net = []) (w : Nat × Nat) :
    asked s w = none := by
  by_contra hasked
  obtain ⟨p, hp⟩ := h.requested.exists_entry hasked
  cases p with
  | none =>
      rw [hnet] at hp
      cases hp
  | some j =>
      have hj : servers s j = .loop := hserver j
      simp only [requests, hj, ServerCtl.requests] at hp
      cases hp

/-- Some thread gets on unless everything has settled. -/
theorem Consistent.settled_or_enabled (h : Consistent workers root s) :
    Settled s ∨ ∃ θ, Enabled workers θ s := by
  by_cases hserver : ∀ i, (s.node i).server = .loop
  · cases hnet : s.net with
    | cons m net => exact .inr (h.enabled_message hserver hnet)
    | nil =>
        by_cases hctl : ∀ i v, (s.worker i v).ctl = .body
        · exact .inl ⟨hserver, hnet, hctl⟩
        · simp only [not_forall] at hctl
          obtain ⟨i, v, hbusy⟩ := hctl
          have hfree : (s.node i).internodeM = false := by
            by_contra hheld
            obtain ⟨u, hu⟩ := (h.locked.held i).mp (Bool.eq_true_of_not_eq_false hheld)
            exact hu (h.asked_eq_none hserver hnet (i, u))
          exact .inr ⟨_, h.enabled_of_free hfree hbusy⟩
  · obtain ⟨i, hbusy⟩ := not_forall.mp hserver
    exact .inr ⟨_, h.enabled_server hbusy⟩

end Torc.Parallel
