import Torc.Parallel.Ranges

/-!
# Stealing requests

A worker that waits for a reply has one request under way, at the node that it has asked or between
the two, and no other worker of its node waits.
-/

namespace Torc.Parallel

open Ledger
open Cluster (Pos IsWorker)

variable {β : Type}

/-- The node whose reply is waited for. -/
def WorkerCtl.asked : WorkerCtl → Option Nat
  | .waitReply _ node => some node
  | _ => none

/-- The node that a worker of a node has asked. -/
def asked (s : State β) (w : Nat × Nat) : Option Nat :=
  (s.worker w.1 w.2).ctl.asked

def servers (s : State β) (i : Nat) : ServerCtl β :=
  (s.node i).server

/-- The worker that has asked, and the node that it has asked. -/
abbrev Request :=
  (Nat × Nat) × Option Nat

def messageRequests (m : Msg β) : List Request :=
  match m.content with
  | .request => [((m.chan.src, m.chan.thread), some m.chan.dst)]
  | .reply _ => [((m.chan.dst, m.chan.tag - waitTag 0), some m.chan.src)]
  | _ => []

def ServerCtl.requests (i : Nat) : ServerCtl β → List Request
  | .handling src thread .request => [((src, thread), some i)]
  | .scan thief vpid _ | .reply thief vpid _ => [((thief, vpid), some i)]
  | _ => []

/-- Requests and replies in the net are at none, those of the server of a node at that node. -/
def requests (net : List (Msg β)) (server : Nat → ServerCtl β) : Option Nat → List Request
  | none => net.flatMap messageRequests
  | some i => (server i).requests i

def Requested (s : State β) : Prop :=
  Labelled (fun w ↦ asked s w ≠ none) (asked s) (requests s.net (servers s))

/-- `internode_m` is held while a worker of the node waits for a reply. -/
structure Locked (s : State β) : Prop where
  held : ∀ i, (s.node i).internodeM = true ↔ ∃ v, asked s (i, v) ≠ none
  unique : ∀ i v u, asked s (i, v) ≠ none → asked s (i, u) ≠ none → v = u

variable {workers : List Nat} {s s' : State β} {i v k : Nat} {θ : Thread}

/-! ## Requests that come and go -/

theorem servers_setServer (s : State β) (i : Nat) (ctl : ServerCtl β) :
    servers (s.setServer i ctl) = Function.update (servers s) i ctl := by
  funext j
  by_cases hj : j = i
  · subst hj
    simp [servers, State.setServer, State.setNode]
  · simp [servers, State.setServer, State.setNode, Function.update_of_ne hj]

theorem servers_setNode {nd : Node β} (hserver : nd.server = (s.node i).server) :
    servers (s.setNode i nd) = servers s :=
  funext (node_setNode_eq Node.server hserver)

@[simp] theorem servers_setTasks (s : State β) (t : Tasks β) :
    servers (s.setTasks t) = servers s :=
  rfl

@[simp] theorem servers_setNet (s : State β) (net : List (Msg β)) :
    servers (s.setNet net) = servers s :=
  rfl

@[simp] theorem servers_setQueues (s : State β) (i : Nat) (q : Queues Nat) :
    servers (s.setQueues i q) = servers s :=
  servers_setNode rfl

@[simp] theorem servers_setStealing (s : State β) (i : Nat) (on : Bool) :
    servers (s.setStealing i on) = servers s :=
  servers_setNode rfl

@[simp] theorem servers_lockInternode (s : State β) (i : Nat) (held : Bool) :
    servers (s.lockInternode i held) = servers s :=
  servers_setNode rfl

@[simp] theorem servers_setRoundRobin (s : State β) (i : Nat) (r : RoundRobin.State) :
    servers (s.setRoundRobin i r) = servers s :=
  servers_setNode rfl

@[simp] theorem servers_countAttempt (s : State β) (i : Nat) :
    servers (s.countAttempt i) = servers s :=
  servers_setNode rfl

@[simp] theorem servers_countServed (s : State β) (i : Nat) (work : Option Nat) :
    servers (s.countServed i work) = servers s :=
  servers_setNode rfl

@[simp] theorem servers_countHit (s : State β) (i : Nat) :
    servers (s.countHit i) = servers s :=
  servers_setNode rfl

theorem asked_setWorker (s : State β) (i v : Nat) (w : Worker) :
    asked (s.setWorker i v w) = Function.update (asked s) (i, v) w.ctl.asked := by
  funext ⟨j, u⟩
  by_cases hju : j = i ∧ u = v
  · obtain ⟨rfl, rfl⟩ := hju
    rw [Function.update_self]
    show ((s.setWorker j u w).worker j u).ctl.asked = _
    rw [worker_setWorker_self]
  · have hne : (j, u) ≠ (i, v) := fun h ↦ hju (Prod.mk.inj h)
    rw [Function.update_of_ne hne]
    show ((s.setWorker i v w).worker j u).ctl.asked = _
    rw [worker_setWorker_of_ne hju]
    rfl

theorem asked_setCtl (s : State β) (i v : Nat) (ctl : WorkerCtl) :
    asked (s.setCtl i v ctl) = Function.update (asked s) (i, v) ctl.asked :=
  asked_setWorker ..

/-- A worker that was not waiting and does not begin to. -/
theorem asked_setWorker_of_none {w : Worker} (hold : (s.worker i v).ctl.asked = none)
    (hnew : w.ctl.asked = none) : asked (s.setWorker i v w) = asked s := by
  rw [asked_setWorker, hnew, ← hold]
  exact Function.update_eq_self (i, v) (asked s)

theorem WorkerCtl.Idle.asked {c : WorkerCtl} (h : c.Idle) : c.asked = none := by
  cases c with
  | waitReply => cases h
  | _ => rfl

variable {net : List (Msg β)} {server : Nat → ServerCtl β} {r : Request}

theorem adds_message {c : Chan} {x : Content β} (hx : messageRequests ⟨c, x⟩ = [r]) :
    Adds (requests net server) (requests (net ++ [⟨c, x⟩]) server) r none where
  perm := by
    simp only [requests, List.flatMap_append, List.flatMap_singleton, hx]
    exact List.perm_append_singleton _ _
  others p hp := by
    cases p with
    | none => exact absurd rfl hp
    | some j => rfl

theorem removes_message {c : Chan} {x : Content β} {rest : List (Msg β)}
    (htake : Mailbox.take c net = some (x, rest)) (hx : messageRequests ⟨c, x⟩ = [r]) :
    Adds (requests rest server) (requests net server) r none where
  perm := by
    obtain ⟨l, l', hnet, hrest, -⟩ := Mailbox.take_split htake
    simp only [requests, hnet, hrest, List.flatMap_append, List.flatMap_cons, hx]
    exact List.perm_middle
  others p hp := by
    cases p with
    | none => exact absurd rfl hp
    | some j => rfl

theorem requests_update_of_ne {ctl : ServerCtl β} {p : Option Nat} (hp : p ≠ some i) :
    requests net (Function.update server i ctl) p = requests net server p := by
  cases p with
  | none => rfl
  | some j =>
      have hj : j ≠ i := fun hj ↦ hp (congrArg some hj)
      simp only [requests, Function.update_of_ne hj]

theorem adds_server {ctl : ServerCtl β} (hold : (server i).requests i = [])
    (hnew : ctl.requests i = [r]) :
    Adds (requests net server) (requests net (Function.update server i ctl)) r (some i) where
  perm := by
    simp only [requests, Function.update_self, hnew, hold]
    exact List.Perm.refl _
  others _ hp := requests_update_of_ne hp

theorem removes_server {ctl : ServerCtl β} (hold : (server i).requests i = [r])
    (hnew : ctl.requests i = []) :
    Adds (requests net (Function.update server i ctl)) (requests net server) r (some i) where
  perm := by
    simp only [requests, Function.update_self, hnew, hold]
    exact List.Perm.refl _
  others _ hp := (requests_update_of_ne hp).symm

/-! ## What changes no request -/

theorem requests_send_of_nil {c : Chan} {x : Content β} (hx : messageRequests ⟨c, x⟩ = []) :
    requests (net ++ [⟨c, x⟩]) server = requests net server := by
  funext p
  cases p with
  | none => simp [requests, hx]
  | some j => rfl

theorem requests_take_of_nil {c : Chan} {x : Content β} {rest : List (Msg β)}
    (htake : Mailbox.take c net = some (x, rest)) (hx : messageRequests ⟨c, x⟩ = []) :
    requests rest server = requests net server := by
  funext p
  cases p with
  | none =>
      obtain ⟨l, l', hnet, hrest, -⟩ := Mailbox.take_split htake
      simp [requests, hnet, hrest, hx]
  | some j => rfl

theorem requests_update_of_eq {ctl : ServerCtl β} (h : ctl.requests i = (server i).requests i) :
    requests net (Function.update server i ctl) = requests net server := by
  funext p
  by_cases hp : p = some i
  · subst hp
    simpa only [requests, Function.update_self] using h
  · exact requests_update_of_ne hp

/-! ## Every step -/

theorem Requested.start (root : Body β) : Requested (.start root : State β) := by
  have hnone : ∀ w, asked (.start root : State β) w = none := by
    intro w
    unfold asked State.start
    simp only
    split <;> rfl
  refine ⟨⟨fun w hw ↦ absurd (hnone w) hw, fun w _ p ↦ ?_⟩, fun p e he ↦ ?_⟩
  · cases p <;> rfl
  · cases p <;> cases he

/-- Neither the workers that wait nor what is under way for them changes. -/
theorem Requested.congr (h : Requested s) (hasked : asked s' = asked s)
    (hrequests : requests s'.net (servers s') = requests s.net (servers s)) : Requested s' := by
  unfold Requested
  rw [hasked, hrequests]
  exact h

/-- A worker that was not waiting goes on, and does not begin to wait. -/
theorem Requested.setWorker (h : Requested s) (t : State β) {w : Worker}
    (hworker : t.worker = s.worker)
    (hrequests : requests t.net (servers t) = requests s.net (servers s))
    (hold : (s.worker i v).ctl.asked = none) (hnew : w.ctl.asked = none) :
    Requested (t.setWorker i v w) := by
  rw [← hworker] at hold
  apply h.congr
  · rw [asked_setWorker_of_none hold hnew]
    unfold asked
    rw [hworker]
  · exact hrequests

/-- What is under way for a worker goes from one place to another. -/
theorem Requested.carry (h : Requested s) (hasked : asked s' = asked s) {p q : Option Nat}
    {w : Nat × Nat} {node : Option Nat} {mid : Option Nat → List Request}
    (hout : Adds mid (requests s.net (servers s)) (w, node) p)
    (hin : Adds mid (requests s'.net (servers s')) (w, node) q) : Requested s' := by
  unfold Requested
  rw [hasked]
  exact Labelled.moves h hout hin (fun _ _ ↦ rfl) (h.shows p (w, node) hout.mem)

theorem Requested.ask (h : Requested s) {again : Bool} {node : Nat} {pos : Pos}
    (hctl : (s.worker i v).ctl = .next again pos) :
    Requested (((s.lockInternode i true).send ⟨i, v, node, maxNvps⟩ .request).setCtl i v
      (.waitReply again node)) := by
  -- the lock does not concern the servers
  have hserver : servers (s.lockInternode i true) = servers s := servers_setNode rfl
  have hin : Adds (requests s.net (servers s)) (requests (s.net ++ [⟨⟨i, v, node, maxNvps⟩,
      .request⟩]) (servers (s.lockInternode i true))) ((i, v), some node) none := by
    rw [hserver]
    exact adds_message rfl
  have hnone : asked s (i, v) = none := by
    show (s.worker i v).ctl.asked = none
    rw [hctl]
    rfl
  unfold Requested
  rw [asked_setCtl]
  apply Labelled.issues h hin
  case hnew => exact not_not_intro hnone
  case hissued =>
    intro w
    by_cases hw : w = (i, v)
    · subst hw
      simp [WorkerCtl.asked]
    · have hother : Function.update (asked ((s.lockInternode i true).send
          ⟨i, v, node, maxNvps⟩ .request)) (i, v) (WorkerCtl.waitReply again node).asked w =
          asked s w := Function.update_of_ne hw ..
      rw [hother]
      simp [hw]
  case hlabel => exact fun w hw ↦ Function.update_of_ne hw ..
  case ht => exact Function.update_self ..

/-- The worker has its reply. -/
theorem Requested.receiveReply (h : Requested s) {node : Nat} {work : Option Nat}
    {rest : List (Msg β)} {t : State β} {c : WorkerCtl}
    (htake : Mailbox.take ⟨node, maxNvps, i, waitTag v⟩ s.net = some (.reply work, rest))
    (hnet : t.net = rest) (hserver : servers t = servers s) (hworker : t.worker = s.worker)
    (hc : c.asked = none) : Requested (t.setCtl i v c) := by
  -- the tag of the reply names the worker that waits for it
  have hx : messageRequests (⟨⟨node, maxNvps, i, waitTag v⟩, .reply work⟩ : Msg β) =
      [((i, v), some node)] := by
    simp [messageRequests, waitTag]
  have hout : Adds (requests t.net (servers t)) (requests s.net (servers s))
      ((i, v), some node) none := by
    rw [hnet, hserver]
    exact removes_message htake hx
  have hsame : asked t = asked s := by
    funext w
    unfold asked
    rw [hworker]
  unfold Requested
  rw [asked_setCtl, hsame, hc]
  apply Labelled.retires h hout
  case hissued =>
    intro w
    by_cases hw : w = (i, v)
    · subst hw
      simp
    · simp [hw]
  case hlabel => exact fun w hw ↦ Function.update_of_ne hw ..

theorem Requested.receive (h : Requested s) {src thread : Nat} {x : Content β}
    {rest : List (Msg β)} (hserver : (s.node i).server = .loop) (hreply : ¬ x.IsReply)
    (htake : Mailbox.take ⟨src, thread, i, maxNvps⟩ s.net = some (x, rest)) :
    Requested ((s.setNet rest).setServer i (.handling src thread x)) := by
  have hold : (servers s i).requests i = [] := by
    show ServerCtl.requests i (s.node i).server = []
    rw [hserver]
    rfl
  have hservers : servers ((s.setNet rest).setServer i (.handling src thread x)) =
      Function.update (servers s) i (.handling src thread x) := servers_setServer ..
  have hasked : asked ((s.setNet rest).setServer i (.handling src thread x)) = asked s := rfl
  -- only a stealing request is under way for a worker
  have hnone : (ServerCtl.handling src thread x).requests i = [] →
      messageRequests (⟨⟨src, thread, i, maxNvps⟩, x⟩ : Msg β) = [] →
      Requested ((s.setNet rest).setServer i (.handling src thread x)) := by
    intro hnew hx
    apply h.congr hasked
    rw [hservers, requests_update_of_eq (hnew.trans hold.symm)]
    exact requests_take_of_nil htake hx
  cases x with
  | request =>
      apply h.carry hasked (removes_message htake rfl)
      rw [hservers]
      exact adds_server hold rfl
  | reply => exact absurd trivial hreply
  | enqueue | answer => exact hnone rfl rfl

/-- The server goes on with the same request. -/
theorem Requested.serve (h : Requested s) (t : State β) {ctl : ServerCtl β}
    (hworker : t.worker = s.worker) (hnet : t.net = s.net) (hserver : servers t = servers s)
    (hctl : ctl.requests i = (s.node i).server.requests i) : Requested (t.setServer i ctl) := by
  apply h.congr
  · funext w
    show (t.worker w.1 w.2).ctl.asked = (s.worker w.1 w.2).ctl.asked
    rw [hworker]
  · show requests t.net _ = _
    rw [servers_setServer, hserver, hnet]
    exact requests_update_of_eq hctl

theorem Requested.replied (h : Requested s) (hsound : Sound workers s)
    (hcounts : ∀ w ∈ workers, w ≤ maxNvps) {thief vpid : Nat} {work : Option Nat}
    (hserver : (s.node i).server = .reply thief vpid work) :
    Requested (((s.countServed i work).send ⟨i, maxNvps, thief, replyTag vpid⟩
      (.reply work)).setServer i .loop) := by
  -- the tag of the reply is the one that the worker waits on
  have hok := hsound.server i
  rw [hserver] at hok
  have hx : messageRequests (⟨⟨i, maxNvps, thief, replyTag vpid⟩, .reply work⟩ : Msg β) =
      [((thief, vpid), some i)] := by
    rw [Sound.replyTag_eq hcounts hok]
    simp [messageRequests, waitTag]
  have hold : (servers s i).requests i = [((thief, vpid), some i)] := by
    show ServerCtl.requests i (s.node i).server = _
    rw [hserver]
    rfl
  have hcount : servers (s.countServed i work) = servers s := servers_setNode rfl
  have hservers : servers (((s.countServed i work).send ⟨i, maxNvps, thief, replyTag vpid⟩
      (.reply work)).setServer i .loop) = Function.update (servers s) i .loop := by
    rw [← hcount]
    exact servers_setServer ..
  have hasked : asked (((s.countServed i work).send ⟨i, maxNvps, thief, replyTag vpid⟩
      (.reply work)).setServer i .loop) = asked s := rfl
  have hnew : (ServerCtl.loop : ServerCtl β).requests i = [] := rfl
  apply h.carry hasked (removes_server hold hnew)
  rw [hservers]
  exact adds_message hx

theorem Requested.move (h : Requested s) (hsound : Sound workers s)
    (hcounts : ∀ w ∈ workers, w ≤ maxNvps) (hmove : Move workers s θ s') : Requested s' := by
  cases hmove with
  | goOn => exact h
  | createHere =>
      refine Requested.congr h rfl ?_
      rw [servers_setQueues, servers_setRoundRobin]
      rfl
  | createAway =>
      refine Requested.congr h rfl ?_
      show requests (s.net ++ [_]) (servers (State.setRoundRobin _ _ _)) = _
      rw [servers_setRoundRobin]
      exact requests_send_of_nil rfl
  | @returnHome i v k rest result hruns =>
      apply h.setWorker (s.setTasks _) rfl rfl
      · rw [hruns.ctl]
        rfl
      · rfl
  | @returnAway i v k rest result hruns =>
      apply h.setWorker ((s.setTasks _).send _ _) rfl
      -- a task or an answer is no request
      · exact requests_send_of_nil rfl
      · rw [hruns.ctl]
        rfl
      · rfl
  | @found i v k again pos q hworker hctl =>
      apply h.setWorker (s.setQueues i q) rfl
      · rw [servers_setQueues]
        rfl
      · rw [hctl]
        rfl
      · rfl
  | @pass i v again on pos c hworker hctl hidle =>
      -- it goes on looking, and does not wait
      apply h.setWorker (s.setStealing i on) rfl
      · rw [servers_setStealing]
        rfl
      · rw [hctl]
        rfl
      · exact hidle.asked
  | ask hworker hctl => exact h.ask hctl
  | @refused i v node again on net c hworker hctl htake hidle =>
      refine h.receiveReply (t := ((s.setNet net).lockInternode i false).setStealing i on) htake
        rfl ?_ rfl hidle.asked
      rw [servers_setStealing, servers_lockInternode, servers_setNet]
  | @stolen i v k node again net hworker hctl htake =>
      refine h.receiveReply (t := ((s.setNet net).lockInternode i false).countHit i) htake
        rfl ?_ rfl rfl
      rw [servers_countHit, servers_lockInternode, servers_setNet]
  | @execute i v k hworker hctl =>
      apply h.setWorker (s.setTasks _) rfl rfl
      · rw [hctl]
        rfl
      · rfl
  | receive hnodes hi hserver htake => exact h.receive hserver (hsound.not_isReply htake) htake
  | @enqueue i src thread k q hi hserver =>
      apply h.serve (s.setQueues i q) rfl rfl (servers_setQueues ..)
      rw [hserver]
      rfl
  | @request i src thread hnodes hi hserver =>
      apply h.serve (s.countAttempt i) rfl rfl (servers_countAttempt ..)
      rw [hserver]
      rfl
  | @answer i src thread k result hserver =>
      apply h.serve (s.setTasks _) rfl rfl rfl
      rw [hserver]
      rfl
  | @scanFound i thief vpid j k q hnodes hi hserver =>
      apply h.serve (s.setQueues i q) rfl rfl (servers_setQueues ..)
      rw [hserver]
      rfl
  | scanNext hnodes hi hserver | scanNone hnodes hi hserver =>
      apply h.serve s rfl rfl rfl
      rw [hserver]
      rfl
  | replied hserver => exact h.replied hsound hcounts hserver

theorem Requested.change {o : Option Thread} (h : Requested s) (hsound : Sound workers s)
    (hcounts : ∀ w ∈ workers, w ≤ maxNvps) (hchange : Change workers s o s') :
    Requested s' := by
  cases hchange with
  | move hmove => exact h.move hsound hcounts hmove
  | @poll i v hworker hctl =>
      apply h.setWorker s rfl rfl
      · rw [hctl]
        rfl
      · rfl
  | toggle =>
      refine Requested.congr h rfl ?_
      rw [servers_setStealing]
      rfl

/-! ## The lock -/

def locks (s : State β) (i : Nat) : Bool :=
  (s.node i).internodeM

theorem locks_lockInternode (s : State β) (i : Nat) (held : Bool) :
    locks (s.lockInternode i held) = Function.update (locks s) i held := by
  funext j
  by_cases hj : j = i
  · subst hj
    simp [locks, State.lockInternode, State.setNode]
  · simp [locks, State.lockInternode, State.setNode, Function.update_of_ne hj]

theorem locks_setNode {nd : Node β} (hlock : nd.internodeM = (s.node i).internodeM) :
    locks (s.setNode i nd) = locks s :=
  funext (node_setNode_eq Node.internodeM hlock)

theorem Locked.start (root : Body β) : Locked (.start root : State β) := by
  have hnone : ∀ i v, asked (.start root : State β) (i, v) = none := by
    intro i v
    unfold asked State.start
    simp only
    split <;> rfl
  refine ⟨fun i ↦ ⟨nofun, ?_⟩, ?_⟩
  · rintro ⟨v, hv⟩
    exact absurd (hnone i v) hv
  · intro i v u hv
    exact absurd (hnone i v) hv

/-- Neither the locks nor the workers that wait change. -/
theorem Locked.congr (h : Locked s) (hasked : asked s' = asked s) (hlock : locks s' = locks s) :
    Locked s' where
  held i := by
    have hi : (s'.node i).internodeM = (s.node i).internodeM := congrFun hlock i
    rw [hasked, hi]
    exact h.held i
  unique i v u := by
    rw [hasked]
    exact h.unique i v u

theorem Locked.setWorker (h : Locked s) (t : State β) {w : Worker} (hworker : t.worker = s.worker)
    (hlock : locks t = locks s) (hold : (s.worker i v).ctl.asked = none)
    (hnew : w.ctl.asked = none) : Locked (t.setWorker i v w) := by
  rw [← hworker] at hold
  apply h.congr
  · rw [asked_setWorker_of_none hold hnew]
    unfold asked
    rw [hworker]
  · exact hlock

/-- Worker `v` of node `i` takes the lock and waits from now on. -/
theorem Locked.ask (h : Locked s) {t : State β} {c : WorkerCtl}
    (hfree : (s.node i).internodeM = false) (hworker : t.worker = s.worker)
    (hlock : locks t = Function.update (locks s) i true) (hc : c.asked ≠ none) :
    Locked (t.setCtl i v c) := by
  have hasked : asked (t.setCtl i v c) = Function.update (asked s) (i, v) c.asked := by
    rw [asked_setCtl]
    unfold asked
    rw [hworker]
  -- as the lock is free nobody waits
  have hnone : ∀ u, asked s (i, u) = none := by
    intro u
    by_contra hu
    rw [(h.held i).mpr ⟨u, hu⟩] at hfree
    cases hfree
  have hother : ∀ j u, j ≠ i → asked (t.setCtl i v c) (j, u) = asked s (j, u) := by
    intro j u hj
    rw [hasked, Function.update_of_ne (by simp [hj])]
  have hself : ∀ u, asked (t.setCtl i v c) (i, u) ≠ none ↔ u = v := by
    intro u
    rw [hasked]
    by_cases hu : u = v
    · subst hu
      rw [Function.update_self]
      simp [hc]
    · rw [Function.update_of_ne (by simp [hu])]
      simp [hnone u, hu]
  refine ⟨fun j ↦ ?_, fun j u u' hu hu' ↦ ?_⟩
  · have hj : ((t.setCtl i v c).node j).internodeM = locks t j := rfl
    rw [hj, hlock]
    by_cases hji : j = i
    · subst hji
      rw [Function.update_self]
      exact ⟨fun _ ↦ ⟨v, (hself v).mpr rfl⟩, fun _ ↦ rfl⟩
    · rw [Function.update_of_ne hji]
      simp only [hother j _ hji]
      exact h.held j
  · by_cases hji : j = i
    · subst hji
      rw [(hself u).mp hu, (hself u').mp hu']
    · rw [hother j _ hji] at hu hu'
      exact h.unique j u u' hu hu'

/-- Worker `v` of node `i` has its reply and gives the lock back. -/
theorem Locked.receiveReply (h : Locked s) {t : State β} {c : WorkerCtl}
    (hold : asked s (i, v) ≠ none) (hworker : t.worker = s.worker)
    (hlock : locks t = Function.update (locks s) i false) (hc : c.asked = none) :
    Locked (t.setCtl i v c) := by
  have hasked : asked (t.setCtl i v c) = Function.update (asked s) (i, v) none := by
    rw [asked_setCtl, hc]
    unfold asked
    rw [hworker]
  have hother : ∀ j u, j ≠ i → asked (t.setCtl i v c) (j, u) = asked s (j, u) := by
    intro j u hj
    rw [hasked, Function.update_of_ne (by simp [hj])]
  -- nobody else waited, since the lock was held for this worker
  have hself : ∀ u, asked (t.setCtl i v c) (i, u) = none := by
    intro u
    rw [hasked]
    by_cases hu : u = v
    · subst hu
      rw [Function.update_self]
    · rw [Function.update_of_ne (by simp [hu])]
      by_contra hne
      exact hu (h.unique i u v hne hold)
  refine ⟨fun j ↦ ?_, fun j u u' hu hu' ↦ ?_⟩
  · have hj : ((t.setCtl i v c).node j).internodeM = locks t j := rfl
    rw [hj, hlock]
    by_cases hji : j = i
    · subst hji
      rw [Function.update_self]
      exact ⟨nofun, fun ⟨u, hu⟩ ↦ absurd (hself u) hu⟩
    · rw [Function.update_of_ne hji]
      simp only [hother j _ hji]
      exact h.held j
  · by_cases hji : j = i
    · subst hji
      exact absurd (hself u) hu
    · rw [hother j _ hji] at hu hu'
      exact h.unique j u u' hu hu'

theorem Locked.move (h : Locked s) (hmove : Move workers s θ s') : Locked s' := by
  cases hmove with
  | goOn | receive | answer | scanNext | scanNone =>
      -- neither internode_m nor who waits for a reply changes
      apply Locked.congr h
      · rfl
      · first | rfl | exact locks_setNode rfl
  | createHere =>
      apply Locked.congr h
      · rfl
      · unfold State.setQueues State.setRoundRobin
        rw [locks_setNode, locks_setNode]
        all_goals rfl
  | createAway =>
      apply Locked.congr h
      · rfl
      · show locks (State.setRoundRobin _ _ _) = locks s
        unfold State.setRoundRobin
        rw [locks_setNode]
        all_goals rfl
  | @returnHome i v k rest result hruns =>
      apply h.setWorker (s.setTasks (s.tasks.complete k result)) rfl rfl
      · rw [hruns.ctl]
        rfl
      · rfl
  | @returnAway i v k rest result hruns =>
      apply h.setWorker ((s.setTasks (s.tasks.answer k result)).send _ _) rfl rfl
      · rw [hruns.ctl]
        rfl
      · rfl
  | @found i v k again pos q hworker hctl =>
      apply h.setWorker (s.setQueues i q) rfl (locks_setNode rfl)
      · rw [hctl]
        rfl
      · rfl
  | @pass i v again on pos c hworker hctl hidle =>
      apply h.setWorker (s.setStealing i on) rfl (locks_setNode rfl)
      · rw [hctl]
        rfl
      · exact hidle.asked
  | @ask i v node again hworker hctl hfree =>
      -- the one lock is free and the worker that takes it is the one that now waits
      apply h.ask (t := (s.lockInternode i true).send _ _) hfree rfl
      · exact locks_lockInternode s i true
      · exact nofun
  | @refused i v node again on net c hworker hctl htake hidle =>
      -- the worker that gets the reply is the one that holds the lock
      apply h.receiveReply (t := ((s.setNet net).lockInternode i false).setStealing i on)
      · show (s.worker i v).ctl.asked ≠ none
        rw [hctl]
        exact nofun
      · rfl
      · rw [State.setStealing, locks_setNode, locks_lockInternode]
        all_goals rfl
      · exact hidle.asked
  | @stolen i v k node again net hworker hctl htake =>
      apply h.receiveReply (t := ((s.setNet net).lockInternode i false).countHit i)
      · show (s.worker i v).ctl.asked ≠ none
        rw [hctl]
        exact nofun
      · rfl
      · rw [State.countHit, locks_setNode, locks_lockInternode]
        all_goals rfl
      · rfl
  | @execute i v k hworker hctl =>
      apply h.setWorker (s.setTasks (s.tasks.execute k)) rfl rfl
      · rw [hctl]
        rfl
      · rfl
  | enqueue | request | scanFound =>
      apply Locked.congr h
      · rfl
      · rw [State.setServer, locks_setNode]
        · exact locks_setNode rfl
        · rfl
  | @replied i thief vpid work hserver =>
      apply Locked.congr h
      · rfl
      · rw [State.setServer, locks_setNode]
        · exact (locks_setNode rfl : locks (s.countServed i work) = locks s)
        · rfl

theorem Locked.change {o : Option Thread} (h : Locked s) (hchange : Change workers s o s') :
    Locked s' := by
  cases hchange with
  | move hmove => exact h.move hmove
  | @poll i v hworker hctl =>
      apply h.setWorker s rfl rfl
      · rw [hctl]
        rfl
      · rfl
  | toggle =>
      apply Locked.congr h
      · rfl
      · exact locks_setNode rfl

end Torc.Parallel
