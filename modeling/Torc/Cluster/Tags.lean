import Torc.Cluster.Places
import Torc.Lib.Update

/-!
# The tags of the messages

On nodes with at most `MAX_NVPS` workers a payload never has the tag of the servers: the ids of the
threads that send them, workers all, are below it, and the replies of the servers have tags above.
The servers send no other payload, for they execute no task themselves.
-/

namespace Torc.Cluster

open Transition

/-- A task that is not executed by the server that receives it. -/
def Work.Queueable (w : Work) : Prop :=
  w.desc.rteType ≠ rteDirect

/-- A worker sends payloads with its id as tag, a server with the tags of its replies. -/
def PayloadTag : Thread → Nat → Prop
  | .worker v, tag => v < maxNvps ∧ tag = v
  | .server, tag => ∃ v, tag = waitTag v

/-- A worker receives the payloads of its replies, a server those that workers send. -/
def ReceiveTag : Thread → Nat → Prop
  | .worker v, tag => tag = waitTag v
  | .server, tag => tag < maxNvps

/-- A descriptor goes from a worker to a server or the other way. -/
structure DescOk (c : Chan) (d : TorcT) : Prop where
  queueable : d.rteType ≠ rteDirect
  source : d.sourcenode = c.src
  tag : (c.tag = maxNvps ∧ d.sourcevpid < maxNvps) ∨ c.thread = .server ∧
    ∃ v, c.tag = waitTag v

def PacketOk (c : Chan) : Packet → Prop
  | .desc d => DescOk c d
  | .payload _ => PayloadTag c.thread c.tag

def CallOk (th : Thread) : Effect → Prop
  | .isend _ tag _ => PayloadTag th tag
  | .irecv _ tag _ => ReceiveTag th tag
  | _ => True

def WorkerCtl.Ok : WorkerCtl → Prop
  | .created work _ _ | .receiving _ work | .got _ work => work.Queueable
  | _ => True

structure Worker.Ok (w : Worker) : Prop where
  ctl : w.ctl.Ok
  stack : ∀ work ∈ w.stack, work.Queueable

def ServerCtl.Ok : ServerCtl → Prop
  | .loop => True
  | .handling d => d.rteType ≠ rteDirect ∧ d.sourcevpid < maxNvps
  | .scan request _ => request.sourcevpid < maxNvps
  | .reply request work => request.sourcevpid < maxNvps ∧ ∀ w ∈ work, w.Queueable
  | .direct _ => False

structure Sound (s : State) : Prop where
  queues : ∀ i, (s.node i).queues.All Work.Queueable
  server : ∀ i, (s.node i).server.Ok
  worker : ∀ i v, (s.worker i v).Ok
  packet : ∀ c, ∀ p ∈ s.net c, PacketOk c p
  call : ∀ i th, ∀ e ∈ s.calls i th, CallOk th e

variable {workers : List Nat} {torcSize : Nat} {s s' : State} {i v : Nat} {th : Thread}

/-! ## What a receive takes -/

/-- A server that expects payloads of a worker does not get a descriptor. -/
theorem Sound.payload_of_lt (h : Sound s) {c : Chan} {p : Packet} (hp : p ∈ s.net c)
    (htag : c.tag < maxNvps) : ∃ t, p = .payload t := by
  cases p with
  | payload t => exact ⟨t, rfl⟩
  | desc d =>
      obtain ⟨-, -, htags⟩ : DescOk c d := h.packet c _ hp
      rcases htags with ⟨heq, -⟩ | ⟨-, u, heq⟩
      · omega
      · have hgt := waitTag_gt u
        omega

/-- What has the tag of a reply was sent by a server. -/
theorem Sound.server_of_waitTag (h : Sound s) {c : Chan} {p : Packet} (hp : p ∈ s.net c)
    (htag : c.tag = waitTag v) : c.thread = .server := by
  have hgt := waitTag_gt v
  cases p with
  | payload t =>
      have hok : PayloadTag c.thread c.tag := h.packet c _ hp
      cases hthread : c.thread with
      | server => rfl
      | worker u =>
          rw [hthread] at hok
          obtain ⟨hu, heq⟩ := hok
          omega
  | desc d =>
      obtain ⟨-, -, htags⟩ : DescOk c d := h.packet c _ hp
      rcases htags with ⟨heq, -⟩ | ⟨hthread, -⟩
      · omega
      · exact hthread

/-! ## Parts of a state -/

theorem setCalls_self (s : State) (i : Nat) (th : Thread) (l : List Effect) :
    (s.setCalls i th l).calls i th = l :=
  Update.update_update_self ..

theorem setCalls_of_ne {j : Nat} {o : Thread} (l : List Effect) (h : ¬ (j = i ∧ o = th)) :
    (s.setCalls i th l).calls j o = s.calls j o :=
  Update.update_update_of_ne s.calls l h

theorem Sound.init : Sound {} where
  queues _ := ⟨fun _ ht ↦ absurd ht List.not_mem_nil,
    fun _ _ ht ↦ absurd ht List.not_mem_nil⟩
  server _ := trivial
  worker _ _ := ⟨trivial, fun _ ht ↦ absurd ht List.not_mem_nil⟩
  packet _ _ hp := absurd hp List.not_mem_nil
  call _ _ _ he := absurd he List.not_mem_nil

theorem Sound.setNode (h : Sound s) {nd : Node} (hq : nd.queues.All Work.Queueable)
    (hs : nd.server.Ok) : Sound (s.setNode i nd) where
  queues j := by
    by_cases hj : j = i
    · subst hj
      simpa [State.setNode] using hq
    · simpa [State.setNode, Function.update_of_ne hj] using h.queues j
  server j := by
    by_cases hj : j = i
    · subst hj
      simpa [State.setNode] using hs
    · simpa [State.setNode, Function.update_of_ne hj] using h.server j
  worker := h.worker
  packet := h.packet
  call := h.call

theorem Sound.setQueues (h : Sound s) {q : Queues Work} (hq : q.All Work.Queueable) :
    Sound (s.setQueues i q) :=
  h.setNode hq (h.server i)

theorem Sound.setStealing (h : Sound s) (i : Nat) (on : Bool) : Sound (s.setStealing i on) :=
  h.setNode (h.queues i) (h.server i)

theorem Sound.lockInternode (h : Sound s) (i : Nat) (held : Bool) :
    Sound (s.lockInternode i held) :=
  h.setNode (h.queues i) (h.server i)

theorem Sound.setServer (h : Sound s) {ctl : ServerCtl} (hctl : ctl.Ok) :
    Sound (s.setServer i ctl) :=
  h.setNode (h.queues i) hctl

theorem Sound.setWorker (h : Sound s) {w : Worker} (hw : w.Ok) :
    Sound (s.setWorker i v w) where
  queues := h.queues
  server := h.server
  worker j u := by
    by_cases hj : j = i ∧ u = v
    · obtain ⟨rfl, rfl⟩ := hj
      simpa [State.setWorker] using hw
    · rw [show (s.setWorker i v w).worker j u = s.worker j u from
        Update.update_update_of_ne s.worker w hj]
      exact h.worker j u
  packet := h.packet
  call := h.call

theorem Sound.setCtl (h : Sound s) {ctl : WorkerCtl} (hctl : ctl.Ok) : Sound (s.setCtl i v ctl) :=
  h.setWorker ⟨hctl, (h.worker i v).stack⟩

theorem Sound.setNet (h : Sound s) {c : Chan} {l : List Packet} (hl : ∀ p ∈ l, PacketOk c p) :
    Sound (s.setNet c l) where
  queues := h.queues
  server := h.server
  worker := h.worker
  packet d p hp := by
    by_cases hd : d = c
    · subst hd
      rw [show (s.setNet d l).net d = l from Function.update_self ..] at hp
      exact hl p hp
    · rw [show (s.setNet c l).net d = s.net d from Function.update_of_ne hd ..] at hp
      exact h.packet d p hp
  call := h.call

theorem Sound.send (h : Sound s) {c : Chan} {p : Packet} (hp : PacketOk c p) : Sound (s.send c p) :=
  h.setNet (List.forall_mem_append.mpr ⟨h.packet c, List.forall_mem_singleton.mpr hp⟩)

/-- A message has been received. -/
theorem Sound.taken (h : Sound s) {c : Chan} {p : Packet} {l : List Packet}
    (hc : s.net c = p :: l) : PacketOk c p ∧ Sound (s.setNet c l) := by
  have hall := h.packet c
  rw [hc, List.forall_mem_cons] at hall
  exact ⟨hall.1, h.setNet hall.2⟩

theorem Sound.setCalls (h : Sound s) {l : List Effect} (hl : ∀ e ∈ l, CallOk th e) :
    Sound (s.setCalls i th l) where
  queues := h.queues
  server := h.server
  worker := h.worker
  packet := h.packet
  call j o e he := by
    by_cases hj : j = i ∧ o = th
    · obtain ⟨rfl, rfl⟩ := hj
      rw [setCalls_self] at he
      exact hl e he
    · rw [setCalls_of_ne l hj] at he
      exact h.call j o e he

/-- The lists of tasks, and whether the program was aborted, have no part in this. -/
theorem Sound.of_eq (h : Sound s) (hnode : s'.node = s.node) (hworker : s'.worker = s.worker)
    (hnet : s'.net = s.net) (hcalls : s'.calls = s.calls) : Sound s' := by
  cases s'
  cases hnode
  cases hworker
  cases hnet
  cases hcalls
  exact ⟨h.queues, h.server, h.worker, h.packet, h.call⟩

/-! ## Messages -/

theorem Sound.sendDescriptor (h : Sound s) (hv : v < maxNvps) {node : Nat} {desc : TorcT}
    {type : MsgType} (hdesc : desc.rteType ≠ rteDirect) :
    Sound (s.sendDescriptor i (.worker v) node desc type) := by
  apply Sound.setCalls
  · exact h.send ⟨hdesc, rfl, .inl ⟨rfl, hv⟩⟩
  · intro e he
    rcases effect_sendDescriptor he with ⟨a, rfl⟩ | ⟨dst, t, rfl⟩
    · trivial
    · exact ⟨hv, rfl⟩

theorem Sound.directSendDescriptor (h : Sound s) (hv : v < maxNvps) {node : Nat} {desc : TorcT}
    (hdesc : desc.rteType ≠ rteDirect) : Sound (s.directSendDescriptor i node v desc) := by
  have htag := replyTag_eq hv
  apply Sound.setCalls
  · exact h.send ⟨hdesc, rfl, .inr ⟨rfl, v, htag⟩⟩
  · intro e he
    obtain ⟨t, rfl⟩ := effect_directSendDescriptor he
    exact ⟨v, htag⟩

theorem Sound.callStep (h : Sound s) {sender : Thread}
    (hs : callStep torcSize s i th sender = some s') : Sound s' := by
  have hcalls := h.call i th
  unfold Cluster.callStep at hs
  split at hs
  · cases hs
  · rename_i hrest
    cases hs
    rw [hrest, List.forall_mem_cons] at hcalls
    exact h.setCalls hcalls.2
  · rename_i hrest
    cases hs
    rw [hrest, List.forall_mem_cons] at hcalls
    exact h.setCalls hcalls.2
  · rename_i dst tag t rest hrest
    cases hs
    rw [hrest, List.forall_mem_cons] at hcalls
    have hpayload : PacketOk ⟨i, th, dst, tag⟩ (.payload t) := hcalls.1
    exact (h.send hpayload).setCalls hcalls.2
  · rename_i hrest
    rw [hrest, List.forall_mem_cons] at hcalls
    split at hs
    · cases hs
    · rename_i hnet
      split at hs <;> cases hs
      · exact (h.taken hnet).2.setCalls hcalls.2
      · exact h.of_eq rfl rfl rfl rfl

/-! ## Workers -/

theorem Sound.stealNext (h : Sound s) (why : Why) (node : Nat) :
    Sound (stealNext s i v why node) := by
  unfold Cluster.stealNext
  split
  · exact h.setCtl trivial
  · exact (h.setStealing i false).setCtl trivial

theorem Sound.nothingAt (h : Sound s) (why : Why) (pos : Pos) :
    Sound (nothingAt workers s i v why pos) := by
  unfold Cluster.nothingAt
  split
  · exact h.setCtl trivial
  · exact h.setCtl trivial
  · split
    · exact h.stealNext why _
    · exact h.setCtl trivial
  · exact h.stealNext why _

theorem Sound.lookAt (h : Sound s) (hv : v < maxNvps) {why : Why} {pos : Pos}
    (hs : lookAt workers s i v why pos = some s') : Sound s' := by
  unfold Cluster.lookAt at hs
  split at hs
  · split at hs <;> cases hs
    · rename_i hq
      obtain ⟨hwork, hqueues⟩ := (h.queues i).torcIPqDequeue hq
      exact (h.setQueues hqueues).setCtl hwork
    · exact h.nothingAt why _
  · split at hs <;> cases hs
    · rename_i hq
      obtain ⟨hwork, hqueues⟩ := (h.queues i).torcIRqDequeue hq
      exact (h.setQueues hqueues).setCtl hwork
    · exact h.nothingAt why _
  · rename_i node
    split at hs <;> cases hs
    have hrte : 0 ≠ rteDirect := by decide
    have hsend : Sound ((s.lockInternode i true).sendDescriptor i (.worker v) node
        { homenode := i } .directSynchronousStealingRequest) :=
      (h.lockInternode i true).sendDescriptor hv hrte
    exact hsend.setCtl trivial

theorem Sound.insertTask (h : Sound s) (hv : v < maxNvps) {work : Work} (hwork : work.Queueable)
    {roundRobin : Bool} {target : Nat}
    (hs : insertTask workers s i v work roundRobin target = some s') : Sound s' := by
  have hplace : ∀ q, (work.place roundRobin q).Queueable := fun q heq ↦
    hwork ((place_same roundRobin q work.desc).rteType.symm.trans heq)
  unfold Cluster.insertTask at hs
  split at hs
  · cases hs
    exact h.setQueues ((h.queues i).torcToIRqEnd _ hwork)
  · simp only [Option.bind_eq_bind, Option.bind_eq_some_iff] at hs
    obtain ⟨targetNode, _, targetQueue, _, hs⟩ := hs
    split at hs <;> cases hs
    · exact h.sendDescriptor hv (hplace targetQueue)
    · exact h.setQueues ((h.queues i).torcToIRqEnd _ (hplace targetQueue))

theorem Sound.useTask (h : Sound s) {work : Work} (hwork : work.Queueable) (why : Why) :
    Sound (useTask s i v work why) := by
  cases why with
  | loop =>
      have hworker : Worker.Ok ⟨work.setVp v :: (s.worker i v).stack, .body⟩ :=
        ⟨trivial, List.forall_mem_cons.mpr ⟨hwork, (h.worker i v).stack⟩⟩
      exact (h.setWorker hworker).of_eq rfl rfl rfl rfl
  | fetch => exact (h.setQueues ((h.queues i).torcToIPqEnd hwork)).setCtl trivial

theorem Sound.workerStep (h : Sound s) (hv : v < maxNvps)
    (hs : workerStep workers s i v = some s') : Sound s' := by
  have hctl := (h.worker i v).ctl
  unfold Cluster.workerStep at hs
  split at hs
  · rename_i heq
    rw [heq] at hctl
    obtain ⟨s₁, hins, rfl⟩ := Option.map_eq_some_iff.mp hs
    exact (h.insertTask hv hctl hins).setCtl trivial
  · exact h.lookAt hv hs
  · rename_i heq
    rw [heq] at hctl
    cases hs
    exact (h.lockInternode i false).setCtl hctl
  · rename_i why work heq
    rw [heq] at hctl
    cases hs
    exact h.useTask hctl why
  · cases hs
  · cases hs

theorem Sound.receiveReply (h : Sound s) {sender : Thread} {mem : Nat → Int}
    (hs : receiveReply workers s i v sender mem = some s') : Sound s' := by
  unfold Cluster.receiveReply at hs
  split at hs
  · rename_i why node hctl
    split at hs
    · cases hs
    · cases hs
      exact h.of_eq rfl rfl rfl rfl
    · rename_i desc rest hnet
      obtain ⟨hdesc, hrest⟩ := h.taken hnet
      dsimp only at hs
      split at hs <;> cases hs
      · exact (hrest.lockInternode i false).nothingAt why _
      · apply (hrest.setCalls fun e he ↦ ?_).setCtl
        · exact fun heq ↦ hdesc.queueable
            ((receiveStolen_same i v mem desc).rteType.symm.trans heq)
        · rcases effect_receiveStolen he with ⟨a, n, rfl⟩ | ⟨t, rfl⟩
          · trivial
          · exact rfl
  · cases hs

theorem Sound.finishTask (h : Sound s) (hv : v < maxNvps)
    (hs : finishTask s i v = some s') : Sound s' := by
  unfold Cluster.finishTask at hs
  split at hs
  · cases hs
  · rename_i work rest hstack
    have hall := (h.worker i v).stack
    rw [hstack, List.forall_mem_cons] at hall
    have hworker : Worker.Ok { s.worker i v with stack := rest } :=
      ⟨(h.worker i v).ctl, hall.2⟩
    split at hs <;> cases hs
    · exact ((h.sendDescriptor hv hall.1).setWorker hworker).of_eq rfl rfl rfl rfl
    · exact (h.setWorker hworker).of_eq rfl rfl rfl rfl

/-! ## Servers -/

theorem enqueueReceived_all {q : Queues Work} (h : q.All Work.Queueable) (i : Nat) {work : Work}
    (hwork : work.Queueable) : (enqueueReceived q i work).All Work.Queueable := by
  unfold enqueueReceived
  split
  · exact h.torcToIRq _ hwork
  · split
    · split
      · exact h.torcToIPq hwork
      · exact h.torcToIPqEnd hwork
    · split
      · exact h.torcToIRq _ hwork
      · exact h.torcToIRqEnd _ hwork

theorem Sound.handle (h : Sound s) {desc : TorcT} (hrte : desc.rteType ≠ rteDirect)
    (hvpid : desc.sourcevpid < maxNvps) : Sound (handle s i desc) := by
  unfold Cluster.handle
  split
  · dsimp only
    rw [if_neg fun hdirect ↦ hrte hdirect.2]
    have hwork : ∀ w : Work, w.desc = desc → w.Queueable := fun w hw ↦ by rwa [← hw] at hrte
    exact (h.setQueues (enqueueReceived_all (h.queues i) i (hwork _ rfl))).setServer trivial
  · exact h.setServer hvpid
  · exact (h.setStealing i true).setServer trivial
  · exact (h.setStealing i false).setServer trivial
  · exact h.setServer trivial

theorem Sound.serverStep (h : Sound s) (hs : serverStep s i = some s') : Sound s' := by
  have hctl := h.server i
  unfold Cluster.serverStep at hs
  split at hs
  · cases hs
  · rename_i heq
    rw [heq] at hctl
    cases hs
    exact h.handle hctl.1 hctl.2
  · rename_i heq
    rw [heq] at hctl
    split at hs
    · rename_i hq
      cases hs
      obtain ⟨hwork, hqueues⟩ := (h.queues i).torcIRqDequeue hq
      exact (h.setQueues hqueues).setServer ⟨hctl, fun w hw ↦ Option.mem_some.mp hw ▸ hwork⟩
    · split at hs <;> cases hs
      · exact h.setServer hctl
      · exact h.setServer ⟨hctl, fun w hw ↦ absurd hw (Option.not_mem_none w)⟩
  · rename_i request work heq
    rw [heq] at hctl
    cases hs
    have hreply : (replyDesc work).rteType ≠ rteDirect := by
      cases work with
      | none => exact (by decide : 0 ≠ rteDirect)
      | some w => exact hctl.2 w rfl
    exact (h.directSendDescriptor hctl.1 hreply).setServer trivial
  · rename_i heq
    rw [heq] at hctl
    exact absurd hctl id

theorem received_same (i : Nat) (mem : Nat → Int) (d : TorcT) :
    (received i mem d).1.rteType = d.rteType ∧
      (received i mem d).1.sourcevpid = d.sourcevpid := by
  unfold received
  split
  · exact ⟨rfl, rfl⟩
  · unfold receiveEnqueued
    split <;> exact ⟨rfl, rfl⟩
  · exact ⟨rfl, rfl⟩

theorem effect_received {mem : Nat → Int} {d : TorcT} {e : Effect}
    (he : e ∈ (received i mem d).2) :
    (∃ a, e = .free a) ∨ (∃ a n, e = .calloc a n) ∨
      ∃ t, e = .irecv d.sourcenode d.sourcevpid t := by
  unfold received at he
  split at he
  · exact (effect_receiveResults he).imp_right .inr
  · exact .inr (effect_receiveEnqueued he)
  · cases he

theorem Sound.receiveMessage (h : Sound s) {src : Nat} {sender : Thread} {mem : Nat → Int}
    (hs : receiveMessage s i src sender mem = some s') : Sound s' := by
  unfold Cluster.receiveMessage at hs
  split at hs
  · rename_i desc rest hctl hnet
    obtain ⟨hdesc, hrest⟩ := h.taken hnet
    have hvpid : desc.sourcevpid < maxNvps := by
      rcases hdesc.tag with ⟨-, hlt⟩ | ⟨-, u, heq⟩
      · exact hlt
      · exact absurd heq (Nat.ne_of_lt (waitTag_gt u))
    obtain ⟨hrte, hsame⟩ := received_same i mem desc
    split at hs <;> cases hs
    · exact h.of_eq rfl rfl rfl rfl
    · apply (hrest.setCalls fun e he ↦ ?_).setServer
      · exact ⟨fun heq ↦ hdesc.queueable (hrte.symm.trans heq), hsame.trans_lt hvpid⟩
      · rcases effect_received he with ⟨a, rfl⟩ | ⟨a, n, rfl⟩ | ⟨t, rfl⟩
        · trivial
        · trivial
        · exact hvpid
  · cases hs
    exact h.of_eq rfl rfl rfl rfl
  · cases hs

/-! ## Every step -/

theorem createWork_queueable {r : Routine} (hr : Deferred r) {who : Creator} {taskId work : Nat}
    {h : ByteHeap} {cs : List CArg} {w : Work} (hw : createWork r who taskId work h cs = some w) :
    w.Queueable := by
  unfold createWork at hw
  split at hw
  · rename_i c hc
    cases hw
    show c.desc.rteType ≠ rteDirect
    cases r with
    | task =>
        obtain ⟨as, h', -, -, rfl⟩ := createWith_some hc
        show (if who.invisibleFlag then 2 else 1) ≠ rteDirect
        split <;> decide
    | taskEx invisible =>
        obtain ⟨as, h', -, -, rfl⟩ := createWith_some hc
        show (if invisible then 2 else 1) ≠ rteDirect
        split <;> decide
    | taskDetached =>
        obtain ⟨as, h', -, -, rfl⟩ := createWith_some hc
        show 1 ≠ rteDirect
        decide
    | _ => cases hr
  · cases hw

theorem Sound.threadStep (h : Sound s) (hle : ∀ w ∈ workers, w ≤ maxNvps) {a : Act}
    (hs : threadStep torcSize workers s a = some s') : Sound s' := by
  have hid : ∀ {i v}, MayStep workers s i (.worker v) → v < maxNvps :=
    fun hmay ↦ hmay.1.id_lt hle
  cases a with
  | spawn i v r work heap cs roundRobin target =>
      simp only [Cluster.threadStep] at hs
      split at hs
      · rename_i hguard
        obtain ⟨w, hw, rfl⟩ := Option.map_eq_some_iff.mp hs
        have hwork := createWork_queueable hguard.2.2.2.1 hw
        have hcreated : Sound (s.setCtl i v (.created w roundRobin target)) := h.setCtl hwork
        exact hcreated.of_eq rfl rfl rfl rfl
      · cases hs
  | schedule i v | fetch i v =>
      simp only [Cluster.threadStep] at hs
      split at hs <;> cases hs
      exact h.setCtl trivial
  | finish i v =>
      simp only [Cluster.threadStep] at hs
      split at hs
      · rename_i hguard
        exact h.finishTask (hid hguard.1) hs
      · cases hs
  | advance i v =>
      simp only [Cluster.threadStep] at hs
      split at hs
      · rename_i hguard
        exact h.workerStep (hid hguard) hs
      · cases hs
  | reply i v sender mem =>
      simp only [Cluster.threadStep] at hs
      split at hs
      · exact h.receiveReply hs
      · cases hs
  | serve i =>
      simp only [Cluster.threadStep] at hs
      split at hs
      · exact h.serverStep hs
      · cases hs
  | receive i src sender mem =>
      simp only [Cluster.threadStep] at hs
      split at hs
      · exact h.receiveMessage hs
      · cases hs
  | call i th sender =>
      simp only [Cluster.threadStep] at hs
      split at hs
      · exact h.callStep hs
      · cases hs
  | setStealing i on =>
      cases hs
      exact h.setStealing i on

end Torc.Cluster
