import Torc.Messages.Supply

/-!
# What the routines send and receive

One lemma for each routine about the messages it sends and the receives it posts, in terms of what
the receiver of a descriptor expects.
-/

namespace Torc.Messages

/-- The payloads that the server of node `i` receives for a descriptor. -/
def expected (i uid : Nat) (d : TorcT) : List Packet :=
  match d.type with
  | .torcAnswer => payloadsOf uid (postedReceives (receiveResults i d.sourcevpid d).2)
  | .torcNormalEnqueue => payloadsOf uid (postedReceives (receiveEnqueued i (fun _ ↦ 0) d).2)
  | .torcBcast => [.payload uid 0 (bcastCount d)]
  | _ => []

/-- The payloads that thread `v` of node `i` receives for a stolen descriptor. -/
def expectedReply (i v uid : Nat) (d : TorcT) : List Packet :=
  payloadsOf uid (postedReceives (receiveStolen i v (fun _ ↦ 0) d).2)

theorem sendDescriptor_sendTo {node : Nat} {desc : TorcT} {type : MsgType}
    (h : sendable node desc type) (i v : Nat) :
    SendTo node v (sendDescriptor i v node desc type) := by
  have hargs : ∀ desc : TorcT, SendTo node v
      (if desc.homenode = node then [] else sendArguments node v desc) := by
    intro desc d t p hp
    split at hp
    · cases hp
    · exact sendArguments_sendTo node v desc d t p hp
  cases type with
  | torcAnswer =>
      have hnode : node = desc.homenode := of_decide_eq_true h
      rw [hnode]
      exact sendResults_sendTo v (stampSource i v desc .torcAnswer)
  | torcBcast => cases h
  | directSynchronousStealingRequest => cases h
  | _ => exact hargs (stampSource i v desc _)

/-- A control message has no payload. -/
theorem sentPayloads_control {node : Nat} {desc : TorcT} (h : desc.narg = 0) (tag : Nat) :
    sentPayloads (if desc.homenode = node then [] else sendArguments node tag desc) = [] := by
  split
  · rfl
  · rw [sentPayloads_sendArguments, TorcT.liveArgs, h]
    rfl

/-- The payloads sent are those that the receiver expects. -/
theorem sentPayloads_sendDescriptor {node : Nat} {desc : TorcT} {type : MsgType}
    (h : sendable node desc type) (i v uid : Nat) :
    payloadsOf uid (sentPayloads (sendDescriptor i v node desc type)) =
      expected node uid (stampSource i v desc type) := by
  cases type with
  | torcAnswer =>
      have hnode : node = desc.homenode := of_decide_eq_true h
      subst hnode
      rw [answer_schedule]
      rfl
  | torcNormalEnqueue =>
      rw [enqueue_schedule i v node (fun _ ↦ 0)]
      rfl
  | terminateWorkerThreads | disableInternodeStealing | enableInternodeStealing |
    resetStatistics =>
      have hnarg : desc.narg = 0 := of_decide_eq_true h
      exact congrArg (payloadsOf uid)
        (@sentPayloads_control node (stampSource i v desc _) hnarg v)
  | _ => cases h

/-- The calls send descriptor `d` to a node and then, with the tag `v`, what the node expects. -/
structure Announces (i v node uid : Nat) (d : TorcT) (l : List Op) : Prop where
  stamp : d.sourcenode = i ∧ d.sourcevpid = v
  sends : ∀ dst t, sends l dst t =
    (if node = dst ∧ maxNvps = t then [.desc uid d] else []) ++
      if node = dst ∧ v = t then expected node uid d else []
  recvs : ∀ src t, recvs l src t = []
  awaits : ∀ n, awaits l n =
    if node = n ∧ d.type = .directSynchronousStealingRequest then 1 else 0
  serving : ∀ i' v', serving l i' v' = 0
  mem : ∀ op ∈ l, op = .send node maxNvps (.desc uid d) ∨
    (∃ p, op = .send node v p) ∧ expected node uid d ≠ [] ∨
      op = .recvReply node ∧ d.type = .directSynchronousStealingRequest

theorem payloadSends_eq_nil {uid : Nat} {calls : List Effect} (h : sentPayloads calls = []) :
    payloadSends uid calls = [] := by
  induction calls with
  | nil => rfl
  | cons c calls ih =>
      cases c with
      | isend d t p => cases h
      | calloc a n => exact ih h
      | free a => exact ih h
      | irecv s t p => exact ih h

/-- Stealing requests are sent by `direct_synchronous_stealing_request` alone. -/
theorem sendable_type_ne {node : Nat} {desc : TorcT} {type : MsgType}
    (h : sendable node desc type) : type ≠ .directSynchronousStealingRequest := by
  rintro rfl
  cases h

theorem announces_sendDescriptorOps {node : Nat} {desc : TorcT} {type : MsgType}
    (h : sendable node desc type) (i v uid : Nat) :
    Announces i v node uid (stampSource i v desc type)
      (sendDescriptorOps i v uid node desc type) where
  stamp := ⟨rfl, rfl⟩
  sends dst t := by
    rw [sendDescriptorOps, sends_send, sends_payloadSends (sendDescriptor_sendTo h i v),
      sentPayloads_sendDescriptor h]
  recvs src t := by rw [sendDescriptorOps, recvs_send, recvs_payloadSends]
  awaits n := by
    rw [sendDescriptorOps, awaits_send, awaits_payloadSends]
    exact (if_neg fun hc ↦ sendable_type_ne h hc.2).symm
  serving i' v' := by rw [sendDescriptorOps, serving_send, serving_payloadSends]
  mem op hop := by
    rcases List.mem_cons.mp hop with rfl | hop
    · exact .inl rfl
    · refine .inr (.inl ⟨?_, ?_⟩)
      · obtain ⟨d, t, p, hp, rfl⟩ := mem_payloadSends hop
        obtain ⟨rfl, rfl⟩ := sendDescriptor_sendTo h i v d t p hp
        exact ⟨_, rfl⟩
      · -- without expected payloads there is nothing to send
        rw [← sentPayloads_sendDescriptor h]
        intro hnil
        rw [payloadsOf, List.map_eq_nil_iff] at hnil
        rw [payloadSends_eq_nil hnil] at hop
        cases hop

theorem announces_torcBroadcastOps (i v uid node : Nat) (buffer : Int) (count : Nat)
    (btype : Int) :
    Announces i v node uid (stampSource i v (bcastDesc i buffer count btype) .torcBcast)
      (torcBroadcastOps i v uid node buffer count btype) where
  stamp := ⟨rfl, rfl⟩
  sends dst t := by
    show sends (.send node maxNvps _ :: [.send node v (.payload uid 0 count)]) dst t = _
    rw [sends_send, sends_send, sends_nil, List.append_nil]
    rfl
  recvs src t := rfl
  awaits n := (if_neg fun hc ↦ MsgType.noConfusion hc.2).symm
  serving i' v' := rfl
  mem op hop := by
    rcases List.mem_cons.mp hop with rfl | hop
    · exact .inl rfl
    · obtain rfl := List.mem_singleton.mp hop
      exact .inr (.inl ⟨⟨_, rfl⟩, List.cons_ne_nil _ _⟩)

/-- The descriptor of a stealing request. -/
def requestDesc (i v : Nat) : TorcT :=
  stampSource i v { homenode := i, args := [slotArg i] } .directSynchronousStealingRequest

theorem stealingRequestOps_eq (i v uid node : Nat) :
    stealingRequestOps i v uid node =
      [.send node maxNvps (.desc uid (requestDesc i v)), .recvReply node] := rfl

theorem announces_stealingRequestOps (i v uid node : Nat) :
    Announces i v node uid (requestDesc i v) (stealingRequestOps i v uid node) where
  stamp := ⟨rfl, rfl⟩
  sends dst t := by
    rw [stealingRequestOps_eq, sends_send, sends_recvReply, sends_nil]
    show _ = _ ++ if node = dst ∧ v = t then [] else []
    rw [ite_self]
  recvs src t := rfl
  awaits n := by
    rw [stealingRequestOps_eq, awaits_send, awaits_recvReply, awaits_nil, Nat.zero_add]
    by_cases hn : node = n
    · rw [if_pos hn, if_pos ⟨hn, rfl⟩]
    · rw [if_neg hn, if_neg fun hc ↦ hn hc.1]
  serving i' v' := rfl
  mem op hop := by
    rw [stealingRequestOps_eq] at hop
    rcases List.mem_cons.mp hop with rfl | hop
    · exact .inl rfl
    · exact .inr (.inr ⟨List.mem_singleton.mp hop, rfl⟩)

/-! ## Replies -/

theorem directSendDescriptor_sendTo (i node v : Nat) (desc : TorcT) :
    SendTo node (replyTag v) (directSendDescriptor i node v desc) := by
  intro d t p h
  simp only [directSendDescriptor] at h
  split at h
  · cases h
  · exact sendArguments_sendTo node (replyTag v) _ d t p h

theorem sends_directSendDescriptorOps {desc : TorcT}
    (hempty : desc.type = .torcNoWork → desc.narg = 0) (i uid : Nat) (request : TorcT)
    (d t : Nat) :
    sends (directSendDescriptorOps i uid request desc) d t =
      if request.sourcenode = d ∧ replyTag request.sourcevpid = t then
        .desc uid (stampReply i desc) ::
          expectedReply request.sourcenode request.sourcevpid uid (stampReply i desc)
      else [] := by
  rw [directSendDescriptorOps, sends_send, sends_payloadSends
    (directSendDescriptor_sendTo i request.sourcenode request.sourcevpid desc),
    reply_schedule i request.sourcenode request.sourcevpid (fun _ ↦ 0) desc hempty]
  split <;> rfl

theorem recvs_directSendDescriptorOps (i uid : Nat) (request desc : TorcT) (s t : Nat) :
    recvs (directSendDescriptorOps i uid request desc) s t = [] := by
  rw [directSendDescriptorOps, recvs_send, recvs_payloadSends]

theorem serving_directSendDescriptorOps (i uid : Nat) (request desc : TorcT) (i' v' : Nat) :
    serving (directSendDescriptorOps i uid request desc) i' v' = 0 := by
  rw [directSendDescriptorOps, serving_send, serving_payloadSends]

theorem mem_directSendDescriptorOps {i uid : Nat} {request desc : TorcT} {op : Op}
    (h : op ∈ directSendDescriptorOps i uid request desc) :
    ∃ d p, op = .send d (replyTag request.sourcevpid) p := by
  rcases List.mem_cons.mp h with rfl | h
  · exact ⟨_, _, rfl⟩
  · obtain ⟨d, t, p, hp, rfl⟩ := mem_payloadSends h
    obtain ⟨rfl, rfl⟩ :=
      directSendDescriptor_sendTo i request.sourcenode request.sourcevpid desc
      d t p hp
    exact ⟨_, _, rfl⟩

theorem receiveStolen_recvFrom (i v : Nat) (mem : Nat → Int) (d : TorcT) :
    RecvFrom d.sourcenode (waitTag v) (receiveStolen i v mem d).2 := by
  intro s t p h
  simp only [receiveStolen] at h
  split at h
  · cases h
  · split at h
    · exact receiveArguments_recvFrom i (waitTag v) mem d s t p h
    · cases h

/-- The addresses that `calloc` returns do not matter. -/
theorem postedReceives_receiveStolen (i v : Nat) (mem mem' : Nat → Int) (d : TorcT) :
    postedReceives (receiveStolen i v mem d).2 = postedReceives (receiveStolen i v mem' d).2 := by
  simp only [receiveStolen]
  split
  · rfl
  · split
    · rw [postedReceives_receiveArguments, postedReceives_receiveArguments]
    · rfl

theorem recvs_receiveStolen (i v uid : Nat) (mem : Nat → Int) (d : TorcT) (s t : Nat) :
    recvs (payloadRecvs uid (receiveStolen i v mem d).2) s t =
      if d.sourcenode = s ∧ waitTag v = t then expectedReply i v uid d else [] := by
  rw [recvs_payloadRecvs (receiveStolen_recvFrom i v mem d),
    postedReceives_receiveStolen i v mem fun _ ↦ 0]
  rfl

/-! ## The server -/

theorem receiveEnqueued_recvFrom (i : Nat) (mem : Nat → Int) (d : TorcT) :
    RecvFrom d.sourcenode d.sourcevpid (receiveEnqueued i mem d).2 := by
  intro s t p h
  simp only [receiveEnqueued] at h
  split at h
  · cases h
  · exact receiveArguments_recvFrom i d.sourcevpid mem d s t p h

theorem postedReceives_receiveEnqueued (i : Nat) (mem mem' : Nat → Int) (d : TorcT) :
    postedReceives (receiveEnqueued i mem d).2 = postedReceives (receiveEnqueued i mem' d).2 := by
  simp only [receiveEnqueued]
  split
  · rfl
  · rw [postedReceives_receiveArguments, postedReceives_receiveArguments]

theorem resetOps_mem {n i uid : Nat} {op : Op} (h : op ∈ resetOps n i uid) :
    ∃ node, op = .send node maxNvps (.desc uid (stampSource i maxNvps {} .resetStatistics)) := by
  obtain ⟨node, -, rfl⟩ := List.mem_map.mp h
  exact ⟨node, rfl⟩

theorem recvs_resetOps (n i uid s t : Nat) : recvs (resetOps n i uid) s t = [] := by
  apply List.filterMap_eq_nil_iff.mpr
  intro op hop
  obtain ⟨node, rfl⟩ := resetOps_mem hop
  rfl

theorem sends_resetOps {t : Nat} (ht : t ≠ maxNvps) (n i uid d : Nat) :
    sends (resetOps n i uid) d t = [] := by
  apply List.filterMap_eq_nil_iff.mpr
  intro op hop
  obtain ⟨node, rfl⟩ := resetOps_mem hop
  exact if_neg fun h ↦ ht h.2.symm

theorem serving_resetOps (n i uid i' v' : Nat) : serving (resetOps n i uid) i' v' = 0 := by
  apply List.countP_eq_zero.mpr
  intro op hop
  obtain ⟨node, rfl⟩ := resetOps_mem hop
  exact Bool.false_ne_true

section

variable (n i uid uid' : Nat) (mem : Nat → Int) (d : TorcT)

theorem recvs_processOps (s t : Nat) : recvs (processOps n i uid uid' mem d) s t =
    if d.sourcenode = s ∧ d.sourcevpid = t then expected i uid d else [] := by
  unfold processOps expected
  cases d.type with
  | torcAnswer => exact recvs_payloadRecvs (receiveResults_recvFrom i d.sourcevpid d) uid s t
  | torcNormalEnqueue =>
      dsimp only
      have hbody : recvs (if d.homenode ≠ i ∧ d.rteType = rteDirect then
          [.body (receiveEnqueued i mem d).1] else []) s t = [] := by
        split <;> rfl
      rw [recvs_append, hbody, List.append_nil,
        recvs_payloadRecvs (receiveEnqueued_recvFrom i mem d),
        postedReceives_receiveEnqueued i mem fun _ ↦ 0]
  | resetStatistics =>
      rw [ite_self]
      exact recvs_resetOps n i uid' s t
  | torcBcast =>
      dsimp only
      rw [recvs_recv, recvs_nil, List.append_nil]
  | _ => rw [ite_self]; rfl

theorem sends_processOps {t : Nat} (ht : t ≠ maxNvps) (dst : Nat) :
    sends (processOps n i uid uid' mem d) dst t = [] := by
  unfold processOps
  cases d.type with
  | torcAnswer => exact sends_payloadRecvs ..
  | torcNormalEnqueue =>
      dsimp only
      rw [sends_append, sends_payloadRecvs]
      split <;> rfl
  | resetStatistics => exact sends_resetOps ht n i uid' dst
  | _ => rfl

theorem serving_processOps (i' v' : Nat) : serving (processOps n i uid uid' mem d) i' v' =
    if d.type = .directSynchronousStealingRequest ∧ d.sourcenode = i' ∧ d.sourcevpid = v' then 1
    else 0 := by
  have hother : ∀ type : MsgType, type ≠ .directSynchronousStealingRequest →
      (if type = .directSynchronousStealingRequest ∧ d.sourcenode = i' ∧ d.sourcevpid = v'
        then 1 else 0) = 0 :=
    fun type hne ↦ if_neg fun h ↦ hne h.1
  unfold processOps
  cases htype : d.type with
  | directSynchronousStealingRequest =>
      dsimp only
      rw [serving_serve, serving_nil, Nat.zero_add]
      by_cases h : d.sourcenode = i' ∧ d.sourcevpid = v'
      · rw [if_pos h, if_pos ⟨rfl, h⟩]
      · rw [if_neg h, if_neg fun hc ↦ h hc.2]
  | torcAnswer =>
      rw [hother .torcAnswer (by decide)]
      exact serving_payloadRecvs ..
  | torcNormalEnqueue =>
      rw [hother .torcNormalEnqueue (by decide)]
      dsimp only
      rw [serving_append, serving_payloadRecvs]
      split <;> rfl
  | resetStatistics =>
      rw [hother .resetStatistics (by decide)]
      exact serving_resetOps n i uid' i' v'
  | _ => exact (hother _ (by decide)).symm

end

/-- What the server has to do for a descriptor: receives from its sender when it expects payloads,
a reply, a body, or control messages of its own. -/
theorem mem_processOps {n i uid uid' : Nat} {mem : Nat → Int} {d : TorcT} {op : Op}
    (h : op ∈ processOps n i uid uid' mem d) :
    (∃ arg count, op = .recv d.sourcenode d.sourcevpid uid arg count) ∧
    expected i uid d ≠ [] ∨
      op = .serve d ∧ d.type = .directSynchronousStealingRequest ∨
      (∃ t, op = .body t) ∧ d.type = .torcNormalEnqueue ∧ d.rteType = rteDirect ∨
      ∃ node,
        op = .send node maxNvps (.desc uid' (stampSource i maxNvps {} .resetStatistics)) := by
  have hrecv : ∀ {calls : List Effect}, RecvFrom d.sourcenode d.sourcevpid calls →
      op ∈ payloadRecvs uid calls →
      (∃ arg count, op = .recv d.sourcenode d.sourcevpid uid arg count) ∧
        payloadsOf uid (postedReceives calls) ≠ [] := by
    intro calls hfrom hop
    obtain ⟨s, t, p, hp, rfl⟩ := mem_payloadRecvs hop
    obtain ⟨rfl, rfl⟩ := hfrom s t p hp
    refine ⟨⟨_, _, rfl⟩, fun hnil ↦ ?_⟩
    rw [payloadsOf, List.map_eq_nil_iff, postedReceives, List.map_eq_nil_iff,
      List.filterMap_eq_nil_iff] at hnil
    cases hnil _ hp
  unfold processOps at h
  unfold expected
  cases htype : d.type with
  | torcAnswer =>
      rw [htype] at h
      exact .inl (hrecv (receiveResults_recvFrom i d.sourcevpid d) h)
  | torcNormalEnqueue =>
      rw [htype] at h
      rcases List.mem_append.mp h with h | h
      · have hfrom := hrecv (receiveEnqueued_recvFrom i mem d) h
        rw [postedReceives_receiveEnqueued i mem fun _ ↦ 0] at hfrom
        exact .inl hfrom
      · split at h
        · rename_i hdirect
          exact .inr (.inr (.inl ⟨⟨_, List.mem_singleton.mp h⟩, rfl, hdirect.2⟩))
        · cases h
  | directSynchronousStealingRequest =>
      rw [htype] at h
      exact .inr (.inl ⟨List.mem_singleton.mp h, rfl⟩)
  | resetStatistics =>
      rw [htype] at h
      exact .inr (.inr (.inr (resetOps_mem h)))
  | torcBcast =>
      rw [htype] at h
      exact .inl ⟨⟨_, _, List.mem_singleton.mp h⟩, List.cons_ne_nil _ _⟩
  | _ =>
      rw [htype] at h
      cases h

end Torc.Messages
