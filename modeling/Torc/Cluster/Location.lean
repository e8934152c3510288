import Torc.Cluster.Streams

/-!
# Every task is in one place

A step of the cluster creates a task, moves one from a place to another or moves none, as long as no
receive of a payload takes a descriptor: with at most `MAX_NVPS` workers on each node none does.
The places of tasks whose bodies have begun are marked, so that the list of bodies begun is a log of
them.
-/

namespace Torc.Cluster

open Ledger Transition

/-- The places of tasks whose bodies have begun. -/
def Place.begun : Place → Bool
  | .running _ _ | .direct _ | .finished => true
  | _ => false

/-- What one step does to the tasks. -/
inductive Effect (s s' : State) : Prop
  | stays (h : Stays (contents s) (contents s')) (hi : s'.issued = s.issued)
      (hs : s'.started = s.started)
  | moves (t : Nat) (p q : Place) (h : Moves (contents s) (contents s') t p q)
      (hmark : p.begun = q.begun) (hi : s'.issued = s.issued) (hs : s'.started = s.started)
  | starts (t : Nat) (p q : Place) (h : Moves (contents s) (contents s') t p q)
      (hp : p.begun = false) (hq : q.begun = true) (hi : s'.issued = s.issued)
      (hs : s'.started = s.started ++ [t])
  | issues (q : Place) (h : Issues (contents s) (contents s') s.issued q)
      (hq : q.begun = false) (hi : s'.issued = s.issued + 1) (hs : s'.started = s.started)

/-! ## Messages -/

theorem sendDescriptor_worker (s : State) (i : Nat) (th : Thread) (node : Nat) (desc : TorcT)
    (type : MsgType) : (s.sendDescriptor i th node desc type).worker = s.worker := rfl

/-- A descriptor that is no task is sent. -/
theorem sendDescriptor_stays {s : State} {i : Nat} {th : Thread} {node : Nat} {desc : TorcT}
    {type : MsgType} (htype : type ≠ .torcNormalEnqueue) :
    Stays (contents s) (contents (s.sendDescriptor i th node desc type)) := by
  unfold State.sendDescriptor
  rw [contents_setCalls]
  apply send_stays
  simp [carried, stampSource, htype]

/-- The step is not one in which the receive of a payload takes a descriptor. -/
def takesPayload : Act → State → Bool
  | .call i th sender, s =>
      match s.calls i th with
      | .irecv src tag _ :: _ =>
          match s.net ⟨src, sender, i, tag⟩ with
          | .desc _ :: _ => false
          | _ => true
      | _ => true
  | _, _ => true

theorem takesPayload_recv {s : State} {i src tag : Nat} {th sender : Thread} {t : Transfer}
    {rest : List Torc.Effect} {p : Packet} {l : List Packet}
    (hcalls : s.calls i th = .irecv src tag t :: rest)
    (hnet : s.net ⟨src, sender, i, tag⟩ = p :: l) :
    takesPayload (.call i th sender) s ↔ ∃ t', p = .payload t' := by
  simp only [takesPayload, hcalls, hnet]
  cases p with
  | desc d =>
      exact ⟨fun h ↦ absurd h Bool.false_ne_true, fun ⟨_, h⟩ ↦ Packet.noConfusion h⟩
  | payload t => exact ⟨fun _ ↦ ⟨t, rfl⟩, fun _ ↦ rfl⟩

theorem callStep_effect {torcSize : Nat} {s s' : State} {i : Nat} {th sender : Thread}
    (hok : takesPayload (.call i th sender) s)
    (hs : callStep torcSize s i th sender = some s') : Effect s s' := by
  unfold callStep at hs
  split at hs
  · cases hs
  · cases hs
    exact .stays (fun x r ↦ by rw [contents_setCalls]) rfl rfl
  · cases hs
    exact .stays (fun x r ↦ by rw [contents_setCalls]) rfl rfl
  · cases hs
    refine .stays (fun x r ↦ ?_) rfl rfl
    rw [contents_setCalls]
    exact send_stays rfl x r
  · rename_i src tag t rest hcalls
    split at hs
    · cases hs
    · rename_i p l hnet
      obtain ⟨t', rfl⟩ := (takesPayload_recv hcalls hnet).mp hok
      split at hs <;> cases hs
      · refine .stays (fun x r ↦ ?_) rfl rfl
        rw [contents_setCalls]
        exact receive_stays hnet rfl x r
      · refine .stays (fun x r ↦ ?_) rfl rfl
        cases r <;> rfl

/-! ## Workers -/

theorem stealNext_effect {s : State} {i v : Nat} (why : Why) (node : Nat)
    (h : (s.worker i v).ctl.held = []) : Effect s (stealNext s i v why node) := by
  unfold stealNext
  split
  · exact .stays (setCtl_stays h.symm) rfl rfl
  · refine .stays ((setStealing_stays s i false).trans (setCtl_stays ?_)) rfl rfl
    rw [setStealing_worker, h]
    rfl

theorem nothingAt_effect {s : State} {i v : Nat} (workers : List Nat) (why : Why) (pos : Pos)
    (h : (s.worker i v).ctl.held = []) : Effect s (nothingAt workers s i v why pos) := by
  unfold nothingAt
  split
  · exact .stays (setCtl_stays h.symm) rfl rfl
  · exact .stays (setCtl_stays h.symm) rfl rfl
  · split
    · exact stealNext_effect why _ h
    · exact .stays (setCtl_stays h.symm) rfl rfl
  · exact stealNext_effect why _ h

/-- A task taken out of a queue is in the hands of the worker. -/
theorem got_effect {s : State} {i v : Nat} {why : Why} {work : Work} {q : Queues Work} {p : Place}
    (hp : p.begun = false) (h : (s.worker i v).ctl.held = [])
    (ht : Takes (contents s) (contents (s.setQueues i q)) work.taskId p) :
    Effect s ((s.setQueues i q).setCtl i v (.got why work)) := by
  refine .moves work.taskId p (.hand i v) (ht.moves (setCtl_issues ?_ rfl)) hp rfl rfl
  rw [setQueues_worker, h]

theorem lookAt_effect {workers : List Nat} {s s' : State} {i v : Nat} {why : Why} {pos : Pos}
    (h : (s.worker i v).ctl.held = []) (hs : lookAt workers s i v why pos = some s') :
    Effect s s' := by
  unfold lookAt at hs
  split at hs
  · split at hs
    · rename_i hq
      cases hs
      exact got_effect rfl h (torcIPqDequeue_takes hq)
    · cases hs
      exact nothingAt_effect workers why _ h
  · split at hs
    · rename_i hq
      cases hs
      exact got_effect rfl h (torcIRqDequeue_takes hq)
    · cases hs
      exact nothingAt_effect workers why _ h
  · split at hs
    · cases hs
    · cases hs
      -- a stealing request carries no task
      refine .stays (((lockInternode_stays s i true).trans (sendDescriptor_stays (by decide))).trans
        (setCtl_stays ?_)) rfl rfl
      rw [sendDescriptor_worker, lockInternode_worker, h]
      rfl

/-- A created task leaves the worker's hands for the queue or message it was put into. -/
theorem created_effect {s s' : State} {i v : Nat} {work : Work} {q : Place}
    (hq : q.begun = false) (hheld : (s'.worker i v).ctl.held = [work.taskId])
    (h : Issues (contents s) (contents s') work.taskId q) (hi : s'.issued = s.issued)
    (hs : s'.started = s.started) : Effect s (s'.setCtl i v .body) :=
  .moves work.taskId (.hand i v) q (h.moves (setCtl_takes hheld rfl)) hq.symm hi hs

theorem insertTask_effect {workers : List Nat} {s s' : State} {i v : Nat} {work : Work}
    {roundRobin : Bool} {target : Nat}
    (h : (s.worker i v).ctl = .created work roundRobin target)
    (hs : insertTask workers s i v work roundRobin target = some s') :
    Effect s (s'.setCtl i v .body) := by
  have hheld : (s.worker i v).ctl.held = [work.taskId] := by rw [h]; rfl
  have htaskId : ∀ q, (work.place roundRobin q).taskId = work.taskId :=
    fun q ↦ (place_same roundRobin q work.desc).taskId
  unfold insertTask at hs
  split at hs
  · cases hs
    have hissue := setPublic_issues (s := s) (i := i)
      (List.perm_append_singleton work ((s.node i).queues.publicGrq (rqIndex work.desc.level)))
    exact created_effect rfl hheld hissue rfl rfl
  · simp only [Option.bind_eq_bind, Option.bind_eq_some_iff] at hs
    obtain ⟨targetNode, _, targetQueue, _, hs⟩ := hs
    split at hs
    · cases hs
      have hcarried : carried ⟨i, .worker v, targetNode, maxNvps⟩ (.desc (stampSource i v
          (work.place roundRobin targetQueue).desc .torcNormalEnqueue)) = some work.taskId := by
        rw [← htaskId targetQueue]
        rfl
      have hissue : Issues (contents s) (contents (s.sendDescriptor i (.worker v) targetNode
          (work.place roundRobin targetQueue).desc .torcNormalEnqueue)) work.taskId
          (.flight ⟨i, .worker v, targetNode, maxNvps⟩) := by
        unfold State.sendDescriptor
        rw [contents_setCalls]
        exact send_issues hcarried
      exact created_effect rfl hheld hissue rfl rfl
    · cases hs
      have hissue := setPublic_issues (s := s) (i := i)
        (List.perm_append_singleton (work.place roundRobin targetQueue).readArguments
          ((s.node i).queues.publicGrq (rqIndex (work.place roundRobin targetQueue).desc.level)))
      refine created_effect rfl ?_ hissue rfl rfl
      rw [setQueues_worker, hheld, ← htaskId targetQueue]
      rfl

theorem useTask_effect {s : State} {i v : Nat} {work : Work} {why : Why}
    (h : (s.worker i v).ctl = .got why work) : Effect s (useTask s i v work why) := by
  have hheld : (s.worker i v).ctl.held = [work.taskId] := by rw [h]; rfl
  cases why with
  | loop =>
      refine .starts work.taskId (.hand i v) (.running i v) ?_ rfl rfl rfl rfl
      unfold useTask
      rw [contents_begin]
      refine Moves.of_perm ?_ ?_ Place.noConfusion fun r hp hq ↦ contents_setWorker hp hq
      · rw [contents_setWorker_hand, contents, hheld]
        exact List.Perm.refl _
      · rw [contents_setWorker_running]
        exact List.Perm.refl _
  | fetch =>
      have hissue := setPrivate_issues (s := s) (i := i)
        (List.perm_append_singleton work (s.node i).queues.privateGrq)
      exact created_effect rfl hheld hissue rfl rfl

theorem workerStep_effect {workers : List Nat} {s s' : State} {i v : Nat}
    (hs : workerStep workers s i v = some s') : Effect s s' := by
  unfold workerStep at hs
  split at hs
  · rename_i hctl
    obtain ⟨s₁, hins, rfl⟩ := Option.map_eq_some_iff.mp hs
    exact insertTask_effect hctl hins
  · rename_i hctl
    exact lookAt_effect (by rw [hctl]; rfl) hs
  · rename_i why work hctl
    cases hs
    refine .stays ((lockInternode_stays s i false).trans (setCtl_stays ?_)) rfl rfl
    rw [lockInternode_worker, hctl]
    rfl
  · rename_i hctl
    cases hs
    exact useTask_effect hctl
  · cases hs
  · cases hs

/-- A step that leaves the tasks alone, before another one. -/
theorem Effect.after_stays {s s₁ s' : State} (hs : Stays (contents s) (contents s₁))
    (hi : s₁.issued = s.issued) (hst : s₁.started = s.started) (h : Effect s₁ s') :
    Effect s s' := by
  cases h with
  | stays h hi' hs' => exact .stays (hs.trans h) (hi'.trans hi) (hs'.trans hst)
  | moves t p q h hmark hi' hs' =>
      exact .moves t p q (hs.moves h) hmark (hi'.trans hi) (hs'.trans hst)
  | starts t p q h hp hq hi' hs' =>
      exact .starts t p q (hs.moves h) hp hq (hi'.trans hi) (by rw [hs', hst])
  | issues q h hq hi' hs' =>
      refine .issues q (fun x r ↦ ?_) hq (by rw [hi', hi]) (hs'.trans hst)
      rw [h x r, hs x r, hi]

theorem receiveReply_effect {workers : List Nat} {s s' : State} {i v : Nat} {sender : Thread}
    {mem : Nat → Int} (hs : receiveReply workers s i v sender mem = some s') : Effect s s' := by
  unfold receiveReply at hs
  split at hs
  · rename_i why node hctl
    have hheld : (s.worker i v).ctl.held = [] := by rw [hctl]; rfl
    split at hs
    · cases hs
    · cases hs
      refine .stays (fun x r ↦ ?_) rfl rfl
      cases r <;> rfl
    · rename_i desc rest hc
      -- a steal reply is not on the servers' tag
      have htag : waitTag v ≠ maxNvps := Nat.ne_of_gt (waitTag_gt v)
      dsimp only at hs
      split at hs
      · rename_i hno
        cases hs
        refine Effect.after_stays ((receive_stays hc (by simp [carried, htag, hno])).trans
          (lockInternode_stays _ i false)) rfl rfl ?_
        exact nothingAt_effect workers why _ hheld
      · rename_i hno
        cases hs
        have hcarried :
            carried ⟨node, sender, i, waitTag v⟩ (.desc desc) = some desc.taskId := by
          simp [carried, htag, hno]
        have htake : Takes (contents s) (contents ((s.setNet ⟨node, sender, i, waitTag v⟩
            rest).setCalls i (.worker v) (receiveStolen i v mem desc).2)) desc.taskId
            (.flight ⟨node, sender, i, waitTag v⟩) := by
          rw [contents_setCalls]
          exact receive_takes hc hcarried
        -- receiving the arguments of a task leaves it where it is
        have htaskId : (Work.receiveStolen i v mem ⟨desc, hno⟩).taskId = desc.taskId :=
          (receiveStolen_same i v mem desc).taskId
        have hnew : (WorkerCtl.receiving why (Work.receiveStolen i v mem ⟨desc, hno⟩)).held =
            [desc.taskId] := congrArg (fun t ↦ [t]) htaskId
        exact .moves desc.taskId _ _ (htake.moves (setCtl_issues hheld hnew)) rfl rfl rfl
  · cases hs

theorem sendAnswer_stays (s : State) (i : Nat) (th : Thread) (work : Work) :
    Stays (contents s) (contents (sendAnswer s i th work)) :=
  sendDescriptor_stays (by decide)

theorem popTask_effect {s : State} {i v : Nat} {work : Work} {rest : List Work}
    (h : (s.worker i v).stack = work :: rest) : Effect s (popTask s i v work rest) :=
  .moves work.taskId (.running i v) .finished ((setStack_takes h).moves (retire_issues _ _))
    rfl rfl rfl

theorem finishTask_effect {s s' : State} {i v : Nat} (hs : finishTask s i v = some s') :
    Effect s s' := by
  unfold finishTask at hs
  split at hs
  · cases hs
  · rename_i work rest hstack
    split at hs
    · cases hs
      exact Effect.after_stays (sendAnswer_stays s i (.worker v) work) rfl rfl
        (popTask_effect hstack)
    · cases hs
      exact popTask_effect hstack

/-! ## Servers -/

theorem enqueueReceived_issues (s : State) (i : Nat) (work : Work) :
    ∃ q, q.begun = false ∧ Issues (contents s)
      (contents (s.setQueues i (enqueueReceived (s.node i).queues i work))) work.taskId q := by
  have hfront : ∃ q, q.begun = false ∧ Issues (contents s) (contents
      (s.setQueues i ((s.node i).queues.torcToIRq work.desc.level work))) work.taskId q :=
    ⟨.publicQueue i _, rfl, setPublic_issues (List.Perm.refl _)⟩
  unfold enqueueReceived
  split
  · exact hfront
  · split
    · split
      · exact ⟨.privateQueue i, rfl, setPrivate_issues (List.Perm.refl _)⟩
      · exact ⟨.privateQueue i, rfl, setPrivate_issues (List.perm_append_singleton work _)⟩
    · split
      · exact hfront
      · exact ⟨.publicQueue i _, rfl, setPublic_issues (List.perm_append_singleton work _)⟩

/-- The server has no task in its hands and goes on with something else. -/
theorem setServer_effect {s : State} {i : Nat} {ctl : ServerCtl}
    (h : (s.node i).server.held = []) (hrun : (s.node i).server.running = [])
    (hc : ctl.held = []) (hcrun : ctl.running = []) : Effect s (s.setServer i ctl) :=
  .stays (setServer_stays (by rw [h, hc]) (by rw [hrun, hcrun])) rfl rfl

theorem handle_effect {s : State} {i : Nat} {desc : TorcT}
    (h : (s.node i).server = .handling desc) : Effect s (handle s i desc) := by
  have hrun : (s.node i).server.running = [] := by rw [h]; rfl
  have hidle : desc.type ≠ .torcNormalEnqueue → (s.node i).server.held = [] := by
    intro ht
    rw [h]
    exact if_neg ht
  unfold handle
  split
  · rename_i ht
    have hheld : (s.node i).server.held = [desc.taskId] := by
      rw [h]
      exact if_pos ht
    dsimp only
    split
    · -- the server executes the task itself
      refine .starts _ (.server i) (.direct i) ?_ rfl rfl rfl rfl
      rw [contents_begin]
      refine Moves.of_perm ?_ ?_ Place.noConfusion fun r hp hq ↦
        setServer_other (fun he ↦ absurd he hp) fun he ↦ absurd he hq
      · rw [contents_setServer, contents, hheld]
        exact List.Perm.refl _
      · rw [contents_setServer_direct, contents, hrun]
        exact List.Perm.refl _
    · obtain ⟨q, hq, hissue⟩ := enqueueReceived_issues s i ⟨desc, by rw [ht]; decide⟩
      refine .moves _ (.server i) q (hissue.moves (setServer_takes ?_ rfl ?_)) hq.symm rfl rfl
      · rw [setQueues_server, hheld]
        rfl
      · rw [setQueues_server, hrun]
        rfl
  · rename_i ht
    exact setServer_effect (hidle (by rw [ht]; decide)) hrun rfl rfl
  · rename_i ht
    refine Effect.after_stays (setStealing_stays s i true) rfl rfl (setServer_effect ?_ ?_ rfl rfl)
    · rw [setStealing_server]
      exact hidle (by rw [ht]; decide)
    · rw [setStealing_server, hrun]
  · rename_i ht
    refine Effect.after_stays (setStealing_stays s i false) rfl rfl
      (setServer_effect ?_ ?_ rfl rfl)
    · rw [setStealing_server]
      exact hidle (by rw [ht]; decide)
    · rw [setStealing_server, hrun]
  · rename_i hne _ _ _
    exact setServer_effect (hidle fun ht ↦ hne ht) hrun rfl rfl

theorem serverStep_effect {s s' : State} {i : Nat} (hs : serverStep s i = some s') :
    Effect s s' := by
  unfold serverStep at hs
  split at hs
  · cases hs
  · rename_i hctl
    cases hs
    exact handle_effect hctl
  · rename_i request k hctl
    have hheld : (s.node i).server.held = [] := by rw [hctl]; rfl
    have hrun : (s.node i).server.running = [] := by rw [hctl]; rfl
    split at hs
    · rename_i work q hq
      cases hs
      have hissue := setServer_issues (s := s.setQueues i q) (i := i)
        (by rw [setQueues_server, hheld])
        (rfl : (ServerCtl.reply request (some work)).held = [work.taskId])
        (by rw [setQueues_server, hrun]; rfl)
      exact .moves work.taskId _ _ ((torcIRqDequeue_takes hq).moves hissue) rfl rfl rfl
    · split at hs <;> cases hs <;> exact setServer_effect hheld hrun rfl rfl
  · rename_i request work hctl
    have hrun : (s.node i).server.running = [] := by rw [hctl]; rfl
    have htag := replyTag_ne request.sourcevpid
    cases hs
    cases work with
    | none =>
        have hheld : (s.node i).server.held = [] := by rw [hctl]; rfl
        have hstays : Stays (contents s) (contents (s.directSendDescriptor i request.sourcenode
            request.sourcevpid (replyDesc none))) := by
          unfold State.directSendDescriptor
          rw [contents_setCalls]
          exact send_stays (by simp [carried, htag, stampReply, replyDesc, noWorkDesc])
        have hset : Effect (s.directSendDescriptor i request.sourcenode request.sourcevpid
            (replyDesc none)) ((s.directSendDescriptor i request.sourcenode request.sourcevpid
            (replyDesc none)).setServer i .loop) := setServer_effect hheld hrun rfl rfl
        exact hset.after_stays hstays rfl rfl
    | some work =>
        have hheld : (s.node i).server.held = [work.taskId] := by rw [hctl]; rfl
        have hcarried : carried ⟨i, .server, request.sourcenode, replyTag request.sourcevpid⟩
            (.desc (stampReply i work.desc)) = some work.taskId := by
          have htype : (stampReply i work.desc).type ≠ .torcNoWork := work.isTask
          simp only [carried, if_neg htag, if_neg htype]
          rfl
        have hissue : Issues (contents s) (contents (s.directSendDescriptor i request.sourcenode
            request.sourcevpid work.desc)) work.taskId
            (.flight ⟨i, .server, request.sourcenode, replyTag request.sourcevpid⟩) := by
          unfold State.directSendDescriptor
          rw [contents_setCalls]
          exact send_issues hcarried
        exact .moves work.taskId (.server i) _
          (hissue.moves (setServer_takes hheld rfl hrun.symm)) rfl rfl rfl
  · rename_i work hctl
    have hheld : (s.node i).server.held = [] := by rw [hctl]; rfl
    have hrun : (s.node i).server.running = [work.taskId] := by rw [hctl]; rfl
    cases hs
    refine Effect.after_stays (sendAnswer_stays s i .server work) rfl rfl
      (.moves work.taskId (.direct i) .finished ?_ rfl rfl rfl)
    have htake := setServer_takes_direct (s := sendAnswer s i .server work) (i := i) hrun
      (rfl : ServerCtl.loop.running = []) hheld.symm
    exact htake.moves (retire_issues _ _)

theorem received_taskId (i : Nat) (mem : Nat → Int) (desc : TorcT) :
    (received i mem desc).1.taskId = desc.taskId ∧ (received i mem desc).1.type = desc.type := by
  unfold received
  split
  · exact ⟨rfl, rfl⟩
  · exact ⟨(receiveEnqueued_same i mem desc).taskId, receiveEnqueued_type i mem desc⟩
  · exact ⟨rfl, rfl⟩

theorem receiveMessage_effect {s s' : State} {i src : Nat} {sender : Thread} {mem : Nat → Int}
    (hs : receiveMessage s i src sender mem = some s') : Effect s s' := by
  have haborted : Effect s { s with aborted := true } := by
    refine .stays (fun x r ↦ ?_) rfl rfl
    cases r <;> rfl
  unfold receiveMessage at hs
  split at hs
  · rename_i desc rest hctl hc
    have hheld : (s.node i).server.held = [] := by rw [hctl]; rfl
    have hrun : (s.node i).server.running = [] := by rw [hctl]; rfl
    obtain ⟨htaskId, htype⟩ := received_taskId i mem desc
    split at hs <;> cases hs
    · exact haborted
    · have hcalls := contents_setCalls (s.setNet ⟨src, sender, i, maxNvps⟩ rest) i .server
        (received i mem desc).2
      by_cases ht : desc.type = .torcNormalEnqueue
      · have htake := receive_takes hc (t := desc.taskId) (by simp [carried, ht])
        have hnew : (ServerCtl.handling (received i mem desc).1).held = [desc.taskId] := by
          rw [← htaskId]
          exact if_pos (htype.trans ht)
        rw [← hcalls] at htake
        exact .moves desc.taskId _ _ (htake.moves (setServer_issues hheld hnew hrun.symm)) rfl rfl
          rfl
      · have hstays := receive_stays hc (by simp [carried, ht])
        have hnone : (ServerCtl.handling (received i mem desc).1).held = [] :=
          if_neg fun h ↦ ht (htype.symm.trans h)
        rw [← hcalls] at hstays
        have hset : Effect ((s.setNet ⟨src, sender, i, maxNvps⟩ rest).setCalls i .server
            (received i mem desc).2) _ := setServer_effect hheld hrun hnone rfl
        exact hset.after_stays hstays rfl rfl
  · cases hs
    exact haborted
  · cases hs

theorem createWork_taskId {r : Routine} {who : Creator} {taskId work : Nat} {h : ByteHeap}
    {cs : List CArg} {w : Work} (hw : createWork r who taskId work h cs = some w) :
    w.taskId = taskId := by
  unfold createWork at hw
  split at hw
  · rename_i hc
    cases hw
    exact (Routine.create_header hc).1
  · cases hw

theorem isBody_held {s : State} {i v : Nat} (h : IsBody s i v) : (s.worker i v).ctl.held = [] := by
  unfold IsBody at h
  split at h
  · rename_i hctl
    rw [hctl]
    rfl
  · cases h

theorem threadStep_effect {torcSize : Nat} {workers : List Nat} {s s' : State} {a : Act}
    (hok : takesPayload a s) (hs : threadStep torcSize workers s a = some s') : Effect s s' := by
  cases a with
  | spawn i v r work h cs roundRobin target =>
      simp only [threadStep] at hs
      split at hs
      · rename_i hguard
        obtain ⟨w, hw, rfl⟩ := Option.map_eq_some_iff.mp hs
        refine .issues (.hand i v) ?_ rfl rfl rfl
        rw [contents_issued, ← createWork_taskId hw]
        exact setCtl_issues (isBody_held hguard.2.1) rfl
      · cases hs
  | schedule i v =>
      simp only [threadStep] at hs
      split at hs
      · rename_i hguard
        cases hs
        exact .stays (setCtl_stays (isBody_held hguard.2).symm) rfl rfl
      · cases hs
  | fetch i v =>
      simp only [threadStep] at hs
      split at hs
      · rename_i hguard
        cases hs
        exact .stays (setCtl_stays (isBody_held hguard.2.1).symm) rfl rfl
      · cases hs
  | finish i v =>
      simp only [threadStep] at hs
      split at hs
      · exact finishTask_effect hs
      · cases hs
  | advance i v =>
      simp only [threadStep] at hs
      split at hs
      · exact workerStep_effect hs
      · cases hs
  | reply i v sender mem =>
      simp only [threadStep] at hs
      split at hs
      · exact receiveReply_effect hs
      · cases hs
  | serve i =>
      simp only [threadStep] at hs
      split at hs
      · exact serverStep_effect hs
      · cases hs
  | receive i src sender mem =>
      simp only [threadStep] at hs
      split at hs
      · exact receiveMessage_effect hs
      · cases hs
  | call i th sender =>
      simp only [threadStep] at hs
      split at hs
      · exact callStep_effect hok hs
      · cases hs
  | setStealing i on =>
      cases hs
      exact .stays (setStealing_stays s i on) rfl rfl

/-! ## Every run -/

/-- The created tasks are each in one place, and those whose bodies have begun are logged once. -/
def Tracking (s : State) : Prop :=
  Tracked (fun t ↦ t < s.issued) Place.begun s.started (contents s)

theorem Tracking.start : Tracking {} := by
  have hempty : ∀ r, contents {} r = [] := by
    intro r
    cases r <;> rfl
  refine ⟨⟨fun t ht ↦ absurd ht (Nat.not_lt_zero t), fun t _ r ↦ ?_⟩, fun t p ht ↦ ?_,
    fun _ _ ↦ rfl⟩
  · rw [hempty r]
    rfl
  · have hmem := ht.mem
    rw [hempty p] at hmem
    cases hmem

theorem Tracking.step {s s' : State} (h : Tracking s) (he : Effect s s') : Tracking s' := by
  unfold Tracking at h ⊢
  cases he with
  | stays hst hi hs =>
      rw [hi, hs]
      exact Tracked.stays h hst
  | moves t p q hm hmark hi hs =>
      rw [hi, hs]
      exact Tracked.moves h hm hmark
  | starts t p q hm hp hq hi hs =>
      rw [hi, hs]
      exact Tracked.mark h hm hp hq
  | issues q hi hq hn hs =>
      rw [hn, hs]
      exact Tracked.issues h hi (Nat.lt_irrefl _) (fun x ↦ by omega) hq

/-- The tasks are tracked as long as no receive of a payload takes a descriptor. -/
theorem Tracking.reachableIf {torcSize : Nat} {workers : List Nat} {s : State}
    (h : (system torcSize workers).ReachableIf (fun a s ↦ takesPayload a s) s) : Tracking s := by
  refine h.invariant Tracking (fun s hs ↦ ?_) fun s s' a hinv hok hs ↦ ?_
  · obtain rfl : s = {} := hs
    exact .start
  · have hs' : (if s.aborted then none else threadStep torcSize workers s a) = some s' := hs
    split at hs'
    · cases hs'
    · exact hinv.step (threadStep_effect hok hs')

/-- What holds in every state when no node has more than `MAX_NVPS` workers. -/
structure Inv (s : State) : Prop where
  sound : Sound s
  streams : Streams s
  tracking : Tracking s

theorem Inv.takesPayload {s : State} (h : Inv s) (a : Act) : takesPayload a s := by
  cases a with
  | call i th sender =>
      unfold Cluster.takesPayload
      dsimp only
      split
      · rename_i src tag t rest hcalls
        split
        · rename_i d l hnet
          have hp : .desc d ∈ s.net ⟨src, sender, i, tag⟩ := by
            rw [hnet]
            exact List.mem_cons_self
          have htag : ReceiveTag th tag :=
            h.sound.call i th (.irecv src tag t) (by rw [hcalls]; exact List.mem_cons_self)
          -- neither a server nor a worker that receives payloads gets a descriptor
          cases th with
          | server =>
              obtain ⟨t', heq⟩ := h.sound.payload_of_lt hp htag
              cases heq
          | worker v =>
              obtain rfl : tag = waitTag v := htag
              obtain rfl : sender = .server := h.sound.server_of_waitTag hp rfl
              obtain ⟨⟨t', heq⟩, -⟩ := h.streams.takeItem hcalls hnet
              cases heq
        · rfl
      · rfl
  | _ => rfl

theorem Inv.reachable {torcSize : Nat} {workers : List Nat} {s : State}
    (hle : ∀ w ∈ workers, w ≤ maxNvps)
    (h : (system torcSize workers).Reachable s) : Inv s := by
  refine h.invariant Inv (fun s hs ↦ ?_) fun s s' a hinv _ hs ↦ ?_
  · obtain rfl : s = {} := hs
    exact ⟨.init, .init, .start⟩
  · have hs' : (if s.aborted then none else threadStep torcSize workers s a) = some s' := hs
    split at hs'
    · cases hs'
    · exact ⟨hinv.sound.threadStep hle hs', hinv.streams.threadStep hinv.sound hs',
        hinv.tracking.step (threadStep_effect (hinv.takesPayload a) hs')⟩

/-- No task is in a queue, in a message, in a thread's hands or running. -/
def Quiescent (s : State) : Prop :=
  ∀ p, p ≠ .finished → contents s p = []

/-- No task is lost or run twice: each created task is in exactly one place, has begun at most once
and, when nothing is queued, in flight or running, once. -/
structure NoneLost (s : State) : Prop where
  placed : ∀ t < s.issued, ∃ p, ∀ r, (contents s r).count t = if r = p then 1 else 0
  once : ∀ t, s.started.count t ≤ 1
  quiescent : Quiescent s → ∀ t < s.issued, s.started.count t = 1

/-- With at most `MAX_NVPS` workers on each node no task is lost or run twice. -/
theorem no_task_lost_or_repeated (torcSize : Nat) (workers : List Nat)
    (hle : ∀ w ∈ workers, w ≤ maxNvps) (s : State)
    (h : (system torcSize workers).Reachable s) : NoneLost s := by
  have ht := (Inv.reachable hle h).tracking
  refine ⟨ht.located.at_one, ht.count_le_one,
    fun hq t hlt ↦ ht.count_eq_one (fun p hp ↦ ?_) hlt⟩
  apply hq
  rintro rfl
  cases hp

/-- A reference to 1000 numbers. -/
def referenceArg : CArg :=
  { quantity := 1000, dtype := ⟨0, .double⟩, callway := .ref, ptr := 4096 }

/-- A task of node 0 for worker 1, the only one of node 1, up to the payload of its answer. -/
def sampleRun : List Act :=
  [.spawn 0 0 .task 4096 ⟨fun _ ↦ 0, 1⟩ [referenceArg] false 1, .advance 0 0,
    .call 0 (.worker 0) .server, .receive 1 0 (.worker 0) fun _ ↦ 8192,
    .call 1 .server (.worker 0), .call 1 .server (.worker 0), .serve 1, .schedule 1 0] ++
    List.replicate 12 (.advance 1 0) ++ [.finish 1 0, .call 1 (.worker 0) .server]

theorem no_task_lost_or_repeated_sample :
    ∃ s, (system 1000 [1, 1]).Reachable s ∧ s.started = [0] ∧
      (s.net ⟨1, .worker 0, 0, maxNvps⟩).length = 1 ∧
      (s.net ⟨1, .worker 0, 0, 0⟩).length = 1 ∧ NoneLost s := by
  have hend : ((system 1000 [1, 1]).run {} sampleRun).map
      (fun s ↦ (s.started, (s.net ⟨1, .worker 0, 0, maxNvps⟩).length,
        (s.net ⟨1, .worker 0, 0, 0⟩).length)) = some ([0], 1, 1) := by decide +kernel
  obtain ⟨s, hreach, hs⟩ := System.Reachable.eval (.init rfl) hend
  obtain ⟨hstarted, hrest⟩ := Prod.mk.inj hs
  obtain ⟨hanswer, hresult⟩ := Prod.mk.inj hrest
  exact ⟨s, hreach, hstarted, hanswer, hresult,
    no_task_lost_or_repeated 1000 [1, 1] (by decide) s hreach⟩

/-! ## A worker with the id `MAX_NVPS` -/

/-- On node 0 worker 64, in the body of task 0, sends task 1 with a reference to node 1; before the
payload, which has the tag of the descriptors, worker 0 sends task 2 there.  The server of node 1
receives task 1. -/
def overtakenRun : List Act :=
  [.spawn 0 0 .task 4096 ⟨fun _ ↦ 0, 1⟩ [] false 0, .advance 0 0, .schedule 0 64] ++
    List.replicate 12 (.advance 0 64) ++
    [.spawn 0 64 .task 4096 ⟨fun _ ↦ 0, 1⟩ [referenceArg] false 65, .advance 0 64,
      .spawn 0 0 .task 4096 ⟨fun _ ↦ 0, 1⟩ [] false 65, .advance 0 0,
      .receive 1 0 (.worker 64) fun _ ↦ 8192, .call 1 .server (.worker 0)]

/-- The receive of the payload takes task 2. -/
theorem task_lost : ∃ s, (system 1000 [65, 1]).Reachable s ∧ 2 < s.issued ∧
    (∀ p, (contents s p).count 2 = 0) ∧ ¬ NoneLost s := by
  let c : Chan := ⟨0, .worker 0, 1, maxNvps⟩
  let t : Transfer := ⟨0, .addr 8192, 1000, ⟨1, .double⟩⟩
  have hend : ((system 1000 [65, 1]).runIf takesPayload {} overtakenRun).map
      (fun s ↦ (s.issued, s.aborted, s.calls 1 .server, (s.net c).map (carried c))) =
        some (3, false, [.irecv 0 maxNvps t], [some 2]) := by decide +kernel
  obtain ⟨s, hreach, hs⟩ := System.ReachableIf.eval (fun _ _ h ↦ h) (.init rfl) hend
  obtain ⟨hissued, hrest⟩ := Prod.mk.inj hs
  obtain ⟨haborted, hrest⟩ := Prod.mk.inj hrest
  obtain ⟨hcalls, hnet⟩ := Prod.mk.inj hrest
  obtain ⟨p, hnet, hcarried⟩ := List.map_eq_singleton_iff.mp hnet
  have hfits : p.bytes 1000 ≤ transferBytes t := by
    cases p with
    | desc d => show 1000 ≤ 8000; decide
    | payload => cases hcarried
  let s' : State := (s.setNet c []).setCalls 1 .server []
  have hstep : (system 1000 [65, 1]).step (.call 1 .server (.worker 0)) s = some s' := by
    have hthread : IsThread [65, 1] 1 .server := by decide
    simp only [system, haborted, threadStep, if_pos hthread, callStep, hcalls]
    rw [show s.net ⟨0, .worker 0, 1, maxNvps⟩ = [p] from hnet]
    simp only [if_pos hfits]
    rfl
  have htake : Takes (contents s) (contents s') 2 (.flight c) := by
    rw [contents_setCalls]
    exact receive_takes hnet hcarried
  have hothers : Located (fun t ↦ t < s.issued ∧ t ≠ 2) (contents s') :=
    (Tracking.reachableIf hreach).located.retires htake fun _ ↦ Iff.rfl
  have hlost : ∀ p, (contents s' p).count 2 = 0 := hothers.fresh 2 fun h ↦ h.2 rfl
  have hlt : 2 < s.issued := by
    rw [hissued]
    decide
  refine ⟨s', .step (hreach.mono fun _ _ _ ↦ trivial) trivial hstep, hlt, hlost, fun h ↦ ?_⟩
  obtain ⟨p, hp⟩ := h.placed 2 hlt
  have hone := hp p
  rw [hlost p, if_pos rfl] at hone
  exact absurd hone (by decide)

end Torc.Cluster
