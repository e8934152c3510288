import Torc.Messages.Matching
import Torc.Route
import Torc.Lib.Rings

/-!
# Servers that wait for each other

The threads of `Torc.Messages` with sends that complete only when the message is received: a send
and its receive are one step, and until then the sender is blocked.
-/

namespace Torc.ServerRing

open Transition Messages Rings

/-- A thread enters a routine, or thread `w` of node `src` sends and thread `v` of another node `i`
receives. -/
inductive Act
  | enter (a : Messages.Act)
  | meet (src w i v : Nat) (mem : Nat → Int)

def meet (workers : List Nat) (s : State) (src w i v : Nat) (mem : Nat → Int) : Option State :=
  match s.ops src w with
  | .send _ _ _ :: _ =>
      (advance s src w mem).bind fun s₁ ↦
        match s₁.ops i v with
        -- a server in no routine is in the receive of `server_loop`
        | [] => if v = maxNvps then receive workers s₁ i src mem else none
        | .recv _ _ _ _ _ :: _ | .recvReply _ :: _ => advance s₁ i v mem
        | _ => none
  | _ => none

def threadStep (workers : List Nat) (s : State) : Act → Option State
  | .enter (.advance _ _ _) | .enter (.receive _ _ _) => none
  | .enter a => Messages.threadStep workers s a
  | .meet src w i v mem =>
      if IsThread workers src w ∧ IsThread workers i v ∧ src ≠ i then
        meet workers s src w i v mem
      else none

def system (workers : List Nat) : System State Act where
  init s := s = {}
  step a s := if s.broken then none else threadStep workers s a

/-- Only a server receives on these tags: descriptors and what a server sends with its own tag, and
the reply to a request of its own. -/
def ServerTag (tag : Nat) : Prop :=
  tag = maxNvps ∨ tag = replyTag maxNvps

/-- The server of node `i` is in a send that the server of node `j` has to receive. -/
def BlockedOn (s : State) (i j : Nat) : Prop :=
  ∃ tag p rest, s.ops i maxNvps = .send j tag p :: rest ∧ ServerTag tag

/-- No nonempty set of servers each of which waits for another one of the set. -/
def NoServerRing (s : State) : Prop :=
  RingFree (BlockedOn s)

/-! ## What a server still has to send to another -/

def Targets (j : Nat) : Op → Prop
  | .send dst tag _ => dst = j ∧ ServerTag tag
  | .serve request => request.sourcenode = j ∧ ServerTag (replyTag request.sourcevpid)
  | .body desc => desc.homenode = j
  | _ => False

def Owes (s : State) (i j : Nat) : Prop :=
  ∃ op ∈ s.ops i maxNvps, Targets j op

/-- Processing `d` makes the server of node `i` send to the server of node `j`: the answer of a task
that it executes itself, the reply to a server, the broadcast of a reset. -/
def Requires (n i : Nat) (d : TorcT) (j : Nat) : Prop :=
  match d.type with
  | .torcNormalEnqueue => d.homenode ≠ i ∧ d.rteType = rteDirect ∧ d.homenode = j
  | .directSynchronousStealingRequest => d.sourcenode = j ∧ ServerTag (replyTag d.sourcevpid)
  | .resetStatistics => j < n ∧ j ≠ i
  | _ => False

/-- The servers that owe something to each other lead from `j` to `i`. -/
def LeadsTo (s : State) (j i : Nat) : Prop :=
  Relation.ReflTransGen (Owes s) j i

/-- A server never takes on to send to a server that leads back to it: neither with a message that
it receives nor with a routine that it enters from a body. -/
def KeepsClear (workers : List Nat) : Act → State → Prop
  | .enter (.send i v node _ _), s | .enter (.broadcast i v node _ _ _), s
  | .enter (.request i v node), s => v = maxNvps → ¬ LeadsTo s node i
  | .meet src w i v _, s => v = maxNvps → s.ops i v = [] → ∀ uid d rest,
      s.ops src w = .send i maxNvps (.desc uid d) :: rest →
        ∀ j, Requires workers.length i d j → ¬ LeadsTo (s.setOps src w rest) j i
  | _, _ => True

variable {workers : List Nat} {s s' : State} {i j v a b : Nat}

theorem owes_of_blockedOn (h : BlockedOn s i j) : Owes s i j := by
  obtain ⟨tag, p, rest, hops, htag⟩ := h
  refine ⟨.send j tag p, ?_, rfl, htag⟩
  rw [hops]
  exact List.mem_cons_self

/-- What is owed after a thread got new calls: as before, or by the new calls of a server. -/
theorem owes_setOps {l : List Op} (h : Owes (s.setOps i v l) a b) :
    Owes s a b ∨ a = i ∧ v = maxNvps ∧ ∃ op ∈ l, Targets b op := by
  obtain ⟨op, hop, htarget⟩ := h
  by_cases hself : a = i ∧ maxNvps = v
  · obtain ⟨rfl, hv⟩ := hself
    subst hv
    rw [setOps_self] at hop
    exact .inr ⟨rfl, rfl, op, hop, htarget⟩
  · rw [setOps_other s l hself] at hop
    exact .inl ⟨op, hop, htarget⟩

theorem not_targets_payloadRecvs {uid : Nat} {calls : List Effect} {op : Op}
    (hop : op ∈ payloadRecvs uid calls) : ¬ Targets j op := by
  obtain ⟨src, tag, p, -, rfl⟩ := mem_payloadRecvs hop
  exact id

/-! ## The routines -/

theorem targets_payloadSends {uid dst tag : Nat} {calls : List Effect} (h : SendTo dst tag calls)
    {op : Op} (hop : op ∈ payloadSends uid calls) (htarget : Targets b op) :
    b = dst ∧ ServerTag tag := by
  obtain ⟨d, t, p, hp, rfl⟩ := mem_payloadSends hop
  obtain ⟨rfl, rfl⟩ := h d t p hp
  exact ⟨htarget.1.symm, htarget.2⟩

theorem targets_sendDescriptorOps {node uid : Nat} {desc : TorcT} {type : MsgType}
    (h : SendTo node v (sendDescriptor i v node desc type)) {op : Op}
    (hop : op ∈ sendDescriptorOps i v uid node desc type) (htarget : Targets b op) :
    b = node := by
  rcases List.mem_cons.mp hop with rfl | hop
  · exact htarget.1.symm
  · exact (targets_payloadSends h hop htarget).1

theorem targets_torcBroadcastOps {node uid count : Nat} {buffer btype : Int} {op : Op}
    (hop : op ∈ torcBroadcastOps i v uid node buffer count btype) (htarget : Targets b op) :
    b = node := by
  rcases List.mem_append.mp hop with hop | hop
  · refine targets_sendDescriptorOps (fun d t p hp ↦ ?_) hop htarget
    cases hp
  · cases List.mem_singleton.mp hop
    exact htarget.1.symm

theorem targets_stealingRequestOps {node uid : Nat} {op : Op}
    (hop : op ∈ stealingRequestOps i v uid node) (htarget : Targets b op) : b = node := by
  rcases List.mem_append.mp hop with hop | hop
  · refine targets_sendDescriptorOps (fun d t p hp ↦ ?_) hop htarget
    cases hp
  · cases List.mem_singleton.mp hop
    exact absurd htarget id

/-- A steal reply owes no more than the request did. -/
theorem targets_directSendDescriptorOps {uid : Nat} {request desc : TorcT} {op : Op}
    (hop : op ∈ directSendDescriptorOps i uid request desc) (htarget : Targets b op) :
    Targets b (.serve request) := by
  have hsend : SendTo request.sourcenode (replyTag request.sourcevpid)
      (directSendDescriptor i request.sourcenode request.sourcevpid desc) := by
    unfold directSendDescriptor
    dsimp only
    split
    · intro d t p hp
      cases hp
    · exact sendArguments_sendTo _ _ _
  rcases List.mem_cons.mp hop with rfl | hop
  · exact htarget
  · obtain ⟨hb, htag⟩ := targets_payloadSends hsend hop htarget
    exact ⟨hb.symm, htag⟩

theorem targets_processOps {n uid uid' : Nat} {mem : Nat → Int} {d : TorcT} {op : Op}
    (hop : op ∈ processOps n i uid uid' mem d) (htarget : Targets b op) : Requires n i d b := by
  unfold processOps at hop
  split at hop
  · exact absurd htarget (not_targets_payloadRecvs hop)
  · rename_i htype
    rcases List.mem_append.mp hop with hop | hop
    · exact absurd htarget (not_targets_payloadRecvs hop)
    · split at hop
      · rename_i hdirect
        cases List.mem_singleton.mp hop
        simp only [Requires, htype]
        exact ⟨hdirect.1, hdirect.2, (receiveEnqueued_same i mem d).homenode.symm.trans htarget⟩
      · cases hop
  · rename_i htype
    cases List.mem_singleton.mp hop
    simp only [Requires, htype]
    exact htarget
  · rename_i htype
    obtain ⟨node, hnode, rfl⟩ := List.mem_map.mp hop
    obtain ⟨hlt, hne⟩ := List.mem_filter.mp hnode
    simp only [Requires, htype]
    rw [← htarget.1]
    exact ⟨List.mem_range.mp hlt, of_decide_eq_true hne⟩
  · cases List.mem_singleton.mp hop
    exact absurd htarget id
  · cases hop

/-! ## Runs -/

structure Inv (s : State) : Prop where
  ringFree : RingFree (Owes s)
  net : s.broken = false → ∀ c, s.net c = []

theorem ringFree_setOps (h : RingFree (Owes s)) {l : List Op}
    (hl : v = maxNvps → ∀ op ∈ l, ∀ b, Targets b op →
      (∃ op' ∈ s.ops i v, Targets b op') ∨ ¬ LeadsTo s b i) :
    RingFree (Owes (s.setOps i v l)) := by
  -- whatever is new, node `i` owes
  refine h.add i fun a b hab ↦ ?_
  rcases owes_setOps hab with hab | ⟨rfl, rfl, op, hop, htarget⟩
  · exact .inl hab
  · rcases hl rfl op hop b htarget with hold | hclear
    · exact .inl hold
    · exact .inr ⟨rfl, hclear⟩

/-- A routine that owes only to node `node`. -/
theorem Inv.enter (h : Inv s) {node : Nat} {l : List Op}
    (hclear : v = maxNvps → ¬ LeadsTo s node i)
    (hl : ∀ op ∈ l, ∀ b, Targets b op → b = node) : Inv (s.enter i v l (s.ops i v)) := by
  refine ⟨ringFree_setOps h.ringFree fun hv op hop b htarget ↦ ?_, h.net⟩
  rcases List.mem_append.mp hop with hop | hop
  · rw [hl op hop b htarget]
    exact .inr (hclear hv)
  · exact .inl ⟨op, hop, htarget⟩

/-- A server goes on with what it was to do. -/
theorem Inv.continue (h : Inv s) {op : Op} {l rest : List Op} (hops : s.ops i v = op :: rest)
    (hl : ∀ op' ∈ l, ∀ b, Targets b op' → Targets b op) : Inv (s.enter i v l rest) := by
  refine ⟨ringFree_setOps h.ringFree fun _ op' hop b htarget ↦ .inl ?_, h.net⟩
  rw [hops]
  rcases List.mem_append.mp hop with hop | hop
  · exact ⟨op, List.mem_cons_self, hl op' hop b htarget⟩
  · exact ⟨op', .tail _ hop, htarget⟩

theorem Inv.sent (h : Inv s) {op : Op} {rest : List Op} (hops : s.ops i v = op :: rest) :
    RingFree (Owes (s.setOps i v rest)) := by
  refine ringFree_setOps h.ringFree fun _ op' hop b htarget ↦ .inl ?_
  rw [hops]
  exact ⟨op', .tail _ hop, htarget⟩

/-- The message that was sent is the only one. -/
theorem net_one {s₀ : State} (h : ∀ c, s₀.net c = []) {c c' : Chan} {p q : Packet}
    {l : List Packet} (hq : (s₀.setNet c [p]).net c' = q :: l) :
    c' = c ∧ q = p ∧ l = [] ∧
    ∀ c'', Function.update (s₀.setNet c [p]).net c' l c'' = [] := by
  by_cases hc : c' = c
  · subst hc
    rw [setNet_self] at hq
    obtain ⟨rfl, rfl⟩ := List.cons.inj hq
    refine ⟨rfl, rfl, rfl, fun c'' ↦ ?_⟩
    by_cases hc'' : c'' = c'
    · rw [hc'', Function.update_self]
    · rw [Function.update_of_ne hc'', setNet_other s₀ _ hc'', h]
  · rw [setNet_other s₀ _ hc, h] at hq
    cases hq

/-- A receive that is no descriptor of the server. -/
theorem Inv.advance {s₀ : State} {c : Chan} {p : Packet} {mem : Nat → Int}
    (h : RingFree (Owes s₀)) (hnet : ∀ c, s₀.net c = [])
    (hrecv : ∀ dst tag q rest, s₀.ops i v ≠ .send dst tag q :: rest)
    (hs : advance (s₀.setNet c [p]) i v mem = some s') : Inv s' := by
  have hbroken : Inv { s₀.setNet c [p] with broken := true } :=
    ⟨h, fun hb ↦ Bool.noConfusion hb⟩
  unfold Messages.advance at hs
  split at hs
  · rename_i dst tag q rest hops
    exact absurd hops (hrecv dst tag q rest)
  · rename_i src tag uid arg count rest hops
    split at hs
    · cases hs
    · rename_i q l hq
      obtain ⟨-, -, -, hempty⟩ := net_one hnet hq
      split at hs
      · cases hs
        refine ⟨ringFree_setOps h fun _ op hop b htarget ↦ .inl ⟨op, ?_, htarget⟩,
          fun _ ↦ hempty⟩
        rw [show s₀.ops i v = _ from hops]
        exact .tail _ hop
      · cases hs
        exact hbroken
  · rename_i src rest hops
    split at hs
    · cases hs
    · rename_i uid d l hq
      obtain ⟨-, -, -, hempty⟩ := net_one hnet hq
      cases hs
      refine ⟨ringFree_setOps h fun _ op hop b htarget ↦ .inl ?_, fun _ ↦ hempty⟩
      rcases List.mem_append.mp hop with hop | hop
      · exact absurd htarget (not_targets_payloadRecvs hop)
      · refine ⟨op, ?_, htarget⟩
        rw [show s₀.ops i v = _ from hops]
        exact .tail _ hop
    · cases hs
      exact hbroken
  · cases hs

/-- The server of node `i` receives a descriptor. -/
theorem Inv.receive {s₀ : State} {c : Chan} {p : Packet} {src : Nat} {mem : Nat → Int}
    (h : RingFree (Owes s₀)) (hnet : ∀ c, s₀.net c = [])
    (hclear : c = ⟨src, i, maxNvps⟩ → ∀ uid d, p = .desc uid d →
      ∀ j, Requires workers.length i d j → ¬ LeadsTo s₀ j i)
    (hs : receive workers (s₀.setNet c [p]) i src mem = some s') : Inv s' := by
  have hbroken : Inv { s₀.setNet c [p] with broken := true } :=
    ⟨h, fun hb ↦ Bool.noConfusion hb⟩
  unfold Messages.receive at hs
  split at hs
  · rename_i uid d l hops hq
    obtain ⟨hc, hp, -, hempty⟩ := net_one hnet hq
    split at hs
    · cases hs
      exact hbroken
    · cases hs
      refine ⟨ringFree_setOps h fun _ op hop b htarget ↦ .inr ?_, fun _ ↦ hempty⟩
      rw [List.append_nil] at hop
      exact hclear hc.symm uid d hp.symm b (targets_processOps hop htarget)
  · cases hs
    exact hbroken
  · cases hs

theorem Inv.meet (h : Inv s) (hb : s.broken = false) {src w : Nat} {mem : Nat → Int}
    (hne : src ≠ i) (hok : KeepsClear workers (.meet src w i v mem) s)
    (hs : meet workers s src w i v mem = some s') : Inv s' := by
  unfold ServerRing.meet at hs
  split at hs
  · rename_i dst tag p rest hops
    obtain ⟨s₁, hsent, hs⟩ := Option.bind_eq_some_iff.mp hs
    have hnet := h.net hb
    -- between the send and the receive the message is the only one in flight
    have hs₁ : s₁ = (s.setOps src w rest).setNet ⟨src, dst, tag⟩ [p] := by
      simp only [Messages.advance, hops, Option.some.injEq] at hsent
      rw [← hsent, hnet, List.nil_append]
    have hring : RingFree (Owes (s.setOps src w rest)) := h.sent hops
    have hother : (s.setOps src w rest).ops i v = s.ops i v :=
      setOps_other s rest fun hc ↦ hne hc.1.symm
    subst hs₁
    split at hs
    · -- an idle server takes on what the descriptor requires
      rename_i hidle
      split at hs
      · rename_i hv
        refine Inv.receive hring hnet (fun hc uid d hp j hreq ↦ ?_) hs
        cases hc
        exact hok hv (hother.symm.trans hidle) uid d rest (by rw [hops, hp]) j hreq
      · cases hs
    · rename_i hrecv
      exact Inv.advance hring hnet (fun _ _ _ _ hc ↦ by cases hrecv.symm.trans hc) hs
    · rename_i hrecv
      exact Inv.advance hring hnet (fun _ _ _ _ hc ↦ by cases hrecv.symm.trans hc) hs
    · cases hs
  · cases hs

theorem Inv.step (h : Inv s) {a : Act} (hok : KeepsClear workers a s)
    (hs : (system workers).step a s = some s') : Inv s' := by
  simp only [system] at hs
  split at hs
  · cases hs
  · rename_i hbroken
    have hb : s.broken = false := Bool.eq_false_of_not_eq_true hbroken
    cases a with
    | meet src w i v mem =>
        obtain ⟨⟨-, -, hne⟩, hs⟩ := Option.ite_none_right_eq_some.mp hs
        exact h.meet hb hne hok hs
    | enter a =>
        cases a with
        | advance i v mem => cases hs
        | receive i src mem => cases hs
        | send i v node desc type =>
            obtain ⟨⟨-, -, hsend⟩, heq⟩ := Option.ite_none_right_eq_some.mp hs
            cases heq
            exact h.enter hok fun op hop b htarget ↦
              targets_sendDescriptorOps (sendDescriptor_sendTo hsend i v) hop htarget
        | broadcast i v node buffer count btype =>
            obtain ⟨-, heq⟩ := Option.ite_none_right_eq_some.mp hs
            cases heq
            exact h.enter hok fun op hop b htarget ↦ targets_torcBroadcastOps hop htarget
        | request i v node =>
            obtain ⟨-, heq⟩ := Option.ite_none_right_eq_some.mp hs
            cases heq
            exact h.enter hok fun op hop b htarget ↦ targets_stealingRequestOps hop htarget
        | reply i work =>
            obtain ⟨-, hs⟩ := Option.ite_none_right_eq_some.mp hs
            simp only [Messages.reply] at hs
            split at hs
            · rename_i request rest hops
              obtain ⟨-, heq⟩ := Option.ite_none_right_eq_some.mp hs
              cases heq
              exact h.continue hops fun op hop b htarget ↦
                targets_directSendDescriptorOps hop htarget
            · cases hs
        | finish i =>
            obtain ⟨-, hs⟩ := Option.ite_none_right_eq_some.mp hs
            simp only [Messages.finish] at hs
            split at hs
            · rename_i d rest hops
              cases hs
              exact h.continue hops fun op hop b htarget ↦
                (targets_sendDescriptorOps (sendResults_sendTo maxNvps
                  (stampSource i maxNvps d .torcAnswer)) hop htarget).symm
            · cases hs

/-- In every run in which no server takes on to send to a server that leads back to it, the servers
never wait for each other in a ring. -/
theorem noServerRing_of_keepsClear (workers : List Nat) (s : State)
    (h : (system workers).ReachableIf (KeepsClear workers) s) : NoServerRing s := by
  have hinv : Inv s := by
    refine h.invariant Inv (fun s hs ↦ ?_) fun _ _ _ hinv hok hs ↦ hinv.step hok hs
    obtain rfl : s = {} := hs
    exact ⟨ringFree_of_forall fun a b hab ↦ hab.elim fun op hop ↦ List.not_mem_nil hop.1,
      fun _ _ ↦ rfl⟩
  exact hinv.ringFree.mono fun a b hab ↦ owes_of_blockedOn hab

theorem not_leadsTo_of_idle (h : s.ops j maxNvps = []) (hne : j ≠ i) : ¬ LeadsTo s j i := by
  intro hleads
  rcases Relation.ReflTransGen.cases_head hleads with heq | ⟨k, ⟨op, hop, -⟩, -⟩
  · exact hne heq
  · rw [h] at hop
    cases hop

/-- Workers enter routines, and a server takes on an answer only for a server with nothing to do. -/
def keepsClearCheck (a : Act) (s : State) : Bool :=
  match a with
  | .enter (.send _ v _ _ _) | .enter (.broadcast _ v _ _ _ _) | .enter (.request _ v _) =>
      v ≠ maxNvps
  | .enter _ => true
  | .meet src w i _ _ =>
      match s.ops src w with
      | .send _ _ (.desc _ d) :: rest =>
          d.type = .torcAnswer ∨ d.type = .torcNormalEnqueue ∧
            (d.homenode = i ∨ (s.setOps src w rest).ops d.homenode maxNvps = [])
      | _ => true

theorem keepsClear_of_check (a : Act) (s : State) (h : keepsClearCheck a s = true) :
    KeepsClear workers a s := by
  cases a with
  | enter a =>
      cases a with
      | send i v node desc type => exact fun hv ↦ absurd hv (of_decide_eq_true h)
      | broadcast i v node buffer count btype => exact fun hv ↦ absurd hv (of_decide_eq_true h)
      | request i v node => exact fun hv ↦ absurd hv (of_decide_eq_true h)
      | _ => trivial
  | meet src w i v mem =>
      intro hv hidle uid d rest hops j hreq
      simp only [keepsClearCheck, hops, decide_eq_true_eq] at h
      rcases h with htype | ⟨htype, hhome⟩
      · simp only [Requires, htype] at hreq
      · simp only [Requires, htype] at hreq
        obtain ⟨hne, -, rfl⟩ := hreq
        exact not_leadsTo_of_idle (hhome.resolve_left hne) hne

/-- A task without arguments of node `h`, to be executed by the server that receives it. -/
def directTask (h : Nat) : TorcT :=
  { homenode := h, rteType := rteDirect }

theorem noServerRing_of_keepsClear_sample :
    ∃ s, (system [1, 1]).ReachableIf (KeepsClear [1, 1]) s ∧ BlockedOn s 1 0 ∧
      NoServerRing s := by
  let acts : List Act := [.enter (.send 0 0 1 (directTask 0) .torcNormalEnqueue),
    .meet 0 0 1 maxNvps fun _ ↦ 0, .enter (.finish 1)]
  have hend : ((system [1, 1]).runIf keepsClearCheck {} acts).map (fun s ↦ s.ops 1 maxNvps) =
      some [.send 0 maxNvps (.desc 2 (stampSource 1 maxNvps (directTask 0) .torcAnswer))] := by
    decide
  obtain ⟨s, hreach, hops⟩ := System.ReachableIf.eval keepsClear_of_check (.init rfl) hend
  exact ⟨s, hreach, ⟨maxNvps, _, [], hops, .inl rfl⟩,
    noServerRing_of_keepsClear [1, 1] s hreach⟩

/-- Two nodes execute a task of each other directly: both servers are in the send of the answer. -/
theorem not_noServerRing :
    ∃ s, (system [1, 1]).Reachable s ∧ BlockedOn s 0 1 ∧ BlockedOn s 1 0 ∧
    ¬ NoServerRing s := by
  let acts : List Act := [.enter (.send 0 0 1 (directTask 0) .torcNormalEnqueue),
    .enter (.send 1 0 0 (directTask 1) .torcNormalEnqueue), .meet 0 0 1 maxNvps fun _ ↦ 0,
    .meet 1 0 0 maxNvps fun _ ↦ 0, .enter (.finish 0), .enter (.finish 1)]
  have hend : ((system [1, 1]).run {} acts).map (fun s ↦ (s.ops 0 maxNvps, s.ops 1 maxNvps)) =
      some ([.send 1 maxNvps (.desc 4 (stampSource 0 maxNvps (directTask 1) .torcAnswer))],
        [.send 0 maxNvps (.desc 5 (stampSource 1 maxNvps (directTask 0) .torcAnswer))]) := by
    decide
  obtain ⟨s, hreach, hs⟩ := System.Reachable.eval (.init rfl) hend
  obtain ⟨hops₀, hops₁⟩ := Prod.mk.inj hs
  have h01 : BlockedOn s 0 1 := ⟨maxNvps, _, [], hops₀, .inl rfl⟩
  have h10 : BlockedOn s 1 0 := ⟨maxNvps, _, [], hops₁, .inl rfl⟩
  refine ⟨s, hreach, h01, h10, fun hfree ↦ ?_⟩
  refine hfree {0, 1} ⟨⟨0, .inl rfl⟩, ?_⟩
  rintro a (rfl | rfl)
  · exact ⟨1, .inr rfl, h01⟩
  · exact ⟨0, .inl rfl, h10⟩

end Torc.ServerRing
