import Torc.Messages.Routines
import Torc.Lib.Update

/-!
# Every message reaches its receive

For each thread and each node, the payloads on their way from the one to the other are those that
the server of the other expects, in the same order; and a steal reply is on its way, or still to be
made, exactly when the thread waits for it.
-/

namespace Torc.Messages

open Transition

variable {workers : List Nat} {s s' : State}

/-! ## Parts of a state -/

theorem setOps_self (s : State) (i v : Nat) (l : List Op) : (s.setOps i v l).ops i v = l := by
  exact Update.update_update_self s.ops i v l

theorem setOps_other (s : State) {i v i' v' : Nat} (l : List Op) (h : ¬ (i' = i ∧ v' = v)) :
    (s.setOps i v l).ops i' v' = s.ops i' v' := by
  exact Update.update_update_of_ne s.ops l h

theorem setNet_self (s : State) (c : Chan) (l : List Packet) : (s.setNet c l).net c = l :=
  Function.update_self ..

theorem setNet_other (s : State) {c c' : Chan} (l : List Packet) (h : c' ≠ c) :
    (s.setNet c l).net c' = s.net c' :=
  Function.update_of_ne h ..

theorem chan_ne {a b t a' b' t' : Nat} (h : ¬ (a' = a ∧ b' = b ∧ t' = t)) :
    (⟨a', b', t'⟩ : Chan) ≠ ⟨a, b, t⟩ := by
  intro heq
  exact h ⟨congrArg Chan.src heq, congrArg Chan.dst heq, congrArg Chan.tag heq⟩

/-- What thread `v` of node `src` has on its way to node `dst`, with this tag; the messages of
other threads on the channel are included. -/
def supply (s : State) (src v dst tag : Nat) : List Packet :=
  s.net ⟨src, dst, tag⟩ ++ sends (s.ops src v) dst tag

/-! ## The invariant -/

/-- A descriptor sent by node `src` to node `dst`. -/
structure DescOk (src dst uid : Nat) (d : TorcT) : Prop where
  source : d.sourcenode = src
  vpid_le : d.sourcevpid ≤ maxNvps
  server : d.sourcevpid = maxNvps →
    expected dst uid d = [] ∧ d.type ≠ .directSynchronousStealingRequest

/-- The calls of thread `v` of node `i`: descriptors to servers, payloads on its own tag, and for a
server replies; receives on the tags of workers, and for a worker on its reply tag. -/
def OpOk (i v : Nat) : Op → Prop
  | .send d t p =>
      (t = maxNvps ∧ ∃ uid desc, p = .desc uid desc ∧ desc.sourcevpid = v ∧
        DescOk i d uid desc) ∨
        (v < maxNvps ∧ t = v) ∨ (v = maxNvps ∧ maxNvps < t)
  | .recv _ t _ _ _ => (v = maxNvps ∧ t < maxNvps) ∨ (v < maxNvps ∧ t = waitTag v)
  | .recvReply _ => v < maxNvps
  | .serve r => v = maxNvps ∧ r.sourcevpid < maxNvps
  | .body _ => v = maxNvps

/-- A worker waits for a reply as the last of its calls, after nothing but the request. -/
def Requesting (l : List Op) : Prop :=
  (∀ node, awaits l node = 0) ∨ (∃ node, l = [.recvReply node]) ∨
    ∃ node t p, l = [.send node t p, .recvReply node]

/-- What node `dst` expects of thread `v` for a message. -/
def expectedFrom (dst v : Nat) : Packet → List Packet
  | .desc uid d => if d.sourcevpid = v then expected dst uid d else []
  | .payload _ _ _ => []

def Flow (s : State) (src dst v : Nat) : Prop :=
  supply s src v dst v = recvs (s.ops dst maxNvps) src v ++
    (supply s src v dst maxNvps).flatMap (expectedFrom dst v)

def isRequest (v : Nat) : Packet → Bool
  | .desc _ d => d.type == .directSynchronousStealingRequest && d.sourcevpid == v
  | .payload _ _ _ => false

/-- The stealing requests of thread `v` of node `i` that `victim` has not answered. -/
def owed (s : State) (i v victim : Nat) : Nat :=
  (supply s i v victim maxNvps).countP (isRequest v) + serving (s.ops victim maxNvps) i v

/-- The thread waits for as many replies as are owed, or its reply is on its way. -/
def Exchange (s : State) (i v victim : Nat) : Prop :=
  (awaits (s.ops i v) victim = owed s i v victim ∧
      supply s victim maxNvps i (waitTag v) = recvs (s.ops i v) victim (waitTag v)) ∨
    (awaits (s.ops i v) victim = 1 ∧ owed s i v victim = 0 ∧
      ∃ uid d, d.sourcenode = victim ∧
      supply s victim maxNvps i (waitTag v) = .desc uid d :: expectedReply i v uid d)

structure Inv (s : State) : Prop where
  op : ∀ i v, ∀ op ∈ s.ops i v, OpOk i v op
  packet : ∀ src dst, ∀ p ∈ s.net ⟨src, dst, maxNvps⟩, ∃ uid d, p = .desc uid d ∧
    DescOk src dst uid d
  worker : ∀ i v, v < maxNvps → Requesting (s.ops i v)
  flow : ∀ src dst v, v < maxNvps → Flow s src dst v
  exchange : ∀ i v victim, v < maxNvps → Exchange s i v victim

theorem Requesting.of_head {op : Op} {l : List Op} (h : Requesting (op :: l))
    (hsend : ∀ d t p, op ≠ .send d t p) (hreply : ∀ src, op ≠ .recvReply src) :
    ∀ node, awaits (op :: l) node = 0 := by
  rcases h with h | ⟨node, heq⟩ | ⟨node, t, p, heq⟩
  · exact h
  · exact absurd (List.cons.inj heq).1 (hreply node)
  · exact absurd (List.cons.inj heq).1 (hsend node t p)

theorem Requesting.tail {op : Op} {l : List Op} (h : Requesting (op :: l)) : Requesting l := by
  rcases h with h | ⟨node, heq⟩ | ⟨node, t, p, heq⟩
  · refine .inl fun node ↦ Nat.eq_zero_of_le_zero ?_
    rw [← h node]
    exact (List.sublist_cons_self op l).countP_le
  · rw [(List.cons.inj heq).2]
    exact .inl fun _ ↦ rfl
  · rw [(List.cons.inj heq).2]
    exact .inr (.inl ⟨node, rfl⟩)

/-- A thread that waits has nothing else to receive. -/
theorem Requesting.waiting {l : List Op} (h : Requesting l) {node : Nat}
    (hw : 0 < awaits l node) : awaits l node = 1 ∧ ∀ src tag, recvs l src tag = [] := by
  rcases h with h | ⟨node', rfl⟩ | ⟨node', t, p, rfl⟩
  · rw [h node] at hw
    exact absurd hw (Nat.lt_irrefl 0)
  · refine ⟨?_, fun _ _ ↦ rfl⟩
    rw [awaits_recvReply, awaits_nil] at hw ⊢
    by_cases hn : node' = node
    · rw [if_pos hn]
    · rw [if_neg hn] at hw
      omega
  · refine ⟨?_, fun _ _ ↦ rfl⟩
    rw [awaits_send, awaits_recvReply, awaits_nil] at hw ⊢
    by_cases hn : node' = node
    · rw [if_pos hn]
    · rw [if_neg hn] at hw
      omega

/-! ## Sending -/

section

variable {i w d t : Nat} {p : Packet} {rest : List Op}

/-- The state after the first call of thread `w` of node `i`, a send. -/
def State.sent (s : State) (i w d t : Nat) (p : Packet) (rest : List Op) : State :=
  (s.setOps i w rest).setNet ⟨i, d, t⟩ (s.net ⟨i, d, t⟩ ++ [p])

theorem sent_ops_self : (s.sent i w d t p rest).ops i w = rest :=
  setOps_self s i w rest

theorem sent_ops_other {i' v' : Nat} (h : ¬ (i' = i ∧ v' = w)) :
    (s.sent i w d t p rest).ops i' v' = s.ops i' v' :=
  setOps_other s rest h

theorem sent_net_self : (s.sent i w d t p rest).net ⟨i, d, t⟩ = s.net ⟨i, d, t⟩ ++ [p] :=
  setNet_self ..

theorem sent_net_other {a b t' : Nat} (h : ¬ (a = i ∧ b = d ∧ t' = t)) :
    (s.sent i w d t p rest).net ⟨a, b, t'⟩ = s.net ⟨a, b, t'⟩ :=
  setNet_other _ _ (chan_ne h)

/-- The sender's own supply is as before. -/
theorem sent_supply_self (hops : s.ops i w = .send d t p :: rest) (b t' : Nat) :
    supply (s.sent i w d t p rest) i w b t' = supply s i w b t' := by
  rw [supply, supply, sent_ops_self, hops, sends_send]
  by_cases h : d = b ∧ t = t'
  · obtain ⟨rfl, rfl⟩ := h
    rw [sent_net_self, if_pos ⟨rfl, rfl⟩, List.append_assoc]
  · rw [sent_net_other fun hc ↦ h ⟨hc.2.1.symm, hc.2.2.symm⟩, if_neg h, List.nil_append]

/-- Another thread's supply is as before, but on the channel of the message. -/
theorem sent_supply_other {a u b t' : Nat} (hthread : ¬ (a = i ∧ u = w))
    (hchan : ¬ (a = i ∧ b = d ∧ t' = t)) :
    supply (s.sent i w d t p rest) a u b t' = supply s a u b t' := by
  rw [supply, supply, sent_ops_other hthread, sent_net_other hchan]

theorem sent_supply_channel {u : Nat} (hthread : u ≠ w) :
    supply (s.sent i w d t p rest) i u d t =
      s.net ⟨i, d, t⟩ ++ [p] ++ sends (s.ops i u) d t := by
  rw [supply, sent_net_self, sent_ops_other fun h ↦ hthread h.2]

/-- A measure of the messages that the new one has no part in is as before. -/
theorem sent_supply_measure {α : Type*} (hops : s.ops i w = .send d t p :: rest)
    (f : List Packet → α) {a u b t' : Nat}
    (hp : a = i → b = d → t' = t → u ≠ w →
      ∀ xs ys, f (xs ++ [p] ++ ys) = f (xs ++ ys)) :
    f (supply (s.sent i w d t p rest) a u b t') = f (supply s a u b t') := by
  by_cases hthread : a = i ∧ u = w
  · obtain ⟨rfl, rfl⟩ := hthread
    rw [sent_supply_self hops]
  · by_cases hchan : a = i ∧ b = d ∧ t' = t
    · obtain ⟨rfl, rfl, rfl⟩ := hchan
      have hne : u ≠ w := fun h ↦ hthread ⟨rfl, h⟩
      rw [sent_supply_channel hne, supply]
      exact hp rfl rfl rfl hne _ _
    · rw [sent_supply_other hthread hchan]

theorem sent_flatMap (hops : s.ops i w = .send d t p :: rest) {f : Packet → List Packet}
    {a u b t' : Nat} (hp : a = i → b = d → t' = t → u ≠ w → f p = []) :
    (supply (s.sent i w d t p rest) a u b t').flatMap f = (supply s a u b t').flatMap f := by
  apply sent_supply_measure hops fun l ↦ l.flatMap f
  intro ha hb ht hne xs ys
  simp only [List.flatMap_append, List.flatMap_singleton, hp ha hb ht hne, List.append_nil]

theorem sent_countP (hops : s.ops i w = .send d t p :: rest) {f : Packet → Bool}
    {a u b t' : Nat} (hp : a = i → b = d → t' = t → u ≠ w → f p = false) :
    (supply (s.sent i w d t p rest) a u b t').countP f = (supply s a u b t').countP f := by
  apply sent_supply_measure hops fun l ↦ l.countP f
  intro ha hb ht hne xs ys
  simp only [List.countP_append, List.countP_singleton, hp ha hb ht hne, Bool.false_eq_true,
    ↓reduceIte, Nat.add_zero]

/-- The calls of a thread after it sent are the same but for the send. -/
theorem sent_ops_measure {α : Type*} (hops : s.ops i w = .send d t p :: rest) (f : List Op → α)
    (hf : f (.send d t p :: rest) = f rest) (i' v' : Nat) :
    f ((s.sent i w d t p rest).ops i' v') = f (s.ops i' v') := by
  by_cases h : i' = i ∧ v' = w
  · obtain ⟨rfl, rfl⟩ := h
    rw [sent_ops_self, hops, hf]
  · rw [sent_ops_other h]

theorem Inv.sent (h : Inv s) (hops : s.ops i w = .send d t p :: rest) :
    Inv (s.sent i w d t p rest) := by
  have hok := h.op i w (.send d t p) (by rw [hops]; exact List.mem_cons_self)
  -- a message on another thread's own tag is none of `w`, and a descriptor names its sender
  have htag : ∀ v, v < maxNvps → t = v → v = w := by
    intro v hv htv
    rcases hok with ⟨ht, -⟩ | ⟨-, ht⟩ | ⟨-, ht⟩ <;> omega
  have hdesc : ∀ v, t = maxNvps → v ≠ w → ∃ uid desc, p = .desc uid desc ∧
      desc.sourcevpid ≠ v := by
    intro v ht hne
    rcases hok with ⟨-, uid, desc, rfl, hv, -⟩ | ⟨hlt, ht'⟩ | ⟨-, ht'⟩
    · exact ⟨uid, desc, rfl, fun hc ↦ hne (hc.symm.trans hv)⟩
    · omega
    · omega
  constructor
  · intro i' v' op hop
    by_cases hthread : i' = i ∧ v' = w
    · obtain ⟨rfl, rfl⟩ := hthread
      rw [sent_ops_self] at hop
      exact h.op i' v' op (by rw [hops]; exact List.mem_cons_of_mem _ hop)
    · rw [sent_ops_other hthread] at hop
      exact h.op i' v' op hop
  · intro src dst q hq
    by_cases hchan : src = i ∧ dst = d ∧ maxNvps = t
    · obtain ⟨rfl, rfl, rfl⟩ := hchan
      rw [sent_net_self] at hq
      rcases List.mem_append.mp hq with hq | hq
      · exact h.packet src dst q hq
      · rw [List.mem_singleton.mp hq]
        rcases hok with ⟨-, uid, desc, hp, -, hd⟩ | ⟨hlt, ht⟩ | ⟨-, ht⟩
        · exact ⟨uid, desc, hp, hd⟩
        · omega
        · omega
    · rw [sent_net_other hchan] at hq
      exact h.packet src dst q hq
  · intro i' v' hv'
    by_cases hthread : i' = i ∧ v' = w
    · obtain ⟨rfl, rfl⟩ := hthread
      rw [sent_ops_self]
      have hreq := h.worker i' v' hv'
      rw [hops] at hreq
      exact hreq.tail
    · rw [sent_ops_other hthread]
      exact h.worker i' v' hv'
  · intro src dst v hv
    have hsupply : supply (s.sent i w d t p rest) src v dst v = supply s src v dst v := by
      by_cases hthread : src = i ∧ v = w
      · obtain ⟨rfl, rfl⟩ := hthread
        exact sent_supply_self hops dst v
      · exact sent_supply_other hthread fun hc ↦ hthread ⟨hc.1, htag v hv hc.2.2.symm⟩
    rw [Flow, hsupply, sent_ops_measure hops (fun l ↦ recvs l src v) rfl, sent_flatMap hops]
    · exact h.flow src dst v hv
    · intro _ _ ht hne
      obtain ⟨uid, desc, rfl, hv'⟩ := hdesc v ht.symm hne
      exact if_neg hv'
  · intro a v victim hv
    have hsupply : supply (s.sent i w d t p rest) victim maxNvps a (waitTag v) =
        supply s victim maxNvps a (waitTag v) := by
      by_cases hthread : victim = i ∧ maxNvps = w
      · obtain ⟨rfl, rfl⟩ := hthread
        exact sent_supply_self hops a (waitTag v)
      · refine sent_supply_other hthread fun hc ↦ ?_
        have hgt := waitTag_gt v
        rcases hok with ⟨ht, -⟩ | ⟨hlt, ht⟩ | ⟨hw, -⟩
        · omega
        · omega
        · exact hthread ⟨hc.1, hw.symm⟩
    have howed : owed (s.sent i w d t p rest) a v victim = owed s a v victim := by
      rw [owed, owed, sent_ops_measure hops (fun l ↦ serving l a v) rfl, sent_countP hops]
      intro _ _ ht hne
      obtain ⟨uid, desc, rfl, hv'⟩ := hdesc v ht.symm hne
      simp only [isRequest, Bool.and_eq_false_iff, beq_eq_false_iff_ne]
      exact .inr hv'
    rw [Exchange, hsupply, howed, sent_ops_measure hops (fun l ↦ awaits l victim) rfl,
      sent_ops_measure hops (fun l ↦ recvs l victim (waitTag v)) rfl]
    exact h.exchange a v victim hv

end

/-! ## Receiving -/

section

variable {i w src t : Nat} {p : Packet} {l : List Packet} {new : List Op}

/-- Thread `w` of node `i` has received from node `src` and goes on with the calls `new`. -/
def State.took (s : State) (i w src t : Nat) (l : List Packet) (new : List Op) : State :=
  (s.setOps i w new).setNet ⟨src, i, t⟩ l

theorem took_ops_self : (s.took i w src t l new).ops i w = new :=
  setOps_self s i w new

theorem took_ops_other {i' v' : Nat} (h : ¬ (i' = i ∧ v' = w)) :
    (s.took i w src t l new).ops i' v' = s.ops i' v' :=
  setOps_other s new h

theorem took_net_other {a b t' : Nat} (h : ¬ (a = src ∧ b = i ∧ t' = t)) :
    (s.took i w src t l new).net ⟨a, b, t'⟩ = s.net ⟨a, b, t'⟩ :=
  setNet_other _ _ (chan_ne h)

theorem took_measure {α : Type*} (f : List Op → α) (hf : f new = f (s.ops i w)) (i' v' : Nat) :
    f ((s.took i w src t l new).ops i' v') = f (s.ops i' v') := by
  by_cases h : i' = i ∧ v' = w
  · obtain ⟨rfl, rfl⟩ := h
    rw [took_ops_self, hf]
  · rw [took_ops_other h]

theorem took_supply {a u b t' : Nat}
    (hsends : sends ((s.took i w src t l new).ops a u) b t' = sends (s.ops a u) b t')
    (h : ¬ (a = src ∧ b = i ∧ t' = t)) :
    supply (s.took i w src t l new) a u b t' = supply s a u b t' := by
  rw [supply, supply, hsends, took_net_other h]

theorem took_supply_channel (hnet : s.net ⟨src, i, t⟩ = p :: l) {u : Nat}
    (hsends : sends ((s.took i w src t l new).ops src u) i t = sends (s.ops src u) i t) :
    supply s src u i t = p :: supply (s.took i w src t l new) src u i t := by
  rw [supply, supply, hsends, hnet, State.took, setNet_self]
  rfl

theorem took_op (h : Inv s) (hnew : ∀ op ∈ new, OpOk i w op) :
    ∀ i' v', ∀ op ∈ (s.took i w src t l new).ops i' v', OpOk i' v' op := by
  intro i' v' op hop
  by_cases hthread : i' = i ∧ v' = w
  · obtain ⟨rfl, rfl⟩ := hthread
    rw [took_ops_self] at hop
    exact hnew op hop
  · rw [took_ops_other hthread] at hop
    exact h.op i' v' op hop

theorem took_packet (h : Inv s) (hnet : s.net ⟨src, i, t⟩ = p :: l) :
    ∀ a b, ∀ q ∈ (s.took i w src t l new).net ⟨a, b, maxNvps⟩,
      ∃ uid d, q = .desc uid d ∧ DescOk a b uid d := by
  intro a b q hq
  by_cases hchan : a = src ∧ b = i ∧ maxNvps = t
  · obtain ⟨rfl, rfl, rfl⟩ := hchan
    rw [State.took, setNet_self] at hq
    exact h.packet a b q (by rw [hnet]; exact List.mem_cons_of_mem _ hq)
  · rw [took_net_other hchan] at hq
    exact h.packet a b q hq

theorem took_worker (h : Inv s) (hnew : w < maxNvps → Requesting new) :
    ∀ i' v', v' < maxNvps → Requesting ((s.took i w src t l new).ops i' v') := by
  intro i' v' hv'
  by_cases hthread : i' = i ∧ v' = w
  · obtain ⟨rfl, rfl⟩ := hthread
    rw [took_ops_self]
    exact hnew hv'
  · rw [took_ops_other hthread]
    exact h.worker i' v' hv'

/-- A payload reaches the receive it is meant for. -/
theorem Inv.payload_matches (h : Inv s) {uid arg count : Nat}
    (hops : s.ops i w = .recv src t uid arg count :: new)
    (hnet : s.net ⟨src, i, t⟩ = p :: l) : p = .payload uid arg count := by
  rcases h.op i w _ (by rw [hops]; exact List.mem_cons_self) with ⟨rfl, ht⟩ | ⟨hw, rfl⟩
  · have hflow := h.flow src i t ht
    rw [Flow, supply, hnet, hops, recvs_recv, if_pos ⟨rfl, rfl⟩] at hflow
    exact (List.cons.inj hflow).1
  · have hzero : awaits (s.ops i w) src = 0 := by
      have hreq := h.worker i w hw
      rw [hops] at hreq ⊢
      exact hreq.of_head (fun _ _ _ ↦ Op.noConfusion) (fun _ ↦ Op.noConfusion) src
    rcases h.exchange i w src hw with ⟨-, hsupply⟩ | ⟨hone, -⟩
    · rw [supply, hnet, hops, recvs_recv, if_pos ⟨rfl, rfl⟩] at hsupply
      exact (List.cons.inj hsupply).1
    · omega

theorem Inv.recv (h : Inv s) {uid arg count : Nat}
    (hops : s.ops i w = .recv src t uid arg count :: new)
    (hnet : s.net ⟨src, i, t⟩ = p :: l) : Inv (s.took i w src t l new) := by
  have hp := h.payload_matches hops hnet
  have hmem : ∀ op ∈ new, op ∈ s.ops i w := by
    intro op hop
    rw [hops]
    exact List.mem_cons_of_mem _ hop
  have hok := h.op i w (.recv src t uid arg count) (by rw [hops]; exact List.mem_cons_self)
  have hsends : ∀ a u b t', sends ((s.took i w src t l new).ops a u) b t' =
      sends (s.ops a u) b t' := fun a u b t' ↦
    took_measure (fun l ↦ sends l b t') (by rw [hops]; rfl) a u
  have hrecvs : ∀ a u b t', ¬ (a = i ∧ b = src ∧ t' = t) →
      recvs ((s.took i w src t l new).ops a u) b t' = recvs (s.ops a u) b t' := by
    intro a u b t' hc
    by_cases hthread : a = i ∧ u = w
    · obtain ⟨rfl, rfl⟩ := hthread
      rw [took_ops_self, hops, recvs_recv, if_neg fun hr ↦ hc ⟨rfl, hr.1.symm, hr.2.symm⟩,
        List.nil_append]
    · rw [took_ops_other hthread]
  -- the tags of descriptors are not received on
  have ht : t ≠ maxNvps := by
    rcases hok with ⟨-, ht⟩ | ⟨-, rfl⟩
    · omega
    · exact Nat.ne_of_gt (waitTag_gt w)
  have hdescs : ∀ a u b, supply (s.took i w src t l new) a u b maxNvps = supply s a u b maxNvps :=
    fun a u b ↦ took_supply (hsends a u b maxNvps) fun hc ↦ ht hc.2.2.symm
  refine ⟨took_op h fun op hop ↦ h.op i w op (hmem op hop), took_packet h hnet,
    took_worker h fun hw ↦ ?_, fun a b v hv ↦ ?_, fun a v victim hv ↦ ?_⟩
  · have hreq := h.worker i w hw
    rw [hops] at hreq
    exact hreq.tail
  · by_cases hchan : a = src ∧ b = i ∧ v = t
    · obtain ⟨rfl, rfl, rfl⟩ := hchan
      have hw : w = maxNvps := by
        rcases hok with ⟨hw, -⟩ | ⟨-, ht⟩
        · exact hw
        · have hgt := waitTag_gt w
          omega
      subst hw
      have hflow := h.flow a b v hv
      rw [Flow, took_supply_channel hnet (hsends a v b v), hops, recvs_recv, if_pos ⟨rfl, rfl⟩]
        at hflow
      rw [Flow, hdescs, took_ops_self]
      exact (List.cons.inj hflow).2
    · rw [Flow, took_supply (hsends a v b v) hchan, hdescs,
        hrecvs b maxNvps a v fun hc ↦ hchan ⟨hc.2.1, hc.1, hc.2.2⟩]
      exact h.flow a b v hv
  · have howed : owed (s.took i w src t l new) a v victim = owed s a v victim := by
      rw [owed, owed, hdescs, took_measure (fun l ↦ serving l a v) (by rw [hops]; rfl)]
    have hawaits : awaits ((s.took i w src t l new).ops a v) victim =
        awaits (s.ops a v) victim :=
      took_measure (fun l ↦ awaits l victim) (by rw [hops]; rfl) a v
    by_cases hchan : victim = src ∧ a = i ∧ waitTag v = t
    · obtain ⟨rfl, rfl, rfl⟩ := hchan
      have hw : w = v := by
        rcases hok with ⟨-, ht⟩ | ⟨-, ht⟩
        · have hgt := waitTag_gt v
          omega
        · exact (Nat.add_right_cancel ht).symm
      subst hw
      have hzero : awaits (s.ops a w) victim = 0 := by
        have hreq := h.worker a w hv
        rw [hops] at hreq ⊢
        exact hreq.of_head (fun _ _ _ ↦ Op.noConfusion) (fun _ ↦ Op.noConfusion) victim
      rcases h.exchange a w victim hv with ⟨heq, hsupply⟩ | ⟨hone, -⟩
      · refine .inl ⟨by rw [hawaits, howed]; exact heq, ?_⟩
        rw [took_supply_channel hnet (hsends victim maxNvps a (waitTag w)), hops, recvs_recv,
          if_pos ⟨rfl, rfl⟩] at hsupply
        rw [took_ops_self]
        exact (List.cons.inj hsupply).2
      · omega
    · rw [Exchange, took_supply (hsends victim maxNvps a (waitTag v)) hchan, howed, hawaits,
        hrecvs a v victim (waitTag v) fun hc ↦ hchan ⟨hc.2.1, hc.1, hc.2.2⟩]
      exact h.exchange a v victim hv

/-- A reply reaches the thread that waits for it. -/
theorem Inv.reply_matches (h : Inv s) (hops : s.ops i w = .recvReply src :: new)
    (hnet : s.net ⟨src, i, waitTag w⟩ = p :: l) :
    w < maxNvps ∧ new = [] ∧ owed s i w src = 0 ∧ ∃ uid d, p = .desc uid d ∧
    d.sourcenode = src ∧
      l ++ sends (s.ops src maxNvps) i (waitTag w) = expectedReply i w uid d := by
  have hw : w < maxNvps := h.op i w (.recvReply src) (by rw [hops]; exact List.mem_cons_self)
  have hreq := h.worker i w hw
  have hpos : 0 < awaits (s.ops i w) src := by
    rw [hops, awaits_recvReply, if_pos rfl]
    omega
  have hnew : new = [] := by
    rw [hops] at hreq hpos
    rcases hreq with hzero | ⟨node, heq⟩ | ⟨node, t, q, heq⟩
    · rw [hzero src] at hpos
      exact absurd hpos (Nat.lt_irrefl 0)
    · exact (List.cons.inj heq).2
    · cases (List.cons.inj heq).1
  refine ⟨hw, hnew, ?_⟩
  rcases h.exchange i w src hw with ⟨-, hsupply⟩ | ⟨-, howed, uid, d, hsrc, hsupply⟩
  · rw [(hreq.waiting hpos).2, supply, hnet] at hsupply
    cases hsupply
  · rw [supply, hnet] at hsupply
    obtain ⟨rfl, hrest⟩ := List.cons.inj hsupply
    exact ⟨howed, uid, d, rfl, hsrc, hrest⟩

theorem Inv.recvReply (h : Inv s) {uid : Nat} {d : TorcT} {rest : List Op} (mem : Nat → Int)
    (hops : s.ops i w = .recvReply src :: rest)
    (hnet : s.net ⟨src, i, waitTag w⟩ = .desc uid d :: l) :
    Inv (s.took i w src (waitTag w) l
      (payloadRecvs uid (receiveStolen i w mem d).2 ++ rest)) := by
  obtain ⟨hw, rfl, howed₀, uid', d', heq, hsrc, hrest⟩ := h.reply_matches hops hnet
  obtain ⟨rfl, rfl⟩ := Packet.desc.inj heq
  rw [List.append_nil]
  have hthread : ∀ a, ¬ (a = i ∧ maxNvps = w) := fun a hc ↦ Nat.ne_of_gt hw hc.2
  have hsends : ∀ a u b t', sends ((s.took i w src (waitTag w) l
      (payloadRecvs uid (receiveStolen i w mem d).2)).ops a u) b t' = sends (s.ops a u) b t' :=
    fun a u b t' ↦ took_measure (fun l ↦ sends l b t') (by
      show sends (payloadRecvs uid _) b t' = sends (s.ops i w) b t'
      rw [hops, sends_payloadRecvs]
      rfl) a u
  have hdescs : ∀ a u b, supply (s.took i w src (waitTag w) l
      (payloadRecvs uid (receiveStolen i w mem d).2)) a u b maxNvps = supply s a u b maxNvps :=
    fun a u b ↦ took_supply (hsends a u b maxNvps) fun hc ↦
      Nat.ne_of_lt (waitTag_gt w) hc.2.2
  refine ⟨took_op h fun op hop ↦ ?_, took_packet h hnet,
    took_worker h fun _ ↦ .inl fun node ↦ ?_,
    fun a b v hv ↦ ?_, fun a v victim hv ↦ ?_⟩
  · obtain ⟨src', t', q, hq, rfl⟩ := mem_payloadRecvs hop
    exact .inr ⟨hw, (receiveStolen_recvFrom i w mem d src' t' q hq).2⟩
  · exact awaits_payloadRecvs ..
  · have htag : ¬ (a = src ∧ b = i ∧ v = waitTag w) := by
      intro hc
      have hgt := waitTag_gt w
      omega
    rw [Flow, took_supply (hsends a v b v) htag, hdescs, took_ops_other (hthread b)]
    exact h.flow a b v hv
  · have howed : owed (s.took i w src (waitTag w) l
        (payloadRecvs uid (receiveStolen i w mem d).2)) a v victim = owed s a v victim := by
      rw [owed, owed, hdescs, took_ops_other (hthread victim)]
    by_cases hself : a = i ∧ v = w
    · obtain ⟨rfl, rfl⟩ := hself
      refine .inl ⟨?_, ?_⟩
      · rw [howed, took_ops_self, awaits_payloadRecvs]
        by_cases hvictim : victim = src
        · rw [hvictim, howed₀]
        · -- it does not wait for any other node
          rcases h.exchange a v victim hv with ⟨heq, -⟩ | ⟨hone, -⟩
          · rw [← heq, hops, awaits_recvReply, if_neg (Ne.symm hvictim)]
            rfl
          · rw [hops, awaits_recvReply, if_neg (Ne.symm hvictim)] at hone
            cases hone
      · rw [took_ops_self, recvs_receiveStolen]
        by_cases hvictim : victim = src
        · subst hvictim
          rw [if_pos ⟨hsrc, rfl⟩, supply, hsends, State.took, setNet_self]
          exact hrest
        · rw [if_neg fun hc ↦ hvictim (hc.1.symm.trans hsrc),
            took_supply (hsends victim maxNvps a (waitTag v)) fun hc ↦ hvictim hc.1]
          rcases h.exchange a v victim hv with ⟨-, hsupply⟩ | ⟨hone, -⟩
          · rw [hsupply, hops]
            rfl
          · rw [hops, awaits_recvReply, if_neg (Ne.symm hvictim)] at hone
            cases hone
    · have hchan : ¬ (victim = src ∧ a = i ∧ waitTag v = waitTag w) :=
        fun hc ↦ hself ⟨hc.2.1, Nat.add_right_cancel hc.2.2⟩
      rw [Exchange, howed, took_supply (hsends victim maxNvps a (waitTag v)) hchan,
        took_ops_other hself]
      exact h.exchange a v victim hv

/-- `server_loop` receives a descriptor. -/
theorem Inv.serve (h : Inv s) (n uid' : Nat) (mem : Nat → Int) {uid : Nat} {d : TorcT}
    (hops : s.ops i maxNvps = []) (hnet : s.net ⟨src, i, maxNvps⟩ = .desc uid d :: l) :
    Inv (s.took i maxNvps src maxNvps l (processOps n i uid uid' mem d)) := by
  obtain ⟨_, _, heq, hd⟩ :=
    h.packet src i (.desc uid d) (by rw [hnet]; exact List.mem_cons_self)
  obtain ⟨rfl, rfl⟩ := Packet.desc.inj heq
  have hworker : d.sourcevpid ≠ maxNvps → d.sourcevpid < maxNvps :=
    fun hne ↦ Nat.lt_of_le_of_ne hd.vpid_le hne
  have hsame : ∀ a v, v < maxNvps → ¬ (a = i ∧ v = maxNvps) := fun a v hv hc ↦ by omega
  have hsends : ∀ a u b t', t' ≠ maxNvps →
      sends ((s.took i maxNvps src maxNvps l (processOps n i uid uid' mem d)).ops a u) b t' =
        sends (s.ops a u) b t' := fun a u b t' ht' ↦
    took_measure (fun l ↦ sends l b t')
      (by rw [hops]; exact sends_processOps n i uid uid' mem d ht' b)
      a u
  -- the messages to servers are as before but for the one received
  have hother : ∀ a v b, v < maxNvps → ¬ (a = src ∧ b = i) →
      supply (s.took i maxNvps src maxNvps l (processOps n i uid uid' mem d)) a v b maxNvps =
        supply s a v b maxNvps := fun a v b hv hc ↦
    took_supply (by rw [took_ops_other (hsame a v hv)]) fun hc' ↦ hc ⟨hc'.1, hc'.2.1⟩
  have hchannel : ∀ v, v < maxNvps → supply s src v i maxNvps = .desc uid d ::
      supply (s.took i maxNvps src maxNvps l (processOps n i uid uid' mem d)) src v i maxNvps :=
    fun v hv ↦ took_supply_channel hnet (by rw [took_ops_other (hsame src v hv)])
  refine ⟨took_op h fun op hop ↦ ?_, took_packet h hnet,
    took_worker h fun hlt ↦ absurd hlt (Nat.lt_irrefl _), fun a b v hv ↦ ?_,
    fun a v victim hv ↦ ?_⟩
  · rcases mem_processOps hop with ⟨⟨arg, count, rfl⟩, hne⟩ | ⟨rfl, htype⟩ |
      ⟨⟨t, rfl⟩, -⟩ | ⟨node, rfl⟩
    · exact .inl ⟨rfl, hworker fun hc ↦ hne (hd.server hc).1⟩
    · exact ⟨rfl, hworker fun hc ↦ (hd.server hc).2 htype⟩
    · exact rfl
    · exact .inl
        ⟨rfl, uid', _, rfl, rfl, rfl, Nat.le_refl _, fun _ ↦ ⟨rfl, MsgType.noConfusion⟩⟩
  · have htag : v ≠ maxNvps := Nat.ne_of_lt hv
    have hflow := h.flow a b v hv
    rw [Flow, took_supply (hsends a v b v htag) fun hc ↦ htag hc.2.2]
    by_cases hb : b = i
    · subst hb
      rw [took_ops_self, recvs_processOps]
      rw [Flow, hops, recvs_nil, List.nil_append] at hflow
      by_cases ha : a = src
      · subst ha
        rw [hchannel v hv, List.flatMap_cons] at hflow
        rw [hflow]
        show (if d.sourcevpid = v then expected b uid d else []) ++ _ = _
        by_cases hvpid : d.sourcevpid = v
        · rw [if_pos hvpid, if_pos ⟨hd.source, hvpid⟩]
        · rw [if_neg hvpid, if_neg fun hc ↦ hvpid hc.2]
      · rw [hother a v b hv fun hc ↦ ha hc.1, if_neg fun hc ↦ ha (hc.1.symm.trans hd.source)]
        exact hflow
    · rw [hother a v b hv fun hc ↦ hb hc.2, took_ops_other fun hc ↦ hb hc.1]
      exact hflow
  · have htag : waitTag v ≠ maxNvps := Nat.ne_of_gt (waitTag_gt v)
    have howed : owed (s.took i maxNvps src maxNvps l (processOps n i uid uid' mem d)) a v victim =
        owed s a v victim := by
      rw [owed, owed]
      by_cases hvictim : victim = i
      · subst hvictim
        rw [took_ops_self, hops, serving_processOps, serving_nil]
        by_cases ha : a = src
        · subst ha
          rw [hchannel v hv, List.countP_cons]
          have hrequest : isRequest v (.desc uid d) = true ↔
              d.type = .directSynchronousStealingRequest ∧ d.sourcenode = a ∧
              d.sourcevpid = v := by
            simp only [isRequest, Bool.and_eq_true, beq_iff_eq, hd.source, true_and]
          rw [if_congr hrequest rfl rfl, Nat.add_zero]
        · rw [hother a v victim hv fun hc ↦ ha hc.1,
            if_neg fun hc ↦ ha (hc.2.1.symm.trans hd.source)]
      · rw [hother a v victim hv fun hc ↦ hvictim hc.2, took_ops_other fun hc ↦ hvictim hc.1]
    rw [Exchange, howed, took_ops_other (hsame a v hv),
      took_supply (hsends victim maxNvps a (waitTag v) htag) fun hc ↦ htag hc.2.2]
    exact h.exchange a v victim hv

end

/-! ## Entering a routine -/

section

variable {i v node uid : Nat} {d : TorcT} {l rest : List Op}

theorem setOps_op (h : Inv s) (hnew : ∀ op ∈ l, OpOk i v op) :
    ∀ i' v', ∀ op ∈ (s.setOps i v l).ops i' v', OpOk i' v' op := by
  intro i' v' op hop
  by_cases hthread : i' = i ∧ v' = v
  · obtain ⟨rfl, rfl⟩ := hthread
    rw [setOps_self] at hop
    exact hnew op hop
  · rw [setOps_other s l hthread] at hop
    exact h.op i' v' op hop

theorem setOps_measure {α : Type*} (f : List Op → α) (hf : f l = f (s.ops i v)) (i' v' : Nat) :
    f ((s.setOps i v l).ops i' v') = f (s.ops i' v') := by
  by_cases h : i' = i ∧ v' = v
  · obtain ⟨rfl, rfl⟩ := h
    rw [setOps_self, hf]
  · rw [setOps_other s l h]

theorem setOps_supply {a u b t : Nat}
    (h : sends ((s.setOps i v l).ops a u) b t = sends (s.ops a u) b t) :
    supply (s.setOps i v l) a u b t = supply s a u b t :=
  congrArg (s.net ⟨a, b, t⟩ ++ ·) h

/-- A worker sends a descriptor and what its receiver expects. -/
theorem Inv.enter_worker (h : Inv s) (hv : v < maxNvps) (hops : s.ops i v = [])
    (ha : Announces i v node uid d l) (hreq : Requesting l) : Inv (s.setOps i v l) := by
  -- the calls of the servers stay, and the worker had none
  have hserver : ∀ a u, (s.setOps i v l).ops a maxNvps = s.ops a maxNvps ∧
      supply (s.setOps i v l) a maxNvps u = supply s a maxNvps u := by
    intro a u
    have hops' : (s.setOps i v l).ops a maxNvps = s.ops a maxNvps :=
      setOps_other s l fun hc ↦ Nat.ne_of_gt hv hc.2
    refine ⟨hops', funext fun t ↦ setOps_supply (by rw [hops'])⟩
  have hsupply : ∀ b t, supply (s.setOps i v l) i v b t = supply s i v b t ++ sends l b t := by
    intro b t
    rw [supply, supply, setOps_self, hops, sends_nil, List.append_nil]
    rfl
  refine ⟨setOps_op h fun op hop ↦ ?_, h.packet, fun i' v' hv' ↦ ?_, fun a b w hw ↦ ?_,
    fun a w victim hw ↦ ?_⟩
  · rcases ha.mem op hop with rfl | ⟨⟨p, rfl⟩, -⟩ | ⟨rfl, -⟩
    · exact .inl ⟨rfl, uid, d, rfl, ha.stamp.2, ha.stamp.1, Nat.le_of_lt (ha.stamp.2 ▸ hv),
        fun hc ↦ absurd (ha.stamp.2.symm.trans hc) (Nat.ne_of_lt hv)⟩
    · exact .inr (.inl ⟨hv, rfl⟩)
    · exact hv
  · by_cases hthread : i' = i ∧ v' = v
    · obtain ⟨rfl, rfl⟩ := hthread
      rw [setOps_self]
      exact hreq
    · rw [setOps_other s l hthread]
      exact h.worker i' v' hv'
  · have hflow := h.flow a b w hw
    rw [Flow, (hserver b 0).1]
    by_cases hthread : a = i ∧ w = v
    · obtain ⟨rfl, rfl⟩ := hthread
      have hne : w ≠ maxNvps := Nat.ne_of_lt hw
      rw [hsupply, hsupply, ha.sends, ha.sends, if_neg fun hc ↦ hne hc.2.symm,
        if_neg (fun hc ↦ hne hc.2 : ¬ (node = b ∧ w = maxNvps)), List.nil_append,
        List.append_nil,
        List.flatMap_append, ← List.append_assoc, ← hflow]
      by_cases hb : node = b
      · subst hb
        rw [if_pos ⟨rfl, rfl⟩, if_pos ⟨rfl, rfl⟩, List.flatMap_singleton]
        exact congrArg _ (if_pos ha.stamp.2).symm
      · rw [if_neg fun hc ↦ hb hc.1, if_neg fun hc ↦ hb hc.1]
        rfl
    · rw [setOps_supply (by rw [setOps_other s l hthread]),
        setOps_supply (by rw [setOps_other s l hthread])]
      exact hflow
  · have hex := h.exchange a w victim hw
    by_cases hthread : a = i ∧ w = v
    · obtain ⟨rfl, rfl⟩ := hthread
      have hne : w ≠ maxNvps := Nat.ne_of_lt hw
      rw [Exchange, hops] at hex
      -- a worker with no call awaits no reply, so the request that it may make is the only one
      rcases hex with ⟨howed, hempty⟩ | ⟨hone, -⟩
      · refine .inl ⟨?_, ?_⟩
        · rw [setOps_self, ha.awaits, owed, (hserver victim 0).1, hsupply, ha.sends,
            if_neg (fun hc ↦ hne hc.2 : ¬ (node = victim ∧ w = maxNvps)), List.append_nil,
            List.countP_append]
          rw [awaits_nil, owed] at howed
          by_cases hb : node = victim
          · have hrequest : isRequest w (.desc uid d) = true ↔
                d.type = .directSynchronousStealingRequest := by
              simp only [isRequest, Bool.and_eq_true, beq_iff_eq, ha.stamp.2, and_true]
            rw [if_congr (and_iff_right hb) rfl rfl,
              if_pos (show node = victim ∧ maxNvps = maxNvps from ⟨hb, rfl⟩),
              List.countP_singleton, if_congr hrequest rfl rfl]
            omega
          · rw [if_neg fun hc ↦ hb hc.1, if_neg fun hc ↦ hb hc.1, List.countP_nil]
            omega
        · rw [setOps_self, ha.recvs, (hserver victim a).2]
          exact hempty
      · cases hone
    · rw [Exchange, owed, (hserver victim a).1, (hserver victim a).2, setOps_other s l hthread,
        setOps_supply (by rw [setOps_other s l hthread])]
      exact hex

/-- A server sends a descriptor without payloads, from the body of a task or when it has
returned. -/
theorem Inv.enter_server (h : Inv s)
    (hops : s.ops i maxNvps = rest ∨ ∃ t, s.ops i maxNvps = .body t :: rest)
    (ha : Announces i maxNvps node uid d l) (hnone : expected node uid d = [])
    (htype : d.type ≠ .directSynchronousStealingRequest) :
    Inv (s.setOps i maxNvps (l ++ rest)) := by
  -- the body that the server is in counts for nothing
  have hbody : ∀ {α : Type} (f : List Op → α), (∀ t l, f (.body t :: l) = f l) →
      f rest = f (s.ops i maxNvps) := by
    intro α f hf
    rcases hops with heq | ⟨t, heq⟩
    · rw [heq]
    · rw [heq, hf]
  have hthread : ∀ a w, w < maxNvps → ¬ (a = i ∧ w = maxNvps) := fun a w hw hc ↦ by omega
  have hrecvs : ∀ a w b, recvs ((s.setOps i maxNvps (l ++ rest)).ops b maxNvps) a w =
      recvs (s.ops b maxNvps) a w := fun a w b ↦
    setOps_measure (fun l ↦ recvs l a w) (by
      rw [recvs_append, ha.recvs]
      exact hbody (fun l ↦ recvs l a w) fun _ _ ↦ rfl) b maxNvps
  have hserving : ∀ a w b, serving ((s.setOps i maxNvps (l ++ rest)).ops b maxNvps) a w =
      serving (s.ops b maxNvps) a w := fun a w b ↦
    setOps_measure (fun l ↦ serving l a w) (by
      rw [serving_append, ha.serving, Nat.zero_add]
      exact hbody (fun l ↦ serving l a w) fun _ _ ↦ rfl) b maxNvps
  have hsupply : ∀ a w b t, t ≠ maxNvps →
      supply (s.setOps i maxNvps (l ++ rest)) a w b t = supply s a w b t := fun a w b t ht ↦
    setOps_supply (setOps_measure (fun l ↦ sends l b t) (by
      rw [sends_append, ha.sends, if_neg fun hc ↦ ht hc.2.symm, if_neg fun hc ↦ ht hc.2.symm]
      exact hbody (fun l ↦ sends l b t) fun _ _ ↦ rfl) a w)
  have hworker : ∀ a w b t, w < maxNvps →
      supply (s.setOps i maxNvps (l ++ rest)) a w b t = supply s a w b t := fun a w b t hw ↦
    setOps_supply (by rw [setOps_other s _ (hthread a w hw)])
  refine ⟨setOps_op h fun op hop ↦ ?_, h.packet, fun a w hw ↦ ?_, fun a b w hw ↦ ?_,
    fun a w victim hw ↦ ?_⟩
  · rcases List.mem_append.mp hop with hop | hop
    · rcases ha.mem op hop with rfl | ⟨-, hne⟩ | ⟨-, hsteal⟩
      · exact .inl ⟨rfl, uid, d, rfl, ha.stamp.2, ha.stamp.1, Nat.le_of_eq ha.stamp.2,
          fun _ ↦ ⟨hnone, htype⟩⟩
      · exact absurd hnone hne
      · exact absurd hsteal htype
    · apply h.op i maxNvps op
      rcases hops with heq | ⟨t, heq⟩
      · rwa [heq]
      · rw [heq]
        exact List.mem_cons_of_mem _ hop
  · rw [setOps_other s _ (hthread a w hw)]
    exact h.worker a w hw
  · rw [Flow, hworker a w b w hw, hworker a w b maxNvps hw, hrecvs]
    exact h.flow a b w hw
  · rw [Exchange, owed, hworker a w victim maxNvps hw, hserving,
      hsupply victim maxNvps a (waitTag w) (Nat.ne_of_gt (waitTag_gt w)),
      setOps_other s _ (hthread a w hw)]
    exact h.exchange a w victim hw

/-- The server replies to the stealing request that it serves. -/
theorem Inv.enter_reply (h : Inv s) {request : TorcT}
    (hops : s.ops i maxNvps = .serve request :: rest)
    (hempty : d.type = .torcNoWork → d.narg = 0) :
    Inv (s.setOps i maxNvps (directSendDescriptorOps i uid request d ++ rest)) := by
  have hrequest : request.sourcevpid < maxNvps :=
    (h.op i maxNvps (.serve request) (by rw [hops]; exact List.mem_cons_self)).2
  have htag : replyTag request.sourcevpid = waitTag request.sourcevpid := replyTag_eq hrequest
  have hthread : ∀ a w, w < maxNvps → ¬ (a = i ∧ w = maxNvps) := fun a w hw hc ↦ by omega
  have hworker : ∀ a w b t, w < maxNvps →
      supply (s.setOps i maxNvps (directSendDescriptorOps i uid request d ++ rest)) a w b t =
        supply s a w b t := fun a w b t hw ↦
    setOps_supply (by rw [setOps_other s _ (hthread a w hw)])
  refine ⟨setOps_op h fun op hop ↦ ?_, h.packet, fun a w hw ↦ ?_, fun a b w hw ↦ ?_,
    fun a w victim hw ↦ ?_⟩
  · rcases List.mem_append.mp hop with hop | hop
    · obtain ⟨dst, p, rfl⟩ := mem_directSendDescriptorOps hop
      rw [htag]
      exact .inr (.inr ⟨rfl, waitTag_gt _⟩)
    · exact h.op i maxNvps op (by rw [hops]; exact List.mem_cons_of_mem _ hop)
  · rw [setOps_other s _ (hthread a w hw)]
    exact h.worker a w hw
  · rw [Flow, hworker a w b w hw, hworker a w b maxNvps hw,
      setOps_measure (fun l ↦ recvs l a w) (by
        rw [hops, recvs_append, recvs_directSendDescriptorOps]
        rfl)]
    exact h.flow a b w hw
  · have hex := h.exchange a w victim hw
    rw [Exchange, owed, hworker a w victim maxNvps hw, setOps_other s _ (hthread a w hw)]
    by_cases hvictim : victim = i
    · subst hvictim
      have hold : supply s victim maxNvps a (waitTag w) =
          s.net ⟨victim, a, waitTag w⟩ ++ sends rest a (waitTag w) := by
        rw [supply, hops, sends_serve]
      have hnew : supply (s.setOps victim maxNvps
            (directSendDescriptorOps victim uid request d ++ rest)) victim maxNvps a (waitTag w) =
          s.net ⟨victim, a, waitTag w⟩ ++
            (sends (directSendDescriptorOps victim uid request d) a (waitTag w) ++
              sends rest a (waitTag w)) := by
        rw [supply, setOps_self, sends_append]
        rfl
      rw [setOps_self, serving_append, serving_directSendDescriptorOps, Nat.zero_add, hnew,
        sends_directSendDescriptorOps hempty, htag]
      rw [Exchange, owed, hold, hops, serving_serve] at hex
      by_cases hself : request.sourcenode = a ∧ request.sourcevpid = w
      · -- the request that is now answered was the only one, and no reply was on its way
        rw [if_pos hself] at hex
        obtain ⟨rfl, rfl⟩ := hself
        rcases hex with ⟨howed, hsupply⟩ | ⟨-, howed, -⟩
        · have hpos : 0 < awaits (s.ops request.sourcenode request.sourcevpid) victim := by omega
          obtain ⟨hone, hnone⟩ := (h.worker _ _ hw).waiting hpos
          rw [hnone, List.append_eq_nil_iff] at hsupply
          refine .inr ⟨hone, by omega, uid, stampReply victim d, rfl, ?_⟩
          rw [if_pos ⟨rfl, rfl⟩, hsupply.1, hsupply.2, List.append_nil, List.nil_append]
        · omega
      · have hother : ¬ (request.sourcenode = a ∧ waitTag request.sourcevpid = waitTag w) :=
          fun hc ↦ hself ⟨hc.1, Nat.add_right_cancel hc.2⟩
        rw [if_neg hself] at hex
        rw [if_neg hother]
        exact hex
    · have hops' : (s.setOps i maxNvps (directSendDescriptorOps i uid request d ++ rest)).ops
          victim maxNvps = s.ops victim maxNvps := setOps_other s _ fun hc ↦ hvictim hc.1
      rw [hops', setOps_supply (by rw [hops'])]
      exact hex

/-- The server has the body of a task to execute. -/
theorem Inv.enter_body (h : Inv s) (hops : s.ops i maxNvps = []) :
    Inv (s.setOps i maxNvps [.body d]) := by
  have hthread : ∀ a w, w < maxNvps → ¬ (a = i ∧ w = maxNvps) := fun a w hw hc ↦ by omega
  have hmeasure : ∀ {α : Type} (f : List Op → α), f [.body d] = f [] → ∀ a w,
      f ((s.setOps i maxNvps [.body d]).ops a w) = f (s.ops a w) :=
    fun f hf ↦ setOps_measure f (by rw [hops]; exact hf)
  have hsupply : ∀ a w b t, supply (s.setOps i maxNvps [.body d]) a w b t = supply s a w b t :=
    fun a w b t ↦ setOps_supply (hmeasure (fun l ↦ sends l b t) rfl a w)
  refine ⟨setOps_op h fun op hop ↦ ?_, h.packet, fun a w hw ↦ ?_, fun a b w hw ↦ ?_,
    fun a w victim hw ↦ ?_⟩
  · rw [List.mem_singleton.mp hop]
    exact rfl
  · rw [setOps_other s _ (hthread a w hw)]
    exact h.worker a w hw
  · rw [Flow, hsupply, hsupply, hmeasure (fun l ↦ recvs l a w) rfl]
    exact h.flow a b w hw
  · rw [Exchange, owed, hsupply, hsupply, hmeasure (fun l ↦ serving l a w) rfl,
      setOps_other s _ (hthread a w hw)]
    exact h.exchange a w victim hw

end

end Torc.Messages
