import Torc.Cluster.Tags
import Torc.Messages.Routines
import Torc.Lib.Framing

/-!
# The replies and their payloads

On its way from a server to a worker each reply is followed by its payloads and by no other ones, so
that a worker that has still payloads to receive does not get a later reply instead.
-/

namespace Torc.Cluster

open Framing
open Messages (RecvFrom SendTo expectedReply)

/-- The payload that a call sends to node `dst` with this tag: the argument and its length. -/
def sentTo (dst tag : Nat) : Effect → Option (Nat × Nat)
  | .isend d t p => if d = dst ∧ t = tag then some (p.arg, p.count) else none
  | _ => none

def postedFrom (src tag : Nat) : Effect → Option (Nat × Nat)
  | .irecv s t p => if s = src ∧ t = tag then some (p.arg, p.count) else none
  | _ => none

/-- The payloads to node `dst` with this tag that are still to be sent. -/
def toSend (s : State) (i : Nat) (th : Thread) (dst tag : Nat) : List (Nat × Nat) :=
  (s.calls i th).filterMap (sentTo dst tag)

/-- The payloads from node `src` with this tag that are still to be received. -/
def toReceive (s : State) (i : Nat) (th : Thread) (src tag : Nat) : List (Nat × Nat) :=
  (s.calls i th).filterMap (postedFrom src tag)

def Packet.item : Packet → TorcT ⊕ (Nat × Nat)
  | .desc d => .inl d
  | .payload t => .inr (t.arg, t.count)

/-- What is under way from the server of node `src` to worker `v` of node `dst`. -/
def stream (s : State) (src dst v : Nat) : List (TorcT ⊕ (Nat × Nat)) :=
  (s.net ⟨src, .server, dst, waitTag v⟩).map Packet.item ++
    (toSend s src .server dst (waitTag v)).map .inr

/-- The payloads that worker `v` of node `dst` receives after a reply. -/
def announced (dst v : Nat) (d : TorcT) : List (Nat × Nat) :=
  postedReceives (receiveStolen dst v (fun _ ↦ 0) d).2

def Streams (s : State) : Prop :=
  ∀ src dst v, Framed (announced dst v) (toReceive s dst (.worker v) src (waitTag v))
    (stream s src dst v)

variable {workers : List Nat} {torcSize : Nat} {s s' : State} {i v : Nat} {th : Thread}

/-! ## The calls of a routine -/

theorem filterMap_sentTo {node tag : Nat} {calls : List Effect} (h : SendTo node tag calls)
    (dst t : Nat) : calls.filterMap (sentTo dst t) =
      if node = dst ∧ tag = t then sentPayloads calls else [] := by
  induction calls with
  | nil => simp
  | cons e calls ih =>
      have hrest := ih fun d t p hp ↦ h d t p (List.mem_cons_of_mem e hp)
      cases e with
      | isend d u p =>
          obtain ⟨rfl, rfl⟩ := h d u p List.mem_cons_self
          rw [List.filterMap_cons, hrest, sentPayloads_isend]
          by_cases hc : d = dst ∧ u = t <;> simp [sentTo, hc]
      | calloc | free | irecv => exact hrest

theorem filterMap_postedFrom {node tag : Nat} {calls : List Effect} (h : RecvFrom node tag calls)
    (src t : Nat) : calls.filterMap (postedFrom src t) =
      if node = src ∧ tag = t then postedReceives calls else [] := by
  induction calls with
  | nil => simp
  | cons e calls ih =>
      have hrest := ih fun d t p hp ↦ h d t p (List.mem_cons_of_mem e hp)
      cases e with
      | irecv d u p =>
          obtain ⟨rfl, rfl⟩ := h d u p List.mem_cons_self
          rw [List.filterMap_cons, hrest, postedReceives_irecv]
          by_cases hc : d = src ∧ u = t <;> simp [postedFrom, hc]
      | calloc | free | isend => exact hrest

/-! ## Steps that leave the streams alone -/

theorem Streams.congr (h : Streams s)
    (hnet : ∀ src dst v, s'.net ⟨src, .server, dst, waitTag v⟩ =
      s.net ⟨src, .server, dst, waitTag v⟩)
    (hsend : ∀ src dst v, toSend s' src .server dst (waitTag v) =
      toSend s src .server dst (waitTag v))
    (hreceive : ∀ dst v src, toReceive s' dst (.worker v) src (waitTag v) =
      toReceive s dst (.worker v) src (waitTag v)) : Streams s' := by
  intro src dst v
  rw [stream, hnet, hsend, hreceive]
  exact h src dst v

theorem Streams.of_eq (h : Streams s) (hnet : s'.net = s.net) (hcalls : s'.calls = s.calls) :
    Streams s' := by
  apply h.congr
  · intro src dst v
    rw [hnet]
  · intro src dst v
    rw [toSend, hcalls]
    rfl
  · intro dst v src
    rw [toReceive, hcalls]
    rfl

theorem toSend_setCalls (s : State) (i : Nat) (th : Thread) (l : List Effect) (j : Nat)
    (o : Thread) (dst tag : Nat) : toSend (s.setCalls i th l) j o dst tag =
      if j = i ∧ o = th then l.filterMap (sentTo dst tag) else toSend s j o dst tag := by
  unfold toSend
  split
  · rename_i h
    obtain ⟨rfl, rfl⟩ := h
    rw [setCalls_self]
  · rename_i h
    rw [setCalls_of_ne l h]

theorem toReceive_setCalls (s : State) (i : Nat) (th : Thread) (l : List Effect) (j : Nat)
    (o : Thread) (src tag : Nat) : toReceive (s.setCalls i th l) j o src tag =
      if j = i ∧ o = th then l.filterMap (postedFrom src tag) else toReceive s j o src tag := by
  unfold toReceive
  split
  · rename_i h
    obtain ⟨rfl, rfl⟩ := h
    rw [setCalls_self]
  · rename_i h
    rw [setCalls_of_ne l h]

/-- Messages that are no replies come and go. -/
theorem Streams.setNet (h : Streams s) {c : Chan} {l : List Packet}
    (hc : ∀ v, ¬ (c.thread = .server ∧ c.tag = waitTag v)) : Streams (s.setNet c l) := by
  refine h.congr (fun src dst v ↦ ?_) (fun _ _ _ ↦ rfl) fun _ _ _ ↦ rfl
  have hne : (⟨src, .server, dst, waitTag v⟩ : Chan) ≠ c := fun heq ↦
    hc v (by rw [← heq]; exact ⟨rfl, rfl⟩)
  exact Function.update_of_ne hne ..

/-- A worker begins to send. -/
theorem Streams.setCalls_worker (h : Streams s) (hidle : s.calls i (.worker v) = [])
    {l : List Effect} (hl : ∀ src, l.filterMap (postedFrom src (waitTag v)) = []) :
    Streams (s.setCalls i (.worker v) l) := by
  refine h.congr (fun _ _ _ ↦ rfl) (fun src dst u ↦ ?_) fun dst u src ↦ ?_
  · rw [toSend_setCalls, if_neg fun hc ↦ Thread.noConfusion hc.2]
  · rw [toReceive_setCalls]
    split
    · rename_i hc
      obtain ⟨rfl, huv⟩ := hc
      cases huv
      rw [hl, toReceive, hidle]
      rfl
    · rfl

/-- A server begins to receive. -/
theorem Streams.setCalls_server (h : Streams s) (hidle : s.calls i .server = [])
    {l : List Effect} (hl : ∀ dst v, l.filterMap (sentTo dst (waitTag v)) = []) :
    Streams (s.setCalls i .server l) := by
  refine h.congr (fun _ _ _ ↦ rfl) (fun src dst u ↦ ?_) fun dst u src ↦ ?_
  · rw [toSend_setCalls]
    split
    · rename_i hc
      obtain ⟨rfl, -⟩ := hc
      rw [hl, toSend, hidle]
      rfl
    · rfl
  · rw [toReceive_setCalls, if_neg fun hc ↦ Thread.noConfusion hc.2]

theorem Streams.sendDescriptor (h : Streams s) (hidle : s.calls i (.worker v) = []) (node : Nat)
    (desc : TorcT) (type : MsgType) :
    Streams (s.sendDescriptor i (.worker v) node desc type) := by
  have hsent : Streams (s.send ⟨i, .worker v, node, maxNvps⟩
      (.desc (stampSource i v desc type))) :=
    h.setNet fun u hc ↦ Thread.noConfusion hc.1
  apply hsent.setCalls_worker hidle
  intro src
  apply List.filterMap_eq_nil_iff.mpr
  intro e he
  rcases effect_sendDescriptor he with ⟨a, rfl⟩ | ⟨dst, t, rfl⟩ <;> rfl

/-! ## Replies -/

/-- A server sends a reply, its payloads still to be sent. -/
theorem Streams.directSendDescriptor (h : Streams s) (hidle : s.calls i .server = [])
    (hv : v < maxNvps) (node : Nat) {desc : TorcT}
    (hempty : desc.type = .torcNoWork → desc.narg = 0) :
    Streams (s.directSendDescriptor i node v desc) := by
  have htag := replyTag_eq hv
  have hcalls : ∀ dst t, (Torc.directSendDescriptor i node v desc).filterMap (sentTo dst t) =
      if node = dst ∧ waitTag v = t then announced node v (stampReply i desc) else [] := by
    intro dst t
    rw [filterMap_sentTo (Messages.directSendDescriptor_sendTo i node v desc), htag,
      reply_schedule i node v (fun _ ↦ 0) desc hempty]
    rfl
  have hnone : ∀ dst t, toSend s i .server dst t = [] := by
    intro dst t
    rw [toSend, hidle]
    rfl
  intro src dst u
  have hreceive : toReceive (s.directSendDescriptor i node v desc) dst (.worker u) src
      (waitTag u) = toReceive s dst (.worker u) src (waitTag u) := by
    unfold State.directSendDescriptor
    rw [toReceive_setCalls, if_neg fun hc ↦ Thread.noConfusion hc.2]
    rfl
  have hsend : toSend (s.directSendDescriptor i node v desc) src .server dst (waitTag u) =
      if src = i then (if node = dst ∧ waitTag v = waitTag u then
        announced node v (stampReply i desc) else [])
      else toSend s src .server dst (waitTag u) := by
    unfold State.directSendDescriptor
    rw [toSend_setCalls, hcalls]
    by_cases hsrc : src = i
    · simp only [hsrc, and_self, if_true]
    · simp only [hsrc, false_and, if_false]
      rfl
  rw [hreceive]
  by_cases hchan : src = i ∧ node = dst ∧ v = u
  · -- the frame of the reply comes last on its stream
    obtain ⟨rfl, rfl, rfl⟩ := hchan
    have hnet : (s.directSendDescriptor src node v desc).net ⟨src, .server, node, waitTag v⟩ =
        s.net ⟨src, .server, node, waitTag v⟩ ++ [.desc (stampReply src desc)] := by
      show Function.update s.net ⟨src, .server, node, replyTag v⟩ _ _ = _
      rw [htag, Function.update_self]
    have hstream : stream (s.directSendDescriptor src node v desc) src node v =
        stream s src node v ++ frame (announced node v) (stampReply src desc) := by
      rw [stream, stream, hnet, hsend, if_pos rfl, if_pos ⟨rfl, rfl⟩, hnone, List.map_append,
        List.map_nil, List.append_nil, List.append_assoc]
      rfl
    rw [hstream]
    exact (h src node v).append _
  · have hnet : (s.directSendDescriptor i node v desc).net ⟨src, .server, dst, waitTag u⟩ =
        s.net ⟨src, .server, dst, waitTag u⟩ := by
      refine Function.update_of_ne (fun heq ↦ hchan ?_) ..
      obtain ⟨hsrc, -, hdst, hu⟩ := Chan.mk.inj heq
      rw [htag] at hu
      exact ⟨hsrc, hdst.symm, (Nat.add_right_cancel hu).symm⟩
    have hother : toSend (s.directSendDescriptor i node v desc) src .server dst (waitTag u) =
        toSend s src .server dst (waitTag u) := by
      rw [hsend]
      split
      · rename_i hsrc
        rw [if_neg fun hc ↦ hchan ⟨hsrc, hc.1, Nat.add_right_cancel hc.2⟩, hsrc, hnone]
      · rfl
    rw [stream, hnet, hother]
    exact h src dst u

/-- A worker takes a reply from its stream and then expects the payloads of it. -/
theorem Streams.takeReply (h : Streams s) {node : Nat} {desc : TorcT} {rest : List Packet}
    (hidle : s.calls i (.worker v) = []) (hsource : desc.sourcenode = node)
    (hnet : s.net ⟨node, .server, i, waitTag v⟩ = .desc desc :: rest) (mem : Nat → Int) :
    Streams ((s.setNet ⟨node, .server, i, waitTag v⟩ rest).setCalls i (.worker v)
      (receiveStolen i v mem desc).2) := by
  subst hsource
  have hcalls : ∀ src t, (receiveStolen i v mem desc).2.filterMap (postedFrom src t) =
      if desc.sourcenode = src ∧ waitTag v = t then announced i v desc else [] := by
    intro src t
    rw [filterMap_postedFrom (Messages.receiveStolen_recvFrom i v mem desc),
      Messages.postedReceives_receiveStolen i v mem fun _ ↦ 0]
    rfl
  have hnone : ∀ src t, toReceive s i (.worker v) src t = [] := by
    intro src t
    rw [toReceive, hidle]
    rfl
  intro src dst u
  set s' := (s.setNet ⟨desc.sourcenode, .server, i, waitTag v⟩ rest).setCalls i (.worker v)
    (receiveStolen i v mem desc).2 with hs'
  have hsend : toSend s' src .server dst (waitTag u) = toSend s src .server dst (waitTag u) := by
    rw [hs', toSend_setCalls, if_neg fun hc ↦ Thread.noConfusion hc.2]
    rfl
  have hreceive : toReceive s' dst (.worker u) src (waitTag u) =
      if dst = i ∧ u = v then (if desc.sourcenode = src ∧ waitTag v = waitTag u then
        announced i v desc else [])
      else toReceive s dst (.worker u) src (waitTag u) := by
    rw [hs', toReceive_setCalls, hcalls]
    by_cases hu : dst = i ∧ u = v
    · obtain ⟨rfl, rfl⟩ := hu
      rw [if_pos (⟨rfl, rfl⟩ : dst = dst ∧ Thread.worker u = .worker u),
        if_pos (⟨rfl, rfl⟩ : dst = dst ∧ u = u)]
    · rw [if_neg hu, if_neg fun hc ↦ hu ⟨hc.1, Thread.worker.inj hc.2⟩]
      rfl
  by_cases hchan : dst = i ∧ u = v
  · obtain ⟨rfl, rfl⟩ := hchan
    rw [hreceive, if_pos ⟨rfl, rfl⟩]
    have hold := h src dst u
    rw [hnone] at hold
    by_cases hsrc : desc.sourcenode = src
    · subst hsrc
      have hhead : stream s desc.sourcenode dst u = .inl desc :: (rest.map Packet.item ++
          (toSend s desc.sourcenode .server dst (waitTag u)).map .inr) := by
        rw [stream, hnet]
        rfl
      have hrest : s'.net ⟨desc.sourcenode, .server, dst, waitTag u⟩ = rest :=
        Function.update_self ..
      rw [hhead] at hold
      rw [if_pos ⟨rfl, rfl⟩, stream, hrest, hsend]
      exact hold.header
    · have hother : s'.net ⟨src, .server, dst, waitTag u⟩ =
          s.net ⟨src, .server, dst, waitTag u⟩ := by
        refine Function.update_of_ne (fun heq ↦ hsrc ?_) ..
        exact (Chan.mk.inj heq).1.symm
      rw [if_neg fun hc ↦ hsrc hc.1, stream, hother, hsend]
      exact hold
  · have hother : s'.net ⟨src, .server, dst, waitTag u⟩ =
        s.net ⟨src, .server, dst, waitTag u⟩ := by
      refine Function.update_of_ne (fun heq ↦ hchan ?_) ..
      obtain ⟨-, -, hdst, hu⟩ := Chan.mk.inj heq
      exact ⟨hdst, Nat.add_right_cancel hu⟩
    rw [hreceive, if_neg hchan, stream, hother, hsend]
    exact h src dst u

/-! ## The next call -/

/-- A call that has no part in a reply. -/
theorem Streams.dropCall (h : Streams s) {e : Effect} {rest : List Effect}
    (hcalls : s.calls i th = e :: rest)
    (hsend : th = .server → ∀ dst v, sentTo dst (waitTag v) e = none)
    (hreceive : ∀ u, th = .worker u → ∀ src, postedFrom src (waitTag u) e = none) :
    Streams (s.setCalls i th rest) := by
  refine h.congr (fun _ _ _ ↦ rfl) (fun src dst u ↦ ?_) fun dst u src ↦ ?_
  · rw [toSend_setCalls]
    split
    · rename_i hc
      obtain ⟨rfl, hth⟩ := hc
      rw [toSend, hth, hcalls, List.filterMap_cons, hsend hth.symm]
    · rfl
  · rw [toReceive_setCalls]
    split
    · rename_i hc
      obtain ⟨rfl, hth⟩ := hc
      rw [toReceive, hth, hcalls, List.filterMap_cons, hreceive u hth.symm]
    · rfl

/-- A server sends a payload of its reply. -/
theorem Streams.sendItem (h : Streams s) {dst u : Nat} {t : Transfer} {rest : List Effect}
    (hcalls : s.calls i .server = .isend dst (waitTag u) t :: rest) :
    Streams ((s.send ⟨i, .server, dst, waitTag u⟩ (.payload t)).setCalls i .server rest) := by
  set s' := (s.send ⟨i, .server, dst, waitTag u⟩ (.payload t)).setCalls i .server rest with hs'
  intro a b w
  have hreceive : toReceive s' b (.worker w) a (waitTag w) =
      toReceive s b (.worker w) a (waitTag w) := by
    rw [hs', toReceive_setCalls, if_neg fun hc ↦ Thread.noConfusion hc.2]
    rfl
  have hstream : stream s' a b w = stream s a b w := by
    by_cases hchan : a = i ∧ dst = b ∧ u = w
    · obtain ⟨rfl, rfl, rfl⟩ := hchan
      have hnet : s'.net ⟨a, .server, dst, waitTag u⟩ =
          s.net ⟨a, .server, dst, waitTag u⟩ ++ [.payload t] := Function.update_self ..
      have hnew : toSend s' a .server dst (waitTag u) =
          rest.filterMap (sentTo dst (waitTag u)) := by
        rw [hs', toSend_setCalls, if_pos ⟨rfl, rfl⟩]
      have hold : toSend s a .server dst (waitTag u) =
          (t.arg, t.count) :: rest.filterMap (sentTo dst (waitTag u)) := by
        rw [toSend, hcalls, List.filterMap_cons]
        simp only [sentTo, and_self, if_true]
      rw [stream, stream, hnet, hnew, hold, List.map_append, List.append_assoc]
      rfl
    · have hnet :
          s'.net ⟨a, .server, b, waitTag w⟩ = s.net ⟨a, .server, b, waitTag w⟩ := by
        refine Function.update_of_ne (fun heq ↦ hchan ?_) ..
        obtain ⟨ha, -, hb, hw⟩ := Chan.mk.inj heq
        exact ⟨ha, hb.symm, (Nat.add_right_cancel hw).symm⟩
      have hsend : toSend s' a .server b (waitTag w) = toSend s a .server b (waitTag w) := by
        rw [hs', toSend_setCalls]
        split
        · rename_i hc
          obtain ⟨rfl, -⟩ := hc
          have hother : sentTo b (waitTag w) (.isend dst (waitTag u) t) = none :=
            if_neg fun hc ↦ hchan ⟨rfl, hc.1, Nat.add_right_cancel hc.2⟩
          rw [toSend, hcalls, List.filterMap_cons, hother]
        · rfl
      rw [stream, stream, hnet, hsend]
  rw [hreceive, hstream]
  exact h a b w

/-- A worker that has payloads to receive takes the first of them from its stream. -/
theorem Streams.takeItem (h : Streams s) {src : Nat} {t : Transfer} {rest : List Effect}
    {p : Packet} {l : List Packet}
    (hcalls : s.calls i (.worker v) = .irecv src (waitTag v) t :: rest)
    (hnet : s.net ⟨src, .server, i, waitTag v⟩ = p :: l) :
    (∃ t', p = .payload t') ∧
      Streams ((s.setNet ⟨src, .server, i, waitTag v⟩ l).setCalls i (.worker v) rest) := by
  have hpending : toReceive s i (.worker v) src (waitTag v) =
      (t.arg, t.count) :: rest.filterMap (postedFrom src (waitTag v)) := by
    rw [toReceive, hcalls, List.filterMap_cons]
    simp only [postedFrom, and_self, if_true]
  have hhead : stream s src i v =
      p.item :: (l.map Packet.item ++ (toSend s src .server i (waitTag v)).map .inr) := by
    rw [stream, hnet]
    rfl
  have hitem := h src i v
  rw [hpending, hhead] at hitem
  obtain ⟨hp, hrest⟩ := hitem.item
  constructor
  · cases p with
    | desc d => cases hp
    | payload t' => exact ⟨t', rfl⟩
  · set s' := (s.setNet ⟨src, .server, i, waitTag v⟩ l).setCalls i (.worker v) rest with hs'
    intro a b w
    have hsend : toSend s' a .server b (waitTag w) = toSend s a .server b (waitTag w) := by
      rw [hs', toSend_setCalls, if_neg fun hc ↦ Thread.noConfusion hc.2]
      rfl
    by_cases hchan : a = src ∧ b = i ∧ w = v
    · obtain ⟨rfl, rfl, rfl⟩ := hchan
      have hnew : s'.net ⟨a, .server, b, waitTag w⟩ = l := Function.update_self ..
      have hreceive : toReceive s' b (.worker w) a (waitTag w) =
          rest.filterMap (postedFrom a (waitTag w)) := by
        rw [hs', toReceive_setCalls, if_pos ⟨rfl, rfl⟩]
      rw [hreceive, stream, hnew, hsend]
      exact hrest
    · have hother :
          s'.net ⟨a, .server, b, waitTag w⟩ = s.net ⟨a, .server, b, waitTag w⟩ := by
        refine Function.update_of_ne (fun heq ↦ hchan ?_) ..
        obtain ⟨ha, -, hb, hw⟩ := Chan.mk.inj heq
        exact ⟨ha, hb, Nat.add_right_cancel hw⟩
      have hreceive : toReceive s' b (.worker w) a (waitTag w) =
          toReceive s b (.worker w) a (waitTag w) := by
        rw [hs', toReceive_setCalls]
        split
        · rename_i hc
          obtain ⟨rfl, hw⟩ := hc
          obtain rfl := Thread.worker.inj hw
          have hnone : postedFrom a (waitTag w) (.irecv src (waitTag w) t) = none :=
            if_neg fun hc ↦ hchan ⟨hc.1.symm, rfl, rfl⟩
          rw [toReceive, hcalls, List.filterMap_cons, hnone]
        · rfl
      rw [hreceive, stream, hother, hsend]
      exact h a b w

theorem Streams.callStep (h : Streams s) (hsound : Sound s) {sender : Thread}
    (hs : callStep torcSize s i th sender = some s') : Streams s' := by
  have hok := hsound.call i th
  unfold Cluster.callStep at hs
  split at hs
  · cases hs
  · rename_i hcalls
    cases hs
    exact h.dropCall hcalls (fun _ _ _ ↦ rfl) fun _ _ _ ↦ rfl
  · rename_i hcalls
    cases hs
    exact h.dropCall hcalls (fun _ _ _ ↦ rfl) fun _ _ _ ↦ rfl
  · rename_i dst tag t rest hcalls
    cases hs
    have htag : PayloadTag th tag :=
      hok (.isend dst tag t) (by rw [hcalls]; exact List.mem_cons_self)
    cases th with
    | worker v =>
        have hsent := h.setNet (c := ⟨i, .worker v, dst, tag⟩)
          (l := s.net ⟨i, .worker v, dst, tag⟩ ++ [.payload t]) fun u hc ↦
            Thread.noConfusion hc.1
        exact hsent.dropCall hcalls (fun hc ↦ Thread.noConfusion hc) fun _ _ _ ↦ rfl
    | server =>
        obtain ⟨u, rfl⟩ := htag
        exact h.sendItem hcalls
  · rename_i src tag t rest hcalls
    have htag : ReceiveTag th tag :=
      hok (.irecv src tag t) (by rw [hcalls]; exact List.mem_cons_self)
    split at hs
    · cases hs
    · rename_i p l hnet
      split at hs <;> cases hs
      · cases th with
        | worker v =>
            obtain rfl : tag = waitTag v := htag
            have hserver : sender = .server :=
              hsound.server_of_waitTag (v := v) (p := p)
                (by rw [hnet]; exact List.mem_cons_self) rfl
            subst hserver
            exact (h.takeItem hcalls hnet).2
        | server =>
            have hlt : tag < maxNvps := htag
            have htaken := h.setNet (c := ⟨src, sender, i, tag⟩) (l := l) fun u hc ↦
              absurd hc.2 (Nat.ne_of_lt (hlt.trans (waitTag_gt u)))
            exact htaken.dropCall hcalls (fun _ _ _ ↦ rfl) fun u hc ↦ Thread.noConfusion hc
      · exact h.of_eq rfl rfl

/-! ## Every step -/

theorem stealNext_same (s : State) (i v : Nat) (why : Why) (node : Nat) :
    (stealNext s i v why node).net = s.net ∧ (stealNext s i v why node).calls = s.calls := by
  unfold stealNext
  split <;> exact ⟨rfl, rfl⟩

/-- Looking for a task on the own node sends nothing. -/
theorem nothingAt_same (workers : List Nat) (s : State) (i v : Nat) (why : Why) (pos : Pos) :
    (nothingAt workers s i v why pos).net = s.net ∧
      (nothingAt workers s i v why pos).calls = s.calls := by
  unfold nothingAt
  split
  · exact ⟨rfl, rfl⟩
  · exact ⟨rfl, rfl⟩
  · split
    · exact stealNext_same s i v why _
    · exact ⟨rfl, rfl⟩
  · exact stealNext_same s i v why _

theorem Streams.nothingAt (h : Streams s) (workers : List Nat) (i v : Nat) (why : Why)
    (pos : Pos) : Streams (nothingAt workers s i v why pos) := by
  obtain ⟨hnet, hcalls⟩ := nothingAt_same workers s i v why pos
  exact h.of_eq hnet hcalls

theorem Streams.lookAt (h : Streams s) (hidle : s.calls i (.worker v) = []) {why : Why} {pos : Pos}
    (hs : lookAt workers s i v why pos = some s') : Streams s' := by
  unfold Cluster.lookAt at hs
  split at hs
  · split at hs <;> cases hs
    · exact h.of_eq rfl rfl
    · exact h.nothingAt workers i v why _
  · split at hs <;> cases hs
    · exact h.of_eq rfl rfl
    · exact h.nothingAt workers i v why _
  · rename_i node
    split at hs <;> cases hs
    have hlock : Streams (s.lockInternode i true) := h.of_eq rfl rfl
    exact (hlock.sendDescriptor hidle node _ _).of_eq rfl rfl

theorem Streams.insertTask (h : Streams s) (hidle : s.calls i (.worker v) = []) {work : Work}
    {roundRobin : Bool} {target : Nat}
    (hs : insertTask workers s i v work roundRobin target = some s') : Streams s' := by
  unfold Cluster.insertTask at hs
  split at hs
  · cases hs
    exact h.of_eq rfl rfl
  · simp only [Option.bind_eq_bind, Option.bind_eq_some_iff] at hs
    obtain ⟨targetNode, _, targetQueue, _, hs⟩ := hs
    split at hs <;> cases hs
    · exact h.sendDescriptor hidle targetNode _ _
    · exact h.of_eq rfl rfl

theorem Streams.workerStep (h : Streams s) (hidle : s.calls i (.worker v) = [])
    (hs : workerStep workers s i v = some s') : Streams s' := by
  unfold Cluster.workerStep at hs
  split at hs
  · obtain ⟨s₁, hins, rfl⟩ := Option.map_eq_some_iff.mp hs
    exact (h.insertTask hidle hins).of_eq rfl rfl
  · exact h.lookAt hidle hs
  · cases hs
    exact h.of_eq rfl rfl
  · rename_i why work _
    cases hs
    cases why <;> exact h.of_eq rfl rfl
  · cases hs
  · cases hs

theorem Streams.receiveReply (h : Streams s) (hsound : Sound s)
    (hidle : s.calls i (.worker v) = []) {sender : Thread} {mem : Nat → Int}
    (hs : receiveReply workers s i v sender mem = some s') : Streams s' := by
  unfold Cluster.receiveReply at hs
  split at hs
  · rename_i why node hctl
    split at hs
    · cases hs
    · cases hs
      exact h.of_eq rfl rfl
    · rename_i desc rest hnet
      have hmem : .desc desc ∈ s.net ⟨node, sender, i, waitTag v⟩ := by
        rw [hnet]
        exact List.mem_cons_self
      obtain rfl : sender = .server := hsound.server_of_waitTag hmem rfl
      have hdesc : DescOk ⟨node, .server, i, waitTag v⟩ desc := hsound.packet _ _ hmem
      have htaken := h.takeReply hidle hdesc.source hnet mem
      dsimp only at hs
      split at hs <;> cases hs
      · rename_i hno
        -- without work nothing is received
        have hnone : (receiveStolen i v mem desc).2 = [] := by
          rw [receiveStolen, if_pos hno]
        rw [hnone] at htaken
        apply Streams.nothingAt
        apply htaken.congr
        · exact fun _ _ _ ↦ rfl
        · intro src dst u
          rw [toSend_setCalls, if_neg fun hc ↦ Thread.noConfusion hc.2]
          rfl
        · intro dst u src
          rw [toReceive_setCalls]
          split
          · rename_i hc
            obtain ⟨rfl, hu⟩ := hc
            obtain rfl := Thread.worker.inj hu
            show (s.calls dst (.worker u)).filterMap _ = _
            rw [hidle]
          · rfl
      · exact htaken.of_eq rfl rfl
  · cases hs

theorem Streams.finishTask (h : Streams s) (hidle : s.calls i (.worker v) = [])
    (hs : finishTask s i v = some s') : Streams s' := by
  unfold Cluster.finishTask at hs
  split at hs
  · cases hs
  · rename_i work rest _
    split at hs <;> cases hs
    · exact (h.sendDescriptor hidle work.desc.homenode work.desc .torcAnswer).of_eq rfl rfl
    · exact h.of_eq rfl rfl

theorem Streams.handle (h : Streams s) (i : Nat) (desc : TorcT) : Streams (handle s i desc) := by
  unfold Cluster.handle
  split
  · dsimp only
    split <;> exact h.of_eq rfl rfl
  all_goals exact h.of_eq rfl rfl

theorem Streams.serverStep (h : Streams s) (hsound : Sound s) (hidle : s.calls i .server = [])
    (hs : serverStep s i = some s') : Streams s' := by
  have hok := hsound.server i
  unfold Cluster.serverStep at hs
  split at hs
  · cases hs
  · cases hs
    exact h.handle i _
  · split at hs
    · cases hs
      exact h.of_eq rfl rfl
    · split at hs <;> cases hs <;> exact h.of_eq rfl rfl
  · rename_i request work hctl
    rw [hctl] at hok
    cases hs
    have hempty : (replyDesc work).type = .torcNoWork → (replyDesc work).narg = 0 := by
      cases work with
      | none => exact fun _ ↦ rfl
      | some w => exact fun htype ↦ absurd htype w.isTask
    exact (h.directSendDescriptor hidle hok.1 request.sourcenode hempty).of_eq rfl rfl
  · rename_i hctl
    rw [hctl] at hok
    exact absurd hok id

theorem Streams.receiveMessage (h : Streams s) (hidle : s.calls i .server = []) {src : Nat}
    {sender : Thread} {mem : Nat → Int}
    (hs : receiveMessage s i src sender mem = some s') : Streams s' := by
  unfold Cluster.receiveMessage at hs
  split at hs
  · rename_i desc rest _ _
    split at hs <;> cases hs
    · exact h.of_eq rfl rfl
    · have htaken := h.setNet (c := ⟨src, sender, i, maxNvps⟩) (l := rest) fun u hc ↦
        absurd hc.2 (Nat.ne_of_lt (waitTag_gt u))
      apply (htaken.setCalls_server hidle fun dst u ↦ ?_).of_eq rfl rfl
      apply List.filterMap_eq_nil_iff.mpr
      intro e he
      rcases effect_received he with ⟨a, rfl⟩ | ⟨a, n, rfl⟩ | ⟨t, rfl⟩ <;> rfl
  · cases hs
    exact h.of_eq rfl rfl
  · cases hs

theorem Streams.threadStep (h : Streams s) (hsound : Sound s) {a : Act}
    (hs : threadStep torcSize workers s a = some s') : Streams s' := by
  cases a with
  | spawn i v r work heap cs roundRobin target =>
      simp only [Cluster.threadStep] at hs
      split at hs
      · obtain ⟨w, -, rfl⟩ := Option.map_eq_some_iff.mp hs
        exact h.of_eq rfl rfl
      · cases hs
  | schedule i v | fetch i v =>
      simp only [Cluster.threadStep] at hs
      split at hs <;> cases hs
      exact h.of_eq rfl rfl
  | finish i v =>
      simp only [Cluster.threadStep] at hs
      split at hs
      · rename_i hguard
        exact h.finishTask hguard.1.2 hs
      · cases hs
  | advance i v =>
      simp only [Cluster.threadStep] at hs
      split at hs
      · rename_i hguard
        exact h.workerStep hguard.2 hs
      · cases hs
  | reply i v sender mem =>
      simp only [Cluster.threadStep] at hs
      split at hs
      · rename_i hguard
        exact h.receiveReply hsound hguard.2 hs
      · cases hs
  | serve i =>
      simp only [Cluster.threadStep] at hs
      split at hs
      · rename_i hguard
        exact h.serverStep hsound hguard.2 hs
      · cases hs
  | receive i src sender mem =>
      simp only [Cluster.threadStep] at hs
      split at hs
      · rename_i hguard
        exact h.receiveMessage hguard.2 hs
      · cases hs
  | call i th sender =>
      simp only [Cluster.threadStep] at hs
      split at hs
      · exact h.callStep hsound hs
      · cases hs
  | setStealing i on =>
      cases hs
      exact h.of_eq rfl rfl

theorem Streams.init : Streams {} :=
  fun _ _ _ ↦ .nil

end Torc.Cluster
